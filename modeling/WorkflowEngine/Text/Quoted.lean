import WorkflowEngine.Text.Printable

/-!
# Quoted text

The quoted form of a text and of a row of bytes. Printable characters show as themselves; the
backslash, the quote and everything unprintable are spelled out. The single quote is used unless
the text holds single quotes and no double ones.
-/

namespace WorkflowEngine.Text

/-- A digit of a hexadecimal number, in lower case. -/
def hexDigit (n : Nat) : Char :=
  if n < 10 then Char.ofNat (48 + n) else Char.ofNat (87 + n)

/-- The last `width` hexadecimal digits of a number. -/
def hex : (width : Nat) → Nat → List Char
  | 0, _ => []
  | width + 1, n => hex width (n / 16) ++ [hexDigit (n % 16)]

/-- The quote that a text with these code points is put in. -/
def quoteFor (ns : List Nat) : Char :=
  if ns.contains 39 && !ns.contains 34 then '"' else '\x27'

/-- The spelling, inside `quote`, of a code point that both texts and bytes treat alike. -/
def escapeCommon? (quote : Char) (n : Nat) : Option (List Char) :=
  if n = 92 then some ['\\', '\\']
  else if n = quote.toNat then some ['\\', quote]
  else if n = 9 then some ['\\', 't']
  else if n = 10 then some ['\\', 'n']
  else if n = 13 then some ['\\', 'r']
  else if n < 32 ∨ n = 127 then some ('\\' :: 'x' :: hex 2 n)
  else none

/-- The spelling of a character inside `quote`. -/
def escapeChar (quote : Char) (c : Char) : List Char :=
  let n := c.toNat
  match escapeCommon? quote n with
  | some cs => cs
  | none =>
    if isPrintable c then [c]
    else if n < 0x100 then '\\' :: 'x' :: hex 2 n
    else if n < 0x10000 then '\\' :: 'u' :: hex 4 n
    else '\\' :: 'U' :: hex 8 n

/-- The quoted form of a text. -/
def quoted (s : String) : String :=
  let quote := quoteFor (s.toList.map Char.toNat)
  String.ofList (quote :: s.toList.flatMap (escapeChar quote) ++ [quote])

/-- The spelling of a byte inside `quote`. -/
def escapeByte (quote : Char) (b : UInt8) : List Char :=
  match escapeCommon? quote b.toNat with
  | some cs => cs
  | none => if b.toNat < 127 then [Char.ofNat b.toNat] else '\\' :: 'x' :: hex 2 b.toNat

/-- The quoted form of a row of bytes, marked by a leading `b`. -/
def quotedBytes (bs : List UInt8) : String :=
  let quote := quoteFor (bs.map UInt8.toNat)
  String.ofList ('b' :: quote :: bs.flatMap (escapeByte quote) ++ [quote])

end WorkflowEngine.Text
