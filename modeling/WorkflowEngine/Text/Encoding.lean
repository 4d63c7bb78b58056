/-!
# Text encodings

Reading texts from bytes in UTF-8, UTF-16 and UTF-32, and writing UTF-8. A text is a row of Unicode
scalar values, so a surrogate that stands alone where it is let pass becomes the replacement
character.
-/

namespace WorkflowEngine.Text

/-- The replacement character. -/
def replacement : Char := Char.ofNat 0xFFFD

/-- The character of a code point, the replacement character for a surrogate. -/
def scalar (n : Nat) : Char := if n.isValidChar then Char.ofNat n else replacement

/-- The shape of a first byte of UTF-8: how many bytes follow, the bits it gives, and the range of
the second byte. Surrogates have no form in UTF-8, but may be let pass. -/
def leadByte? (surrogates : Bool) (b : Nat) : Option (Nat × Nat × Nat × Nat) :=
  if 0xC2 ≤ b ∧ b ≤ 0xDF then some (1, b - 0xC0, 0x80, 0xBF)
  else if b = 0xE0 then some (2, 0, 0xA0, 0xBF)
  else if b = 0xED then some (2, 0xD, 0x80, if surrogates then 0xBF else 0x9F)
  else if 0xE1 ≤ b ∧ b ≤ 0xEF then some (2, b - 0xE0, 0x80, 0xBF)
  else if b = 0xF0 then some (3, 0, 0x90, 0xBF)
  else if 0xF1 ≤ b ∧ b ≤ 0xF3 then some (3, b - 0xF0, 0x80, 0xBF)
  else if b = 0xF4 then some (3, 4, 0x80, 0x8F)
  else none

/-- What is left to read of a character of UTF-8. -/
structure Pending where
  /-- How many bytes are still owed. -/
  owed : Nat
  /-- The bits read so far. -/
  bits : Nat
  /-- The least next byte. -/
  low : Nat
  /-- The greatest next byte. -/
  high : Nat

/-- Reads UTF-8, with `onBad` for the characters that stand for a malformed piece; `none` from it
refuses the whole. A malformed piece is a longest row of bytes that begins some character. -/
def readUtf8 (surrogates : Bool) (onBad : Option (List Char)) :
    Option Pending → List UInt8 → Option (List Char)
  | none, [] => some []
  | some _, [] => onBad
  | none, b :: bs =>
    if b.toNat < 0x80 then (readUtf8 surrogates onBad none bs).map (Char.ofNat b.toNat :: ·)
    else
      match leadByte? surrogates b.toNat with
      | some (owed, bits, low, high) => readUtf8 surrogates onBad (some ⟨owed, bits, low, high⟩) bs
      | none => onBad.bind fun cs => (readUtf8 surrogates onBad none bs).map (cs ++ ·)
  | some p, b :: bs =>
    let n := b.toNat
    if p.low ≤ n ∧ n ≤ p.high then
      let bits := p.bits * 64 + (n - 0x80)
      if p.owed ≤ 1 then (readUtf8 surrogates onBad none bs).map (scalar bits :: ·)
      else readUtf8 surrogates onBad (some ⟨p.owed - 1, bits, 0x80, 0xBF⟩) bs
    else
      onBad.bind fun cs =>
        if n < 0x80 then (readUtf8 surrogates onBad none bs).map fun rest => cs ++ Char.ofNat n :: rest
        else
          match leadByte? surrogates n with
          | some (owed, bits, low, high) =>
            (readUtf8 surrogates onBad (some ⟨owed, bits, low, high⟩) bs).map (cs ++ ·)
          | none => (readUtf8 surrogates onBad none bs).map fun rest => cs ++ cs ++ rest

/-- The text written by bytes of UTF-8, if they are well formed. -/
def utf8? (bs : List UInt8) : Option String := (readUtf8 false none none bs).map String.ofList

/-- The text written by bytes of UTF-8 in which surrogates are let pass. -/
def looseUtf8? (bs : List UInt8) : Option String := (readUtf8 true none none bs).map String.ofList

/-- The text written by bytes of UTF-8, with one replacement character for each malformed piece. -/
def utf8Lossy (bs : List UInt8) : String :=
  String.ofList ((readUtf8 false (some [replacement]) none bs).getD [])

/-- The bytes of a text in UTF-8. -/
def toUtf8 (s : String) : List UInt8 := s.toUTF8.toList

/-- Joins the code units of UTF-16, a lone surrogate becoming the replacement character. -/
def joinUnits : List Nat → List Char
  | [] => []
  | [u] => [scalar u]
  | u :: v :: rest =>
    if 0xD800 ≤ u ∧ u < 0xDC00 ∧ 0xDC00 ≤ v ∧ v < 0xE000 then
      scalar (0x10000 + (u - 0xD800) * 0x400 + (v - 0xDC00)) :: joinUnits rest
    else scalar u :: joinUnits (v :: rest)

/-- The numbers written by groups of `size` bytes, most significant first or last; refuses bytes
left over. -/
def byteGroups? (size : Nat) (bigEndian : Bool) (bs : List UInt8) : Option (List Nat) :=
  if size = 0 ∨ bs.length % size ≠ 0 then none
  else
    some ((List.range (bs.length / size)).map fun i =>
      let group := (bs.drop (i * size)).take size
      (if bigEndian then group else group.reverse).foldl (fun n b => n * 256 + b.toNat) 0)

/-- The text written by bytes of UTF-16. -/
def utf16? (bigEndian : Bool) (bs : List UInt8) : Option String :=
  (byteGroups? 2 bigEndian bs).map fun units => String.ofList (joinUnits units)

/-- The text written by bytes of UTF-32. -/
def utf32? (bigEndian : Bool) (bs : List UInt8) : Option String :=
  (byteGroups? 4 bigEndian bs).bind fun ns =>
    if ns.all (· < 0x110000) then some (String.ofList (ns.map scalar)) else none

/-- How a text is encoded in bytes. -/
inductive Encoding where
  | utf8
  | utf16 (bigEndian : Bool)
  | utf32 (bigEndian : Bool)
  deriving DecidableEq, Repr

/-- The text written by bytes of an encoding. Surrogates are let pass. -/
def Encoding.decode? : Encoding → List UInt8 → Option String
  | .utf8 => looseUtf8?
  | .utf16 bigEndian => utf16? bigEndian
  | .utf32 bigEndian => utf32? bigEndian

/-- The byte order marks, with their encodings. -/
def orderMarks : List (List UInt8 × Encoding) :=
  [([0x00, 0x00, 0xFE, 0xFF], .utf32 true), ([0xFF, 0xFE, 0x00, 0x00], .utf32 false),
    ([0xFE, 0xFF], .utf16 true), ([0xFF, 0xFE], .utf16 false), ([0xEF, 0xBB, 0xBF], .utf8)]

/-- The encoding that shows in the places of zero bytes, UTF-8 if there are none. -/
def encodingByZeros : List UInt8 → Encoding
  | first :: second :: third :: fourth :: _ =>
    if first = 0 then if second = 0 then .utf32 true else .utf16 true
    else if second = 0 then if third = 0 ∧ fourth = 0 then .utf32 false else .utf16 false
    else .utf8
  | [first, second] =>
    if first = 0 then .utf16 true else if second = 0 then .utf16 false else .utf8
  | _ => .utf8

/-- The encoding that shows in some bytes, and the length of the byte order mark in front. -/
def encodingOf (bs : List UInt8) : Encoding × Nat :=
  match orderMarks.find? fun (mark, _) => mark.isPrefixOf bs with
  | some (mark, encoding) => (encoding, mark.length)
  | none => (encodingByZeros bs, 0)

/-- The text of bytes in the encoding that shows in them. -/
def detected? (bs : List UInt8) : Option String :=
  let (encoding, mark) := encodingOf bs
  encoding.decode? (bs.drop mark)

/-- The lines of a text end in a line feed, whichever of the three line ends was written. -/
def unifyLineEnds : List Char → List Char
  | [] => []
  | '\r' :: '\n' :: rest => '\n' :: unifyLineEnds rest
  | '\r' :: rest => '\n' :: unifyLineEnds rest
  | c :: rest => c :: unifyLineEnds rest

end WorkflowEngine.Text
