import WorkflowEngine.Number.Shortest

/-!
# Printed numbers

How numbers are written. A binary64 number shows the fewest digits that read back, with a point and
at least one digit behind it, or in exponent form when the point lies far from the digits; short
forms show six digits, fixed forms a given count of places.
-/

namespace WorkflowEngine.Number

/-- The character of a decimal digit. -/
def digitChar (n : Nat) : Char := Char.ofNat (48 + n)

/-- The text of a natural number. -/
def natText (n : Nat) : String := String.ofList ((digitsOf n).map digitChar)

/-- The text of an integer. -/
def intText (n : Int) : String := (if n < 0 then "-" else "") ++ natText n.natAbs

/-- Which numbers are written in exponent form, and how the others end. -/
structure NumberStyle where
  /-- The least place of the point that is still written positionally. -/
  least : Int
  /-- The greatest place of the point that is still written positionally. -/
  greatest : Int
  /-- Whether a whole number in positional form ends in `.0`. -/
  showsPoint : Bool

/-- Values show a point, positionally from `0.0001` to below `10 ^ 16`. -/
def valueStyle : NumberStyle := ⟨-3, 16, true⟩

/-- Short forms have six digits and show no point behind a whole number. -/
def shortStyle : NumberStyle := ⟨-3, 6, false⟩

/-- The exponent of a number in exponent form, with at least two digits. -/
def exponentText (e : Int) : String :=
  let digits := natText e.natAbs
  (if e < 0 then "e-" else "e+") ++ (if digits.length < 2 then "0" else "") ++ digits

/-- Digits laid out in a style. -/
def Digits.layOut (ds : Digits) (style : NumberStyle) : String :=
  let cs := ds.digits.map digitChar
  if ds.point < style.least ∨ style.greatest < ds.point then
    let fraction := if cs.length ≤ 1 then [] else '.' :: cs.drop 1
    String.ofList (cs.take 1 ++ fraction) ++ exponentText (ds.point - 1)
  else if ds.point ≤ 0 then
    String.ofList ('0' :: '.' :: List.replicate (-ds.point).toNat '0' ++ cs)
  else
    let places := ds.point.toNat
    let whole := cs.take places ++ List.replicate (places - cs.length) '0'
    let fraction := cs.drop places
    let tail :=
      if fraction.isEmpty then if style.showsPoint then ['.', '0'] else [] else '.' :: fraction
    String.ofList (whole ++ tail)

/-- The text of a number, with its finite magnitude laid out by `layOut`. -/
def printWith (layOut : (significand : Nat) → (exponent : Int) → String) (x : Float) : String :=
  match decode x with
  | .nan => "nan"
  | .infinite negative => if negative then "-inf" else "inf"
  | .finite negative m e => (if negative then "-" else "") ++ layOut m e

/-- The text of a number: the fewest digits that read back. -/
def floatText (x : Float) : String :=
  printWith (fun m e => if m = 0 then "0.0" else (shortest m e).layOut valueStyle) x

/-- The exact quotient `m · 2 ^ e`. -/
def exactQuotient (m : Nat) (e : Int) : Nat × Nat :=
  if 0 ≤ e then (m * Nat.pow 2 e.toNat, 1) else (m, Nat.pow 2 (-e).toNat)

/-- The short text of a number: six digits at most. -/
def shortText (x : Float) : String :=
  printWith (fun m e =>
    let (n, d) := exactQuotient m e
    if m = 0 then "0" else (roundedTo 6 n d).layOut shortStyle) x

/-- The text of a number with a fixed count of places behind the point. -/
def fixedText (places : Nat) (x : Float) : String :=
  printWith (fun m e =>
    let (n, d) := exactQuotient m e
    let scaled := roundQuotient (n * Nat.pow 10 places) d
    let fraction := natText (scaled % Nat.pow 10 places)
    natText (scaled / Nat.pow 10 places) ++ "." ++
      String.ofList (List.replicate (places - fraction.length) '0') ++ fraction) x

end WorkflowEngine.Number
