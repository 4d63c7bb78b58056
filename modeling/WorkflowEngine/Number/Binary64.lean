/-!
# Binary64 numbers

A `Float` taken apart into sign, whole significand and binary exponent, and put together again from
an exact quotient by rounding to the nearest, ties to even. Everything here is exact arithmetic on
natural numbers and integers; the `Float` is only the carrier of the bits.
-/

namespace WorkflowEngine.Number

/-- What the bits of a `Float` stand for. -/
inductive Decoded where
  /-- Not a number. -/
  | nan
  /-- An infinity. -/
  | infinite (negative : Bool)
  /-- The number `± significand · 2 ^ exponent`. -/
  | finite (negative : Bool) (significand : Nat) (exponent : Int)
  deriving DecidableEq, Repr

/-- Takes the bits of a `Float` apart. -/
def decode (x : Float) : Decoded :=
  let bits : Nat := x.toBits.toNat
  let negative := bits / Nat.pow 2 63 == 1
  let exponent : Nat := bits / Nat.pow 2 52 % 2048
  let fraction : Nat := bits % Nat.pow 2 52
  if exponent = 2047 then
    if fraction = 0 then .infinite negative else .nan
  else if exponent = 0 then .finite negative fraction (-1074)
  else .finite negative (fraction + Nat.pow 2 52) ((exponent : Int) - 1075)

/-- The quotient rounded to the nearest whole number, a half to the even neighbour. -/
def roundQuotient (num den : Nat) : Nat :=
  let q := num / den
  let twice := 2 * (num % den)
  if twice < den then q
  else if den < twice then q + 1
  else if q % 2 = 0 then q else q + 1

/-- The numerator and the denominator of `num / den / 2 ^ e`. -/
def scaleDown (num den : Nat) (e : Int) : Nat × Nat :=
  if 0 ≤ e then (num, den * Nat.pow 2 e.toNat) else (num * Nat.pow 2 (-e).toNat, den)

/-- The binary exponent with which `num / den` has a significand of 53 bits, at least `-1074`. -/
def quotientExponent (num den : Nat) : Int :=
  let guess : Int := (Nat.log2 num : Int) - Nat.log2 den - 52
  let (n, d) := scaleDown num den guess
  max (-1074) (if n / d < Nat.pow 2 52 then guess - 1 else guess)

/-- The bits of the `Float` nearest to `num / den`, without a sign. -/
def nearestBits (num den : Nat) : Nat :=
  if num = 0 then 0
  else
    let e := quotientExponent num den
    let (n, d) := scaleDown num den e
    let m := roundQuotient n d
    let (m, e) := if m = Nat.pow 2 53 then (Nat.pow 2 52, e + 1) else (m, e)
    if 971 < e then 2047 * Nat.pow 2 52
    else if m < Nat.pow 2 52 then m
    else (e + 1075).toNat * Nat.pow 2 52 + (m - Nat.pow 2 52)

/-- The `Float` nearest to `± num / den`; an infinity if the quotient is too large. -/
def nearest (negative : Bool) (num den : Nat) : Float :=
  Float.ofBits (UInt64.ofNat (nearestBits num den + if negative then Nat.pow 2 63 else 0))

/-- Positive infinity. -/
def infinity : Float := Float.ofBits 0x7FF0000000000000

/-- Negative infinity. -/
def negativeInfinity : Float := Float.ofBits 0xFFF0000000000000

/-- The value that is not a number. -/
def notANumber : Float := Float.ofBits 0x7FF8000000000000

/-- The least whole number that rounds to an infinity. -/
def overflowBound : Nat := Nat.pow 2 1024 - Nat.pow 2 970

/-- The `Float` nearest to an integer, if there is a finite one. -/
def ofInt? (n : Int) : Option Float :=
  if overflowBound ≤ n.natAbs then none else some (nearest (decide (n < 0)) n.natAbs 1)

/-- The `Float` nearest to the quotient of an integer and a natural number. -/
def ofQuotient (num : Int) (den : Nat) : Float := nearest (decide (num < 0)) num.natAbs den

/-- Puts the sign on a magnitude. -/
def signed (negative : Bool) (n : Nat) : Int := if negative then -(n : Int) else n

/-- The whole part of a number, towards zero; `none` for the infinities and not-a-number. -/
def truncate? (x : Float) : Option Int :=
  match decode x with
  | .finite negative m e =>
    some (signed negative (if 0 ≤ e then m * Nat.pow 2 e.toNat else m / Nat.pow 2 (-e).toNat))
  | _ => none

/-- Whether a number is finite and whole. -/
def isWhole (x : Float) : Bool :=
  match decode x with
  | .finite _ m e => 0 ≤ e || m % Nat.pow 2 (-e).toNat == 0
  | _ => false

/-- A number rounded to the nearest integer, a half to the even neighbour. -/
def roundEven? (x : Float) : Option Int :=
  match decode x with
  | .finite negative m e =>
    some (signed negative
      (if 0 ≤ e then m * Nat.pow 2 e.toNat else roundQuotient m (Nat.pow 2 (-e).toNat)))
  | _ => none

/-- The exact order of an integer and a number; `none` against not-a-number. -/
def compareInt? (n : Int) (x : Float) : Option Ordering :=
  match decode x with
  | .nan => none
  | .infinite negative => some (if negative then .gt else .lt)
  | .finite negative m e =>
    let k := signed negative m
    some (if 0 ≤ e then compare n (k * Nat.pow 2 e.toNat) else compare (n * Nat.pow 2 (-e).toNat) k)

/-- The exact order of two numbers; `none` if one is not a number. -/
def compare? (x y : Float) : Option Ordering :=
  if x < y then some .lt else if y < x then some .gt else if x == y then some .eq else none

end WorkflowEngine.Number
