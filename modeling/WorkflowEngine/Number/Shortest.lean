import WorkflowEngine.Number.Binary64

/-!
# Shortest decimal digits

The decimal digits of a positive binary64 number: the fewest that read back as the same number, and
of those the nearest to it; or a given count of digits, rounded.
-/

namespace WorkflowEngine.Number

/-- Decimal digits `0.d₁d₂… · 10 ^ point`, of which the first is not zero. -/
structure Digits where
  /-- The digits, most significant first. -/
  digits : List Nat
  /-- The place of the decimal point, counted from the first digit. -/
  point : Int
  deriving DecidableEq, Repr

/-- The decimal digits of a natural number, most significant first, in front of `rest`. -/
def digitsOnto (n : Nat) (rest : List Nat) : List Nat :=
  if n < 10 then n :: rest else digitsOnto (n / 10) (n % 10 :: rest)
termination_by n

/-- The decimal digits of a natural number, most significant first. -/
def digitsOf (n : Nat) : List Nat := digitsOnto n []

/-- The numerator and the denominator of `num / den / 10 ^ e`. -/
def scaleDecimal (num den : Nat) (e : Int) : Nat × Nat :=
  if 0 ≤ e then (num, den * Nat.pow 10 e.toNat) else (num * Nat.pow 10 (-e).toNat, den)

/-- The place of the decimal point of `num / den`, at most `steps` below the given place. -/
def pointBelow (num den : Nat) : (steps : Nat) → Int → Int
  | 0, e => e
  | steps + 1, e =>
    let (n, d) := scaleDecimal num den (e - 1)
    if n < d then pointBelow num den steps (e - 1) else e

/-- The place of the decimal point of a positive quotient: `10 ^ (point - 1) ≤ q < 10 ^ point`. -/
def pointOf (num den : Nat) : Int :=
  let top : Int := ((digitsOf num).length : Int) - (digitsOf den).length + 1
  pointBelow num den 2 top

/-- The digits without the zeros at their end. -/
def dropTrailingZeros (ds : List Nat) : List Nat := (ds.reverse.dropWhile (· == 0)).reverse

/-- The digits of the multiple `m · 10 ^ e`. -/
def Digits.ofMultiple (m : Nat) (e : Int) : Digits :=
  let ds := digitsOf m
  ⟨dropTrailingZeros ds, ds.length + e⟩

/-- The numerators over one denominator of a number, of the lower and of the upper end of the
numbers that round to it, and whether the ends round to it too. -/
structure Interval where
  value : Nat
  low : Nat
  high : Nat
  den : Nat
  closed : Bool

/-- The interval of a positive number `m · 2 ^ e`. The gap below a power of two is half as wide. -/
def intervalOf (m : Nat) (e : Int) : Interval :=
  let (scale, den) := if 0 ≤ e then (4 * Nat.pow 2 e.toNat, 4) else (4, 4 * Nat.pow 2 (-e).toNat)
  let unit := scale / 4
  let below := if m = Nat.pow 2 52 ∧ -1074 < e then unit else 2 * unit
  ⟨m * scale, m * scale - below, m * scale + 2 * unit, den, m % 2 == 0⟩

/-- Whether the multiple `n · 10 ^ e` rounds to the number of the interval. -/
def Interval.holds (i : Interval) (n : Nat) (e : Int) : Bool :=
  let (num, den) := scaleDecimal (n * i.den) 1 (-e)
  let low := i.low * den
  let high := i.high * den
  if i.closed then low ≤ num && num ≤ high else low < num && num < high

/-- The nearest multiple of `10 ^ e` that rounds to the number of the interval, if one does; of two
equally near ones the even. -/
def Interval.pick? (i : Interval) (e : Int) : Option Nat :=
  let (n, d) := scaleDecimal i.value i.den e
  let q := n / d
  match i.holds q e, i.holds (q + 1) e with
  | true, true => some (roundQuotient n d)
  | true, false => some q
  | false, true => some (q + 1)
  | false, false => none

/-- The shortest digits of the interval's number, tried from `17 - steps` digits on. -/
def Interval.shortestFrom (i : Interval) (point : Int) : (steps : Nat) → Digits
  | 0 =>
    let e := point - 17
    let (n, d) := scaleDecimal i.value i.den e
    .ofMultiple (roundQuotient n d) e
  | steps + 1 =>
    let e := point - (17 - (steps + 1) : Nat)
    match i.pick? e with
    | some n => .ofMultiple n e
    | none => i.shortestFrom point steps

/-- The fewest decimal digits that read back as the positive number `m · 2 ^ e`. -/
def shortest (m : Nat) (e : Int) : Digits :=
  let i := intervalOf m e
  i.shortestFrom (pointOf i.value i.den) 16

/-- The digits of a positive quotient rounded to `count` digits. -/
def roundedTo (count : Nat) (num den : Nat) : Digits :=
  let e := pointOf num den - count
  let (n, d) := scaleDecimal num den e
  .ofMultiple (roundQuotient n d) e

end WorkflowEngine.Number
