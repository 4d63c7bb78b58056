import WorkflowEngine.Number.Printed
import WorkflowEngine.Number.Written

/-!
# Dates and times of day

Days of the proleptic Gregorian calendar, times of day to the microsecond with an optional distance
from universal time, and their written forms. Instants are counted in microseconds from the
beginning of 1970.
-/

namespace WorkflowEngine

open Number

/-- A day of the calendar. -/
structure Date where
  year : Nat
  month : Nat
  day : Nat
  deriving DecidableEq, Repr, Inhabited

/-- A time of a day, `offset` seconds ahead of universal time if that is known. -/
structure Timestamp where
  date : Date
  hour : Nat := 0
  minute : Nat := 0
  second : Nat := 0
  micro : Nat := 0
  offset : Option Int := none
  deriving DecidableEq, Repr, Inhabited

/-- Microseconds from the beginning of 1970. -/
abbrev Instant := Int

/-- A number in decimal digits, filled up with zeros in front. -/
def padded (width n : Nat) : String :=
  let s := natText n
  String.ofList (List.replicate (width - s.length) '0') ++ s

/-- The day that lies a number of days behind the first of January 1970. -/
def Date.ofDays (days : Int) : Date :=
  let z := days + 719468
  let era := z / 146097
  let doe := (z % 146097).toNat
  let yoe := (doe - doe / 1460 + doe / 36524 - doe / 146096) / 365
  let doy := doe - (365 * yoe + yoe / 4 - yoe / 100)
  let mp := (5 * doy + 2) / 153
  let day := doy - (153 * mp + 2) / 5 + 1
  let month := if mp < 10 then mp + 3 else mp - 9
  let year := era * 400 + yoe + if month ≤ 2 then 1 else 0
  ⟨year.toNat, month, day⟩

/-- The written form of a day. -/
def Date.iso (d : Date) : String :=
  padded 4 d.year ++ "-" ++ padded 2 d.month ++ "-" ++ padded 2 d.day

/-- The written form of a distance from universal time. -/
def offsetText (seconds : Int) : String :=
  let n := seconds.natAbs
  (if seconds < 0 then "-" else "+") ++ padded 2 (n / 3600) ++ ":" ++ padded 2 (n / 60 % 60) ++
    if n % 60 = 0 then "" else ":" ++ padded 2 (n % 60)

/-- The written form of a time, with `separator` between day and time; no fraction when it is
zero. -/
def Timestamp.isoWith (separator : String) (t : Timestamp) : String :=
  t.date.iso ++ separator ++ padded 2 t.hour ++ ":" ++ padded 2 t.minute ++ ":" ++
    padded 2 t.second ++ (if t.micro = 0 then "" else "." ++ padded 6 t.micro) ++
    match t.offset with
    | none => ""
    | some seconds => offsetText seconds

/-- The written form of a time, in the form for data. -/
def Timestamp.iso (t : Timestamp) : String := t.isoWith "T"

/-- The time of an instant, in universal time. -/
def Timestamp.ofInstant (instant : Instant) : Timestamp :=
  let seconds := instant / 1000000
  let ofDay := (seconds % 86400).toNat
  { date := Date.ofDays (seconds / 86400), hour := ofDay / 3600, minute := ofDay / 60 % 60,
    second := ofDay % 60, micro := (instant % 1000000).toNat, offset := some 0 }

/-- The written form of an instant. -/
def isoText (instant : Instant) : String := (Timestamp.ofInstant instant).iso

/-- The number that a text of decimal digits writes. -/
def readDigits? (s : String) : Option Nat :=
  let ds := s.toList.map Text.asciiDigit?
  if ds.isEmpty ∨ ds.any Option.isNone then none
  else some (ofDigits (ds.map fun d => d.getD 0))

/-- Reads a day. -/
def Date.read? (s : String) : Option Date :=
  match s.splitOn "-" with
  | [y, m, d] => do pure ⟨← readDigits? y, ← readDigits? m, ← readDigits? d⟩
  | _ => none

/-- Reads the fraction of a second, in microseconds. -/
def readMicro? (s : String) : Option Nat :=
  readDigits? (String.ofList ((s.toList ++ List.replicate 6 '0').take 6))

/-- Reads a time of day without an offset: hour, minute, second and microsecond. -/
def readClock? (s : String) : Option (Nat × Nat × Nat × Nat) :=
  match s.splitOn ":" with
  | [h, m] => do pure (← readDigits? h, ← readDigits? m, 0, 0)
  | [h, m, rest] =>
    match rest.splitOn "." with
    | [sec] => do pure (← readDigits? h, ← readDigits? m, ← readDigits? sec, 0)
    | [sec, f] => do pure (← readDigits? h, ← readDigits? m, ← readDigits? sec, ← readMicro? f)
    | _ => none
  | _ => none

/-- Reads the written form of a time. -/
def Timestamp.read? (s : String) : Option Timestamp := do
  let cs := s.toList
  let date ← Date.read? (String.ofList (cs.take 10))
  let rest := cs.drop 11
  if rest.isEmpty then return { date := date }
  let isSign := fun c => c == '+' || c == '-' || c == 'Z'
  let clock := rest.takeWhile fun c => !isSign c
  let zone := rest.drop clock.length
  let (hour, minute, second, micro) ← readClock? (String.ofList clock)
  let offset ← match zone with
    | [] => pure none
    | 'Z' :: _ => pure (some 0)
    | sign :: digits => do
      let (h, m, sec, _) ← readClock? (String.ofList digits)
      pure (some (signed (sign == '-') (h * 3600 + m * 60 + sec)))
  pure { date := date, hour := hour, minute := minute, second := second, micro := micro,
         offset := offset }

/-- The whole milliseconds between two instants: the seconds are a binary64 quotient, the product
with a thousand is one too, and the fraction of that is dropped. -/
def elapsedMilliseconds (start stop : Int) : Int :=
  (truncate? (ofQuotient (stop - start) 1000000 * 1000)).getD 0

end WorkflowEngine
