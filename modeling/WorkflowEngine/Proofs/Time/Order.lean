import Mathlib.Data.String.Basic
import WorkflowEngine.Proofs.Number.Digits
import WorkflowEngine.Time.Calendar

/-!
# The order of written instants

Of two instants in years of four digits the earlier one is written with the smaller text
(`isoText_le_iff`), also where one of them has no fraction of a second: the sign that then stands in
its place comes before the point. The calendar keeps the order since days are counted in years that
begin with March, so that the day that a leap year has more is the last of its year (`Falls`).
-/

namespace WorkflowEngine

open Number

/-! ## Days -/

/-- The days of an era of four hundred years before one of its years. -/
def yearStart (year : Nat) : Nat := 365 * year + year / 4 - year / 100 + year / 400

/-- The days of a year before one of its months, both beginning with March. -/
def monthStart (month : Nat) : Nat := (153 * month + 2) / 5

/-- The year in which a day of an era lies. -/
def yearAt (day : Nat) : Nat := (day - day / 1460 + day / 36524 - day / 146096) / 365

theorem yearStart_mono {a b : Nat} (h : a ≤ b) : yearStart a ≤ yearStart b := by
  refine monotone_nat_of_le_succ (fun year => ?_) h
  unfold yearStart
  omega

theorem monthStart_mono {a b : Nat} (h : a ≤ b) : monthStart a ≤ monthStart b := by
  unfold monthStart
  omega

theorem yearAt_mono {a b : Nat} (hab : a ≤ b) (hb : b < 146097) : yearAt a ≤ yearAt b := by
  refine Nat.div_le_div_right ?_
  by_cases hlast : b = 146096
  · subst hlast
    omega
  · rw [Nat.div_eq_of_lt (show b < 146096 by omega), Nat.div_eq_of_lt (show a < 146096 by omega)]
    omega

/-- The first and the last day of a year lie in it, and are at most 365 days apart. -/
theorem yearAt_ends : ∀ year < 400, yearAt (yearStart year) = year ∧
    yearAt (yearStart (year + 1) - 1) = year ∧ yearStart (year + 1) ≤ yearStart year + 366 := by
  decide +kernel

/-- A day of an era lies between the first and the last day of its year. -/
theorem yearAt_bounds {day : Nat} (h : day < 146097) :
    yearAt day < 400 ∧ yearStart (yearAt day) ≤ day ∧ day < yearStart (yearAt day + 1) := by
  have hera : yearStart 400 = 146097 := rfl
  have hlast : yearAt day ≤ yearAt 146096 := yearAt_mono (by omega) (by omega)
  have hyear : yearAt day < 400 := Nat.lt_of_le_of_lt hlast (by decide)
  refine ⟨hyear, ?_, ?_⟩
  · by_contra hbefore
    -- then the day lies no later than the last one of the year before
    cases hy : yearAt day with
    | zero =>
      rw [hy] at hbefore
      exact hbefore (Nat.zero_le _)
    | succ year =>
      rw [hy] at hbefore hyear
      have hstart := yearStart_mono (Nat.le_of_lt hyear)
      have hmono := yearAt_mono (show day ≤ yearStart (year + 1) - 1 by omega) (by omega)
      rw [(yearAt_ends year (by omega)).2.1, hy] at hmono
      exact absurd hmono (Nat.not_succ_le_self year)
  · by_contra hbehind
    -- then it lies no earlier than the first one of the year after
    have hnext : yearAt day + 1 < 400 := by
      by_contra hlast
      rw [show yearAt day + 1 = 400 by omega] at hbehind
      omega
    have hmono := yearAt_mono (Nat.not_lt.1 hbehind) h
    rw [(yearAt_ends _ hnext).1] at hmono
    exact absurd hmono (Nat.not_succ_le_self _)

/-- A day, counted from a first of March with which an era began, falls into a year of an era and a
month of it, a number of days behind the first of the month. -/
structure Falls (z era : Int) (year month day : Nat) : Prop where
  year_lt : year < 400
  eq : z = 146097 * era + (yearStart year + monthStart month + day : Nat)
  inMonth : monthStart month + day < monthStart (month + 1)
  inYear : yearStart year + monthStart month + day < yearStart (year + 1)

/-- **Every day falls somewhere, and its date says where**: the first two months of a year are the last
two of the one that began in March. -/
theorem Date.ofDays_falls (days : Int) : ∃ (era : Int) (year month day : Nat),
    Falls (days + 719468) era year month day ∧ month < 12 ∧
      Date.ofDays days = ⟨(400 * era + year + if month < 10 then 0 else 1).toNat,
        if month < 10 then month + 3 else month - 9, day + 1⟩ := by
  have hera : ((days + 719468) % 146097).toNat < 146097 := by omega
  generalize hdoe : ((days + 719468) % 146097).toNat = doe at hera
  obtain ⟨hyear, hstart, hend⟩ := yearAt_bounds hera
  have hold : yearStart (yearAt doe) = 365 * yearAt doe + yearAt doe / 4 - yearAt doe / 100 := by
    rw [yearStart, Nat.div_eq_of_lt hyear, Nat.add_zero]
  have hlength := (yearAt_ends _ hyear).2.2
  generalize hdoy : doe - yearStart (yearAt doe) = doy
  have hmonth : monthStart ((5 * doy + 2) / 153) ≤ doy ∧
      doy < monthStart ((5 * doy + 2) / 153 + 1) := by
    unfold monthStart
    omega
  have htwelve : (5 * doy + 2) / 153 < 12 := by omega
  refine ⟨(days + 719468) / 146097, yearAt doe, (5 * doy + 2) / 153,
    doy - monthStart ((5 * doy + 2) / 153), ⟨hyear, by omega, by omega, by omega⟩, htwelve, ?_⟩
  have hmade : Date.ofDays days =
      let mp := (5 * (doe - (365 * yearAt doe + yearAt doe / 4 - yearAt doe / 100)) + 2) / 153
      let month := if mp < 10 then mp + 3 else mp - 9
      ⟨((days + 719468) / 146097 * 400 + yearAt doe + if month ≤ 2 then 1 else 0).toNat, month,
        doe - (365 * yearAt doe + yearAt doe / 4 - yearAt doe / 100) - (153 * mp + 2) / 5 + 1⟩ := by
    rw [← hdoe]
    rfl
  rw [hmade, ← hold, hdoy]
  dsimp only
  generalize (5 * doy + 2) / 153 = month at htwelve
  have hwrap : ((if month < 10 then month + 3 else month - 9) ≤ 2) ↔ ¬ month < 10 := by
    split <;> omega
  rw [monthStart, Int.mul_comm 400]
  simp only [hwrap, ite_not]

/-- **A later day falls into a later year, into a later month of one year or behind in one month.** -/
theorem Falls.lt {z z' era era' : Int} {year year' month month' day day' : Nat}
    (h : Falls z era year month day) (h' : Falls z' era' year' month' day') (hlt : z < z') :
    400 * era + year < 400 * era' + year' ∨ 400 * era + year = 400 * era' + year' ∧
      (month < month' ∨ month = month' ∧ day < day') := by
  have hera : yearStart 400 = 146097 := rfl
  have hend := yearStart_mono (show year + 1 ≤ 400 from h.year_lt)
  have hend' := yearStart_mono (show year' + 1 ≤ 400 from h'.year_lt)
  obtain ⟨hyear, heq, hmonth, hday⟩ := h
  obtain ⟨hyear', heq', hmonth', hday'⟩ := h'
  rcases Int.lt_trichotomy era era' with hlower | rfl | hhigher
  · exact .inl (by omega)
  · rcases Nat.lt_trichotomy year year' with hlower | rfl | hhigher
    · exact .inl (by omega)
    · refine .inr ⟨rfl, ?_⟩
      rcases Nat.lt_trichotomy month month' with hlower | rfl | hhigher
      · exact .inl hlower
      · exact .inr ⟨rfl, by omega⟩
      · have := monthStart_mono (show month' + 1 ≤ month from hhigher)
        omega
    · have := yearStart_mono (show year' + 1 ≤ year from hhigher)
      omega
  · omega

/-- Months and days are written with two digits. -/
theorem Date.ofDays_short (days : Int) :
    (Date.ofDays days).month < 10 ^ 2 ∧ (Date.ofDays days).day < 10 ^ 2 := by
  obtain ⟨era, year, month, day, hfalls, hmonth, hdate⟩ := Date.ofDays_falls days
  have hday := hfalls.inMonth
  unfold monthStart at hday
  rw [hdate]
  refine ⟨?_, by dsimp only; omega⟩
  dsimp only
  split <;> omega

/-- **A later day has a later date.** -/
theorem Date.ofDays_lt {days days' : Int} (h : days < days') (hyear : 1 ≤ (Date.ofDays days).year) :
    (Date.ofDays days).year < (Date.ofDays days').year ∨
      (Date.ofDays days).year = (Date.ofDays days').year ∧
        ((Date.ofDays days).month < (Date.ofDays days').month ∨
          (Date.ofDays days).month = (Date.ofDays days').month ∧
            (Date.ofDays days).day < (Date.ofDays days').day) := by
  obtain ⟨era, year, month, day, hfalls, hmonth, hdate⟩ := Date.ofDays_falls days
  obtain ⟨era', year', month', day', hfalls', hmonth', hdate'⟩ := Date.ofDays_falls days'
  have hlt := hfalls.lt hfalls' (by omega)
  rw [hdate] at hyear ⊢
  rw [hdate']
  dsimp only at hyear ⊢
  split at hyear
  · rename_i hlow
    rw [if_pos hlow, if_pos hlow]
    split <;> omega
  · rename_i hhigh
    rw [if_neg hhigh, if_neg hhigh]
    split <;> omega

/-! ## Texts of one width -/

/-- Digits of one number are written before as many digits of a larger one, whatever follows them. -/
theorem digitChars_lt {ds es : List Nat} {r r' : List Char} (hlength : ds.length = es.length)
    (hds : ∀ d ∈ ds, d < 10) (hes : ∀ e ∈ es, e < 10)
    (h : ofDigits ds < ofDigits es ∨ ofDigits ds = ofDigits es ∧ r < r') :
    ds.map digitChar ++ r < es.map digitChar ++ r' := by
  induction ds generalizing es with
  | nil =>
    cases es with
    | nil => simpa [ofDigits] using h
    | cons e es => cases hlength
  | cons d ds ih =>
    cases es with
    | nil => cases hlength
    | cons e es =>
      obtain ⟨hd, htail⟩ := List.forall_mem_cons.1 hds
      obtain ⟨he, htail'⟩ := List.forall_mem_cons.1 hes
      have hsame : ds.length = es.length := Nat.succ.inj hlength
      have hrest := ofDigits_lt htail
      have hrest' := ofDigits_lt htail'
      rw [hsame] at hrest
      rw [← List.singleton_append, ← List.singleton_append (l := es), ofDigits_append,
        ofDigits_append, hsame, show ofDigits [d] = d from Nat.zero_add d,
        show ofDigits [e] = e from Nat.zero_add e] at h
      simp only [List.map_cons, List.cons_append, List.cons_lt_cons_iff]
      generalize 10 ^ es.length = unit at h hrest hrest'
      rcases Nat.lt_trichotomy d e with hlower | rfl | hhigher
      · refine .inl (Char.lt_def.2 ?_)
        have hchars : ∀ e < 10, ∀ d < e, (digitChar d).val < (digitChar e).val := by decide
        exact hchars e he d hlower
      · refine .inr ⟨rfl, ih hsame htail htail' ?_⟩
        exact h.imp Nat.lt_of_add_lt_add_left (And.imp_left Nat.add_left_cancel)
      · have := Nat.mul_le_mul_right unit (show e + 1 ≤ d from hhigher)
        rw [Nat.add_mul] at this
        omega

theorem padded_toList (width n : Nat) : (padded width n).toList =
    (List.replicate (width - (digitsOf n).length) 0 ++ digitsOf n).map digitChar := by
  have hlength : (natText n).length = (digitsOf n).length := by
    rw [natText, String.length_ofList, List.length_map]
  have hzero : digitChar 0 = '0' := rfl
  rw [padded, hlength, String.toList_append, String.toList_ofList, natText, String.toList_ofList,
    List.map_append, List.map_replicate, hzero]

/-- What is filled up to a width can be told apart. -/
theorem padded_injective {width a b : Nat} (h : padded width a = padded width b) : a = b := by
  have hread : ∀ n, ofDigits ((padded width n).toList.map fun c => c.toNat - 48) = n := by
    intro n
    have hdigit : ∀ d < 10, (digitChar d).toNat - 48 = d := by decide
    have hdigits : ((digitsOf n).map digitChar).map (fun c => c.toNat - 48) = digitsOf n := by
      rw [List.map_map]
      exact (List.map_congr_left fun d hd => hdigit d (digitsOf_digit n d hd)).trans
        (List.map_id _)
    have hzero : (digitChar 0).toNat - 48 = 0 := by decide
    rw [padded_toList, List.map_append, List.map_append, hdigits, List.map_replicate,
      List.map_replicate, hzero, ofDigits_append, ofDigits_zeros, Nat.zero_mul, Nat.zero_add,
      ofDigits_digitsOf]
  rw [← hread a, ← hread b, h]

/-- **Numbers that are filled up to one width are written in their order**, whatever follows them. -/
theorem padded_lt {width a b : Nat} {r r' : List Char} (hwidth : 0 < width) (ha : a < 10 ^ width)
    (hb : b < 10 ^ width) (h : a < b ∨ a = b ∧ r < r') :
    (padded width a).toList ++ r < (padded width b).toList ++ r' := by
  have hlength : ∀ n < 10 ^ width,
      (List.replicate (width - (digitsOf n).length) 0 ++ digitsOf n).length = width := by
    intro n hn
    have := digitsOf_length_le hn hwidth
    simp only [List.length_append, List.length_replicate]
    omega
  have hdigit : ∀ n, ∀ d ∈ List.replicate (width - (digitsOf n).length) 0 ++ digitsOf n, d < 10 := by
    intro n d hd
    rcases List.mem_append.1 hd with hd | hd
    · rw [List.eq_of_mem_replicate hd]
      decide
    · exact digitsOf_digit n d hd
  have hvalue : ∀ n, ofDigits (List.replicate (width - (digitsOf n).length) 0 ++ digitsOf n) = n := by
    intro n
    rw [ofDigits_append, ofDigits_zeros, Nat.zero_mul, Nat.zero_add, ofDigits_digitsOf]
  rw [padded_toList, padded_toList]
  refine digitChars_lt ((hlength a ha).trans (hlength b hb).symm) (hdigit a) (hdigit b) ?_
  rwa [hvalue, hvalue]

/-! ## Written instants -/

/-- Of two days in years of four digits the earlier one is written before the later one, whatever
follows them. -/
theorem Date.iso_lt {days days' : Int} {r r' : List Char} (hyear : 1 ≤ (Date.ofDays days).year)
    (hyear' : (Date.ofDays days').year ≤ 9999) (h : days < days' ∨ days = days' ∧ r < r') :
    (Date.ofDays days).iso.toList ++ r < (Date.ofDays days').iso.toList ++ r' := by
  rcases h with h | ⟨rfl, h⟩
  · have hlt := Date.ofDays_lt h hyear
    obtain ⟨hmonth, hday⟩ := Date.ofDays_short days
    obtain ⟨hmonth', hday'⟩ := Date.ofDays_short days'
    have hdash : "-".toList = ['-'] := rfl
    simp only [Date.iso, String.toList_append, hdash, List.append_assoc, List.cons_append,
      List.nil_append]
    refine padded_lt (by decide) (by omega) (by omega) (hlt.imp_right fun hlt => ⟨hlt.1, ?_⟩)
    rw [List.cons_lt_cons_self]
    refine padded_lt (by decide) hmonth hmonth' (hlt.2.imp_right fun hlt => ⟨hlt.1, ?_⟩)
    rw [List.cons_lt_cons_self]
    exact padded_lt (by decide) hday hday' (.inl hlt.2)
  · exact List.append_left_lt h

/-- Seconds of a day as they are written. -/
def clockChars (seconds : Nat) : List Char :=
  (padded 2 (seconds / 3600)).toList ++ ':' :: ((padded 2 (seconds / 60 % 60)).toList ++ ':' ::
    (padded 2 (seconds % 60)).toList)

theorem clockChars_lt {s s' : Nat} {r r' : List Char} (hs : s < 86400) (hs' : s' < 86400)
    (h : s < s' ∨ s = s' ∧ r < r') : clockChars s ++ r < clockChars s' ++ r' := by
  rcases h with h | ⟨rfl, h⟩
  · simp only [clockChars, List.append_assoc, List.cons_append]
    refine padded_lt (by decide) (by omega) (by omega) ?_
    rw [List.cons_lt_cons_self]
    by_cases hhour : s / 3600 < s' / 3600
    · exact .inl hhour
    refine .inr ⟨by omega, padded_lt (by decide) (by omega) (by omega) ?_⟩
    rw [List.cons_lt_cons_self]
    by_cases hminute : s / 60 % 60 < s' / 60 % 60
    · exact .inl hminute
    exact .inr ⟨by omega, padded_lt (by decide) (by omega) (by omega) (.inl (by omega))⟩
  · exact List.append_left_lt h

/-- What is written of the microseconds of a second, and behind them. -/
def secondsEnd (micro : Nat) : List Char :=
  (if micro = 0 then [] else '.' :: (padded 6 micro).toList) ++ "+00:00".toList

/-- A second without a fraction is written before the same second with one. -/
theorem secondsEnd_lt {m m' : Nat} (hlt : m < m') (hm' : m' < 10 ^ 6) :
    secondsEnd m < secondsEnd m' := by
  rw [secondsEnd, secondsEnd, if_neg (show m' ≠ 0 by omega)]
  by_cases hzero : m = 0
  · rw [if_pos hzero]
    exact List.cons_lt_cons_iff.2 (.inl (by decide))
  · rw [if_neg hzero]
    exact List.cons_lt_cons_self.2 (padded_lt (by decide) (by omega) hm' (.inl hlt))

theorem isoText_toList (t : Int) : (isoText t).toList =
    (Date.ofDays (t / 1000000 / 86400)).iso.toList ++ 'T' ::
      (clockChars (t / 1000000 % 86400).toNat ++ secondsEnd (t % 1000000).toNat) := by
  have hzone : offsetText 0 = "+00:00" := by decide +kernel
  rw [isoText, Timestamp.iso, Timestamp.isoWith, Timestamp.ofInstant, clockChars, secondsEnd]
  dsimp only
  rw [hzone]
  split
  · simp
  · simp

/-- Whether an instant lies in a year that is written with four digits. -/
def FourDigitYear (t : Instant) : Prop :=
  1 ≤ (Timestamp.ofInstant t).date.year ∧ (Timestamp.ofInstant t).date.year ≤ 9999

instance (t : Instant) : Decidable (FourDigitYear t) := inferInstanceAs (Decidable (_ ∧ _))

/-- **An earlier instant is written with a smaller text.** -/
theorem isoText_lt {t t' : Int} (h : t < t') (dated : FourDigitYear t)
    (dated' : FourDigitYear t') : isoText t < isoText t' := by
  rw [String.lt_iff_toList_lt, isoText_toList, isoText_toList]
  refine Date.iso_lt dated.1 dated'.2 ?_
  rw [List.cons_lt_cons_self]
  by_cases hday : t / 1000000 / 86400 < t' / 1000000 / 86400
  · exact .inl hday
  refine .inr ⟨by omega, clockChars_lt (by omega) (by omega) ?_⟩
  by_cases hsecond : (t / 1000000 % 86400).toNat < (t' / 1000000 % 86400).toNat
  · exact .inl hsecond
  exact .inr ⟨by omega, secondsEnd_lt (by omega) (by omega)⟩

/-- **Written instants have the order of the instants.** -/
theorem isoText_le_iff {t t' : Int} (dated : FourDigitYear t) (dated' : FourDigitYear t') :
    isoText t ≤ isoText t' ↔ t ≤ t' := by
  rcases Int.lt_trichotomy t t' with h | rfl | h
  · exact iff_of_true (le_of_lt (isoText_lt h dated dated')) (Int.le_of_lt h)
  · exact iff_of_true le_rfl (Int.le_refl _)
  · exact iff_of_false (not_le_of_gt (isoText_lt h dated' dated)) (Int.not_le.2 h)

end WorkflowEngine
