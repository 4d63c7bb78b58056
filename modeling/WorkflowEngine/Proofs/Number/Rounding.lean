import Mathlib.Algebra.Order.Field.Power
import Mathlib.Data.Rat.Cast.Order
import Mathlib.Tactic.FieldSimp
import Mathlib.Tactic.Linarith
import Mathlib.Tactic.Positivity
import Mathlib.Tactic.Ring
import WorkflowEngine.Proofs.Number.Bits

/-!
# Rounding to the nearest number

Every finite number has an interval of quotients around it that are nearer to it than to any other
number, its ends among them if the significand is even (`RoundsTo`). `nearest` gives the number for
every quotient in its interval (`nearest_eq`).
-/

namespace WorkflowEngine.Number

/-! ## Quotients and their parts -/

/-- A quotient taken apart at a power of a base. -/
theorem scale_spec {base num den n d : Nat} {e : Int} (hbase : 0 < base) (hden : 0 < den)
    (h : (if 0 ≤ e then (num, den * Nat.pow base e.toNat)
      else (num * Nat.pow base (-e).toNat, den)) =
      (n, d)) : 0 < d ∧ (n : ℚ) / d * (base : ℚ) ^ e = num / den := by
  have hb : (base : ℚ) ≠ 0 := by positivity
  have hd : (den : ℚ) ≠ 0 := by positivity
  split at h
  · rename_i hpos
    obtain ⟨k, rfl⟩ := Int.eq_ofNat_of_zero_le hpos
    cases h
    refine ⟨Nat.mul_pos hden (Nat.pow_pos hbase), ?_⟩
    rw [zpow_natCast, Int.toNat_natCast, show Nat.pow base k = base ^ k from rfl]
    push_cast
    field_simp
  · rename_i hneg
    obtain ⟨k, hk⟩ := Int.eq_ofNat_of_zero_le (show 0 ≤ -e by omega)
    cases h
    refine ⟨hden, ?_⟩
    rw [show e = -(k : ℤ) by omega, zpow_neg, zpow_natCast, neg_neg, Int.toNat_natCast,
      show Nat.pow base k = base ^ k from rfl]
    push_cast
    field_simp

theorem scaleDown_spec {num den n d : Nat} {e : Int} (hden : 0 < den)
    (h : scaleDown num den e = (n, d)) : 0 < d ∧ (n : ℚ) / d * 2 ^ e = num / den := by
  exact_mod_cast scale_spec (by decide) hden h

/-- Rounding a quotient moves it by a half at most. -/
theorem roundQuotient_near (n : Nat) {d : Nat} (hd : 0 < d) :
    2 * (roundQuotient n d * d) ≤ 2 * n + d ∧ 2 * n ≤ 2 * (roundQuotient n d * d) + d := by
  have hn := Nat.div_add_mod n d
  have hr := Nat.mod_lt n hd
  have hsucc : (n / d + 1) * d = d * (n / d) + d := by ring
  have hself : n / d * d = d * (n / d) := Nat.mul_comm _ _
  unfold roundQuotient
  dsimp only
  split
  · rw [hself]; omega
  · split
    · rw [hsucc]; omega
    · split
      · rw [hself]; omega
      · rw [hsucc]; omega

/-- A quotient within a half of a whole number rounds to it, from exactly a half away if it is
even. -/
theorem roundQuotient_eq {n d k : Nat} (hd : 0 < d) (low : 2 * (k * d) ≤ 2 * n + d)
    (high : 2 * n ≤ 2 * (k * d) + d)
    (even : 2 * (k * d) = 2 * n + d ∨ 2 * n = 2 * (k * d) + d → k % 2 = 0) :
    roundQuotient n d = k := by
  have hn := Nat.div_add_mod n d
  have hr := Nat.mod_lt n hd
  have hself : n / d * d = d * (n / d) := Nat.mul_comm _ _
  have hk : k = n / d ∨ k = n / d + 1 := by
    by_contra hne
    rcases Nat.lt_or_ge k (n / d) with hlt | hge
    · have := Nat.mul_le_mul_right d (show k + 1 ≤ n / d by omega)
      rw [Nat.add_mul, hself] at this
      omega
    · have := Nat.mul_le_mul_right d (show n / d + 2 ≤ k by omega)
      rw [Nat.add_mul, hself] at this
      omega
  unfold roundQuotient
  dsimp only
  rcases hk with rfl | rfl
  · rw [hself] at low high even
    split
    · rfl
    · split
      · omega
      · rw [if_pos (even (by omega))]
  · rw [Nat.add_mul, hself] at low high even
    split
    · omega
    · split
      · rfl
      · rw [if_neg (by have := even (by omega); omega)]

/-- The same of the exact quotient. -/
theorem roundQuotient_of_near {n d k : Nat} (hd : 0 < d) (low : (k : ℚ) - 1 / 2 ≤ n / d)
    (high : (n / d : ℚ) ≤ k + 1 / 2)
    (even : (n / d : ℚ) = k - 1 / 2 ∨ (n / d : ℚ) = k + 1 / 2 → k % 2 = 0) :
    roundQuotient n d = k := by
  have hd' : (0 : ℚ) < d := by exact_mod_cast hd
  rw [le_div_iff₀ hd'] at low
  rw [div_le_iff₀ hd'] at high
  rw [div_eq_iff hd'.ne', div_eq_iff hd'.ne'] at even
  have hlow : (2 * (k * d) : ℚ) ≤ 2 * n + d := by linarith
  have hhigh : (2 * n : ℚ) ≤ 2 * (k * d) + d := by linarith
  refine roundQuotient_eq hd (by exact_mod_cast hlow) (by exact_mod_cast hhigh) fun h => even ?_
  rcases h with h | h
  · have : (2 * (k * d) : ℚ) = 2 * n + d := by exact_mod_cast h
    exact .inl (by linarith)
  · have : (2 * n : ℚ) = 2 * (k * d) + d := by exact_mod_cast h
    exact .inr (by linarith)

/-! ## The exponent of a quotient -/

theorem two_zpow_pos (e : Int) : (0 : ℚ) < 2 ^ e := by positivity

theorem two_zpow_add (a b : Int) : (2 : ℚ) ^ (a + b) = 2 ^ a * 2 ^ b := zpow_add₀ two_ne_zero a b

theorem two_zpow_le {a b : Int} (h : (2 : ℚ) ^ a < 2 ^ b) : a < b :=
  (zpow_lt_zpow_iff_right₀ one_lt_two).1 h

/-- A number lies between the power of two at its logarithm and the next one. -/
theorem log2_bounds {n : Nat} (hn : 0 < n) :
    (2 : ℚ) ^ (n.log2 : Int) ≤ n ∧ (n : ℚ) < 2 ^ ((n.log2 : Int) + 1) := by
  constructor
  · exact_mod_cast Nat.log2_self_le (by omega)
  · exact_mod_cast Nat.lt_log2_self

/-- **The exponent of a quotient is the least with which 53 bits hold its whole part**, but not
below that of the least number. -/
theorem quotientExponent_spec {num den : Nat} (hnum : 0 < num) (hden : 0 < den) :
    -1074 ≤ quotientExponent num den ∧
      (num / den : ℚ) < 2 ^ (quotientExponent num den + 53) ∧
      (-1074 < quotientExponent num den →
        2 ^ (quotientExponent num den + 52) ≤ (num / den : ℚ)) := by
  have hd : (0 : ℚ) < den := by exact_mod_cast hden
  obtain ⟨hnlow, hnhigh⟩ := log2_bounds hnum
  obtain ⟨hdlow, hdhigh⟩ := log2_bounds hden
  obtain ⟨guess, hguess⟩ : ∃ guess : Int, guess = (Nat.log2 num : Int) - Nat.log2 den - 52 :=
    ⟨_, rfl⟩
  have hhigh : (num / den : ℚ) < 2 ^ (guess + 53) := by
    rw [div_lt_iff₀ hd]
    calc (num : ℚ) < 2 ^ ((num.log2 : Int) + 1) := hnhigh
      _ = 2 ^ (guess + 53) * 2 ^ (den.log2 : Int) := by rw [← two_zpow_add]; congr 1; omega
      _ ≤ 2 ^ (guess + 53) * den := mul_le_mul_of_nonneg_left hdlow (two_zpow_pos _).le
  have hlow : 2 ^ (guess + 51) ≤ (num / den : ℚ) := by
    rw [le_div_iff₀ hd]
    calc (2 : ℚ) ^ (guess + 51) * den ≤ 2 ^ (guess + 51) * 2 ^ ((den.log2 : Int) + 1) :=
          mul_le_mul_of_nonneg_left hdhigh.le (two_zpow_pos _).le
      _ = 2 ^ (num.log2 : Int) := by rw [← two_zpow_add]; congr 1; omega
      _ ≤ num := hnlow
  obtain ⟨⟨n, d⟩, hscale⟩ : ∃ s, scaleDown num den guess = s := ⟨_, rfl⟩
  obtain ⟨hd', hvalue⟩ := scaleDown_spec hden hscale
  have hd'' : (0 : ℚ) < d := by exact_mod_cast hd'
  -- with 52 bits only, the exponent is one less
  have hfits : n / d < 2 ^ 52 ↔ (num / den : ℚ) < 2 ^ (guess + 52) := by
    rw [Nat.div_lt_iff_lt_mul hd', ← hvalue, add_comm, two_zpow_add,
      mul_lt_mul_iff_of_pos_right (two_zpow_pos guess), div_lt_iff₀ hd'']
    exact_mod_cast Iff.rfl
  have hexponent : quotientExponent num den =
      max (-1074) (if n / d < 2 ^ 52 then guess - 1 else guess) := by
    unfold quotientExponent
    rw [← hguess]
    dsimp only
    rw [hscale]
    rfl
  obtain ⟨best, hbest, hbhigh, hblow⟩ : ∃ best, quotientExponent num den = max (-1074) best ∧
      (num / den : ℚ) < 2 ^ (best + 53) ∧ 2 ^ (best + 52) ≤ (num / den : ℚ) := by
    by_cases hfit : n / d < 2 ^ 52
    · refine ⟨guess - 1, by rw [hexponent, if_pos hfit], ?_, ?_⟩
      · rw [show guess - 1 + 53 = guess + 52 by ring]
        exact hfits.1 hfit
      · rw [show guess - 1 + 52 = guess + 51 by ring]
        exact hlow
    · exact ⟨guess, by rw [hexponent, if_neg hfit], hhigh, not_lt.1 fun h => hfit (hfits.2 h)⟩
  rw [hbest]
  refine ⟨le_max_left _ _, lt_of_lt_of_le hbhigh ?_, fun h => ?_⟩
  · exact zpow_le_zpow_right₀ one_le_two (by omega)
  · rw [max_eq_right (by omega)]
    exact hblow

/-- A quotient below the reach of an exponent has no higher one. -/
theorem quotientExponent_le {num den : Nat} {e : Int} (hnum : 0 < num) (hden : 0 < den)
    (least : -1074 ≤ e) (h : (num / den : ℚ) < 2 ^ (e + 53)) : quotientExponent num den ≤ e := by
  obtain ⟨_, _, hlow⟩ := quotientExponent_spec hnum hden
  rcases le_or_gt (quotientExponent num den) (-1074) with hmin | hmore
  · exact hmin.trans least
  · have := two_zpow_le ((hlow hmore).trans_lt h)
    omega

/-- A quotient that fills the 53 bits at an exponent has no lower one. -/
theorem le_quotientExponent {num den : Nat} {e : Int} (hnum : 0 < num) (hden : 0 < den)
    (h : 2 ^ (e + 52) ≤ (num / den : ℚ)) : e ≤ quotientExponent num den := by
  obtain ⟨_, hhigh, _⟩ := quotientExponent_spec hnum hden
  have := two_zpow_le (h.trans_lt hhigh)
  omega

/-! ## The interval of a number -/

/-- The lower end of the quotients that round to `m · 2 ^ e`. The gap below a power of two is half
as wide. -/
def lowEnd (m : Nat) (e : Int) : ℚ :=
  m * 2 ^ e - (if m = 2 ^ 52 ∧ -1074 < e then 2 ^ e / 4 else 2 ^ e / 2)

/-- The upper end of the quotients that round to `m · 2 ^ e`. -/
def highEnd (m : Nat) (e : Int) : ℚ := m * 2 ^ e + 2 ^ e / 2

/-- A quotient rounds to `m · 2 ^ e`: it lies between the two ends, and at an end only if the
significand is even. -/
structure RoundsTo (m : Nat) (e : Int) (q : ℚ) : Prop where
  low : lowEnd m e ≤ q
  high : q ≤ highEnd m e
  even : q = lowEnd m e ∨ q = highEnd m e → m % 2 = 0

section

variable {m num den : Nat} {e : Int} {q : ℚ}

theorem half_le_lowEnd (hm : 0 < m) : 2 ^ e / 2 ≤ lowEnd m e := by
  have hp := two_zpow_pos e
  have h1 : (1 : ℚ) ≤ m := by exact_mod_cast hm
  have := mul_le_mul_of_nonneg_right h1 hp.le
  unfold lowEnd
  split <;> linarith

theorem lowEnd_pos (hm : 0 < m) : 0 < lowEnd m e := by
  have hp := two_zpow_pos e
  exact lt_of_lt_of_le (by positivity) (half_le_lowEnd hm)

/-- The lower end of a power of two, at the exponent of the quotients just below it. -/
theorem lowEnd_power (normal : -1074 < e) :
    lowEnd (2 ^ 52) e = (2 ^ 53 - 1 / 2) * 2 ^ (e - 1) := by
  have hpow : (2 : ℚ) ^ e = 2 ^ (e - 1) * 2 := by
    rw [← zpow_add_one₀ two_ne_zero, sub_add_cancel]
  rw [lowEnd, if_pos ⟨rfl, normal⟩, hpow]
  push_cast
  ring

/-- The lower end is half a step below the number, or nearer to it. -/
theorem lowEnd_edge (m : Nat) (e : Int) :
    lowEnd m e = m * 2 ^ e - 2 ^ e / 2 ∨ m * 2 ^ e - 2 ^ e / 2 < lowEnd m e := by
  have hp := two_zpow_pos e
  unfold lowEnd
  split
  · exact .inr (by linarith)
  · exact .inl rfl

/-- The quotients that round to a number are below the next power of two. -/
theorem highEnd_lt (h : Canonical m e) : highEnd m e < 2 ^ (e + 53) := by
  have hp := two_zpow_pos e
  have hm : (m : ℚ) + 1 ≤ 2 ^ 53 := by exact_mod_cast h.short
  have := mul_le_mul_of_nonneg_right hm hp.le
  rw [highEnd, add_comm e, two_zpow_add]
  norm_num at this ⊢
  linarith

/-- Below the power of two at its exponent a quotient rounds only to that power itself. -/
theorem RoundsTo.below (h : RoundsTo m e q) (canonical : Canonical m e) (normal : -1074 < e)
    (hlt : q < 2 ^ (e + 52)) : m = 2 ^ 52 := by
  have hp := two_zpow_pos e
  by_contra hne
  have hm : (2 : ℚ) ^ 52 + 1 ≤ m := by
    have := canonical.full normal
    exact_mod_cast Nat.lt_of_le_of_ne this (Ne.symm hne)
  have hlow := h.low
  have := mul_le_mul_of_nonneg_right hm hp.le
  rw [lowEnd, if_neg (by tauto)] at hlow
  rw [add_comm e, two_zpow_add] at hlt
  norm_num at this hlt
  linarith

/-- Only a quotient above zero rounds to a number above zero. -/
theorem RoundsTo.num_pos (h : RoundsTo m e (num / den)) (hm : 0 < m) : 0 < num := by
  by_contra hzero
  have := h.low.trans_lt' (lowEnd_pos hm)
  rw [show num = 0 by omega] at this
  simp at this

/-- A quotient that rounds to a power of two from just below has the exponent before it. -/
theorem RoundsTo.exponent_below (h : RoundsTo (2 ^ 52) e (num / den)) (hden : 0 < den)
    (normal : -1074 < e) (hlt : (num / den : ℚ) < 2 ^ (e + 52)) :
    quotientExponent num den = e - 1 := by
  have hnum := h.num_pos (by norm_num)
  refine le_antisymm ?_ ?_
  · refine quotientExponent_le hnum hden (by omega) ?_
    rw [show e - 1 + 53 = e + 52 by ring]
    exact hlt
  · refine le_quotientExponent hnum hden (le_trans ?_ h.low)
    rw [lowEnd_power normal, add_comm, two_zpow_add]
    refine mul_le_mul_of_nonneg_right ?_ (two_zpow_pos _).le
    norm_num

/-- Every other quotient has the exponent of the number it rounds to. -/
theorem RoundsTo.exponent_eq (h : RoundsTo m e (num / den)) (canonical : Canonical m e) (hm : 0 < m)
    (hden : 0 < den) (hge : -1074 < e → 2 ^ (e + 52) ≤ (num / den : ℚ)) :
    quotientExponent num den = e := by
  have hnum := h.num_pos hm
  refine le_antisymm ?_ ?_
  · exact quotientExponent_le hnum hden canonical.least (h.high.trans_lt (highEnd_lt canonical))
  · rcases eq_or_lt_of_le canonical.least with hmin | hnormal
    · exact hmin ▸ (quotientExponent_spec hnum hden).1
    · exact le_quotientExponent hnum hden (hge hnormal)

/-- Just below a power of two, rounding at the exponent before it carries over. -/
theorem RoundsTo.round_below {n d : Nat} (hd : 0 < d)
    (h : RoundsTo (2 ^ 52) e (n / d * 2 ^ (e - 1))) (normal : -1074 < e)
    (hlt : (n / d * 2 ^ (e - 1) : ℚ) < 2 ^ (e + 52)) : roundQuotient n d = 2 ^ 53 := by
  have hp := two_zpow_pos (e - 1)
  refine roundQuotient_of_near hd ?_ ?_ fun _ => rfl
  · have hlow := h.low
    rw [lowEnd_power normal] at hlow
    have := le_of_mul_le_mul_right hlow hp
    push_cast
    exact this
  · rw [show e + 52 = 53 + (e - 1) by ring, two_zpow_add] at hlt
    have := (lt_of_mul_lt_mul_right hlt hp.le).le
    push_cast
    norm_num at this ⊢
    linarith

/-- At the exponent of the number, a quotient rounds to its significand. -/
theorem RoundsTo.round {n d : Nat} (hd : 0 < d) (h : RoundsTo m e (n / d * 2 ^ e)) :
    roundQuotient n d = m := by
  have hp := two_zpow_pos e
  have hedge := lowEnd_edge m e
  have hlow := h.low
  have hhigh := h.high
  refine roundQuotient_of_near hd ?_ ?_ fun hhalf => h.even ?_
  · refine le_of_mul_le_mul_right ?_ hp
    rcases hedge with hedge | hedge <;> linarith
  · refine le_of_mul_le_mul_right ?_ hp
    rw [highEnd] at hhigh
    linarith
  · rcases hhalf with hhalf | hhalf
    · have hvalue : (n / d : ℚ) * 2 ^ e = m * 2 ^ e - 2 ^ e / 2 := by rw [hhalf]; ring
      rcases hedge with hedge | hedge
      · exact .inl (hvalue.trans hedge.symm)
      · linarith
    · exact .inr (by rw [hhalf, highEnd]; ring)

/-- The bits of what a quotient rounds to, at its own exponent. -/
theorem nearestBits_of_round {n d k : Nat} (hnum : 0 < num)
    (hscale : scaleDown num den (quotientExponent num den) = (n, d))
    (hround : roundQuotient n d = k) :
    nearestBits num den =
      let (k, e) := if k = 2 ^ 53 then (2 ^ 52, quotientExponent num den + 1)
        else (k, quotientExponent num den)
      if 971 < e then 2047 * 2 ^ 52 else finiteBits k e := by
  unfold nearestBits
  rw [if_neg (by omega)]
  dsimp only
  rw [hscale]
  dsimp only
  rw [hround]
  rfl

/-- **Every quotient that rounds to a finite number is nearest to it.** -/
theorem nearestBits_eq (canonical : Canonical m e) (hm : 0 < m) (hden : 0 < den)
    (h : RoundsTo m e (num / den)) : nearestBits num den = finiteBits m e := by
  have hnum := h.num_pos hm
  have hshort := canonical.short
  have hgreatest := canonical.greatest
  obtain ⟨⟨n, d⟩, hscale⟩ : ∃ s, scaleDown num den (quotientExponent num den) = s := ⟨_, rfl⟩
  obtain ⟨hd, hvalue⟩ := scaleDown_spec hden hscale
  by_cases hbelow : -1074 < e ∧ (num / den : ℚ) < 2 ^ (e + 52)
  · -- just below a power of two the exponent is one less, and rounding carries over
    obtain ⟨hnormal, hlt⟩ := hbelow
    have hm' := h.below canonical hnormal hlt
    subst hm'
    have hexponent := h.exponent_below hden hnormal hlt
    rw [hexponent] at hvalue
    rw [← hvalue] at h hlt
    rw [nearestBits_of_round hnum hscale (h.round_below hd hnormal hlt), if_pos rfl, hexponent]
    dsimp only
    rw [sub_add_cancel, if_neg (by omega)]
  · have hexponent := h.exponent_eq canonical hm hden fun hnormal =>
      not_lt.1 fun hlt => hbelow ⟨hnormal, hlt⟩
    rw [hexponent] at hvalue
    rw [← hvalue] at h
    rw [nearestBits_of_round hnum hscale (h.round hd), if_neg (by omega), hexponent]
    dsimp only
    rw [if_neg (by omega)]

variable {x : Float} {negative : Bool}

/-- The bits of a finite number give it back, however they are come by. -/
theorem nearest_of_bits (h : decode x = .finite negative m e)
    (hbits : nearestBits num den = finiteBits m e) : nearest negative num den = x := by
  obtain ⟨_, htotal⟩ := toBits_of_decode h
  have hword : UInt64.ofNat (finiteBits m e + signBit negative) = x.toBits := by
    rw [← htotal, UInt64.ofNat_toNat]
  rw [← ofBits_toBits x, ← hword, ← hbits]
  rfl

/-- **A finite number is the nearest to every quotient that rounds to it.** -/
theorem nearest_eq (h : decode x = .finite negative m e) (hm : 0 < m) (hden : 0 < den)
    (hround : RoundsTo m e (num / den)) : nearest negative num den = x :=
  nearest_of_bits h (nearestBits_eq (toBits_of_decode h).1 hm hden hround)

/-- A zero is nearest to zero. -/
theorem nearest_zero (h : decode x = .finite negative 0 e) (den : Nat) :
    nearest negative 0 den = x :=
  nearest_of_bits h rfl

end

end WorkflowEngine.Number
