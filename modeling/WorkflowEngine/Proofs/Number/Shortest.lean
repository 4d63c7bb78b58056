import WorkflowEngine.Proofs.Number.Digits
import WorkflowEngine.Proofs.Number.Rounding

/-!
# Shortest digits read back

The digits that are shown of a positive number write a quotient that rounds to it
(`shortest_roundsTo`). As long as fewer than seventeen are tried, that is what is tried for; and the
nearest seventeen are close enough to round to any number.
-/

namespace WorkflowEngine.Number

theorem scaleDecimal_spec {num den n d : Nat} {e : Int} (hden : 0 < den)
    (h : scaleDecimal num den e = (n, d)) : 0 < d ∧ (n : ℚ) / d * 10 ^ e = num / den := by
  exact_mod_cast scale_spec (by decide) hden h

/-! ## The quotient that digits write -/

/-- The quotient that digits write. -/
def Digits.value (ds : Digits) : ℚ := ofDigits ds.digits * 10 ^ (ds.point - ds.digits.length)

/-- Digits below ten, of which the first is not zero. -/
structure Digits.Proper (ds : Digits) : Prop where
  digit : ∀ d ∈ ds.digits, d < 10
  head : ∃ d rest, ds.digits = d :: rest ∧ d ≠ 0

theorem ofMultiple_value (n : Nat) (e : Int) : (Digits.ofMultiple n e).value = n * 10 ^ e := by
  obtain ⟨k, hk⟩ := dropTrailingZeros_append (digitsOf n)
  have hn := ofDigits_digitsOf n
  rw [hk, ofDigits_append, ofDigits_zeros, List.length_replicate, Nat.add_zero] at hn
  have hlength := congrArg List.length hk
  rw [List.length_append, List.length_replicate] at hlength
  have hvalue : (n : ℚ) = ofDigits (dropTrailingZeros (digitsOf n)) * 10 ^ k := by
    exact_mod_cast hn.symm
  unfold Digits.value Digits.ofMultiple
  dsimp only
  rw [hlength, Nat.cast_add, show ((dropTrailingZeros (digitsOf n)).length + k : ℤ) + e -
    (dropTrailingZeros (digitsOf n)).length = k + e by ring, zpow_add₀ (by norm_num), zpow_natCast,
    ← mul_assoc, ← hvalue]

theorem ofMultiple_proper {n : Nat} (hn : 0 < n) (e : Int) : (Digits.ofMultiple n e).Proper := by
  obtain ⟨k, hk⟩ := dropTrailingZeros_append (digitsOf n)
  obtain ⟨d, ds, hds, hd⟩ := digitsOf_head hn
  constructor
  · intro d' hd'
    refine digitsOf_digit n d' ?_
    rw [hk]
    exact List.mem_append_left _ hd'
  · rw [hds] at hk
    change ∃ d rest, dropTrailingZeros (digitsOf n) = d :: rest ∧ d ≠ 0
    rw [hds]
    cases hdrop : dropTrailingZeros (d :: ds) with
    | nil =>
      -- the first digit is no zero, so it is not dropped
      rw [hdrop, List.nil_append] at hk
      have hmem : d ∈ List.replicate k 0 := hk ▸ List.mem_cons_self
      exact absurd (List.eq_of_mem_replicate hmem) hd
    | cons d' rest =>
      rw [hdrop] at hk
      exact ⟨d', rest, rfl, (List.cons.inj hk).1 ▸ hd⟩

/-! ## The interval -/

/-- The interval of a number has its ends, and the number in it. -/
structure Interval.Of (i : Interval) (m : Nat) (e : Int) : Prop where
  den : 0 < i.den
  value : (i.value : ℚ) / i.den = m * 2 ^ e
  low : (i.low : ℚ) / i.den = lowEnd m e
  high : (i.high : ℚ) / i.den = highEnd m e
  closed : i.closed = (m % 2 == 0)

/-- A quarter of a unit in the last place, as a quotient. -/
theorem quarter_spec (e : Int) : ∃ unit den : Nat, 0 < den ∧ (unit : ℚ) = 2 ^ e / 4 * den ∧
    (if 0 ≤ e then (4 * Nat.pow 2 e.toNat, 4) else (4, 4 * Nat.pow 2 (-e).toNat)) =
      (4 * unit, den) := by
  split
  · rename_i hpos
    obtain ⟨k, rfl⟩ := Int.eq_ofNat_of_zero_le hpos
    refine ⟨2 ^ k, 4, by decide, ?_, rfl⟩
    rw [zpow_natCast]
    push_cast
    ring
  · rename_i hneg
    obtain ⟨k, hk⟩ := Int.eq_ofNat_of_zero_le (show 0 ≤ -e by omega)
    refine ⟨1, 4 * 2 ^ k, by positivity, ?_, by rw [hk]; rfl⟩
    rw [show e = -(k : ℤ) by omega, zpow_neg, zpow_natCast]
    push_cast
    field_simp

theorem intervalOf_of {m : Nat} (hm : 0 < m) (e : Int) : (intervalOf m e).Of m e := by
  obtain ⟨unit, den, hden, hunit, hscale⟩ := quarter_spec e
  have hd : (den : ℚ) ≠ 0 := by positivity
  have hwhole : 4 * unit ≤ m * (4 * unit) := Nat.le_mul_of_pos_left _ hm
  unfold intervalOf
  rw [hscale]
  dsimp only
  rw [Nat.mul_div_cancel_left unit (by decide)]
  refine ⟨hden, ?_, ?_, ?_, rfl⟩
  · push_cast
    rw [hunit]
    field_simp
  · unfold lowEnd
    rw [show Nat.pow 2 52 = 2 ^ 52 from rfl]
    split
    · rw [Nat.cast_sub (by omega)]
      push_cast
      rw [hunit]
      field_simp
    · rw [Nat.cast_sub (by omega)]
      push_cast
      rw [hunit]
      field_simp
      ring
  · unfold highEnd
    push_cast
    rw [hunit]
    field_simp
    ring

variable {i : Interval} {m n : Nat} {e k : Int}

/-- What an interval holds rounds to its number. -/
theorem Interval.Of.roundsTo (h : i.Of m e) (hholds : i.holds n k = true) :
    RoundsTo m e (n * 10 ^ k) := by
  obtain ⟨⟨num, d⟩, hscale⟩ : ∃ s, scaleDecimal (n * i.den) 1 (-k) = s := ⟨_, rfl⟩
  obtain ⟨hd, hvalue⟩ := scaleDecimal_spec (by decide) hscale
  have hd' : (0 : ℚ) < d := by exact_mod_cast hd
  have hden : (0 : ℚ) < i.den := by exact_mod_cast h.den
  have hq : (n * 10 ^ k : ℚ) * (i.den * d) = num := by
    rw [zpow_neg] at hvalue
    have h10 : (10 : ℚ) ^ k ≠ 0 := by positivity
    field_simp at hvalue
    push_cast at hvalue
    linarith
  unfold Interval.holds at hholds
  rw [hscale] at hholds
  dsimp only at hholds
  have hlow : lowEnd m e * (i.den * d) = (i.low * d : Nat) := by
    rw [← h.low]
    push_cast
    field_simp
  have hhigh : highEnd m e * (i.den * d) = (i.high * d : Nat) := by
    rw [← h.high]
    push_cast
    field_simp
  have hpos : (0 : ℚ) < i.den * d := by positivity
  cases hclosed : i.closed with
  | true =>
    rw [hclosed, if_pos rfl, Bool.and_eq_true, decide_eq_true_eq, decide_eq_true_eq] at hholds
    refine ⟨le_of_mul_le_mul_right ?_ hpos, le_of_mul_le_mul_right ?_ hpos, fun _ => ?_⟩
    · rw [hlow, hq]
      exact_mod_cast hholds.1
    · rw [hhigh, hq]
      exact_mod_cast hholds.2
    · exact eq_of_beq (h.closed.symm.trans hclosed)
  | false =>
    rw [hclosed, if_neg (by simp), Bool.and_eq_true, decide_eq_true_eq, decide_eq_true_eq] at hholds
    have hstrictLow : lowEnd m e < n * 10 ^ k := by
      refine lt_of_mul_lt_mul_right ?_ hpos.le
      rw [hlow, hq]
      exact_mod_cast hholds.1
    have hstrictHigh : n * 10 ^ k < highEnd m e := by
      refine lt_of_mul_lt_mul_right ?_ hpos.le
      rw [hhigh, hq]
      exact_mod_cast hholds.2
    exact ⟨hstrictLow.le, hstrictHigh.le, fun h => h.elim
      (fun h => absurd h hstrictLow.ne') (fun h => absurd h hstrictHigh.ne)⟩

theorem Interval.holds_of_pick {i : Interval} (h : i.pick? k = some n) : i.holds n k = true := by
  unfold Interval.pick? at h
  obtain ⟨⟨num, d⟩, hscale⟩ : ∃ s, scaleDecimal i.value i.den k = s := ⟨_, rfl⟩
  rw [hscale] at h
  dsimp only at h
  have hround : roundQuotient num d = num / d ∨ roundQuotient num d = num / d + 1 := by
    unfold roundQuotient
    dsimp only
    split
    · exact .inl rfl
    · split
      · exact .inr rfl
      · split
        · exact .inl rfl
        · exact .inr rfl
  split at h
  · rename_i hlow hhigh
    cases h
    rcases hround with hround | hround <;> rw [hround]
    · exact hlow
    · exact hhigh
  · rename_i hlow _
    cases h
    exact hlow
  · rename_i _ hhigh
    cases h
    exact hhigh
  · cases h

/-! ## Seventeen digits -/

/-- The place of the point is not above the first digit. -/
theorem pointBelow_spec {num den : Nat} (hden : 0 < den) : ∀ (steps : Nat) (e : Int),
    (10 : ℚ) ^ (e - steps - 1) ≤ num / den →
      (10 : ℚ) ^ (pointBelow num den steps e - 1) ≤ num / den := by
  intro steps
  induction steps with
  | zero =>
    intro e h
    simpa [pointBelow] using h
  | succ steps ih =>
    intro e h
    unfold pointBelow
    obtain ⟨⟨n, d⟩, hscale⟩ : ∃ s, scaleDecimal num den (e - 1) = s := ⟨_, rfl⟩
    obtain ⟨hd, hvalue⟩ := scaleDecimal_spec hden hscale
    have hd' : (0 : ℚ) < d := by exact_mod_cast hd
    rw [hscale]
    dsimp only
    split
    · refine ih (e - 1) ?_
      rwa [show e - 1 - (steps : Int) - 1 = e - ((steps + 1 : Nat) : Int) - 1 by push_cast; ring]
    · rename_i hge
      rw [← hvalue]
      have h1 : (1 : ℚ) ≤ n / d := by
        rw [le_div_iff₀ hd', one_mul]
        exact_mod_cast not_lt.1 hge
      calc (10 : ℚ) ^ (e - 1) = 1 * 10 ^ (e - 1) := (one_mul _).symm
        _ ≤ n / d * 10 ^ (e - 1) := mul_le_mul_of_nonneg_right h1 (by positivity)

theorem pointOf_spec {num den : Nat} (hnum : 0 < num) (hden : 0 < den) :
    (10 : ℚ) ^ (pointOf num den - 1) ≤ num / den := by
  refine pointBelow_spec hden 2 _ ?_
  have hd : (0 : ℚ) < den := by exact_mod_cast hden
  have hlength : 0 < (digitsOf num).length := List.length_pos_iff.2 (digitsOf_ne_nil num)
  have hlow : (10 : ℚ) ^ (((digitsOf num).length : Int) - 1) ≤ num := by
    have := pow_length_le hnum
    rw [show ((digitsOf num).length : Int) - 1 = ((digitsOf num).length - 1 : Nat) by omega,
      zpow_natCast]
    exact_mod_cast this
  have hhigh : (den : ℚ) ≤ 10 ^ ((digitsOf den).length : Int) := by
    rw [zpow_natCast]
    exact_mod_cast (lt_pow_length den).le
  rw [le_div_iff₀ hd]
  refine le_trans (mul_le_mul_of_nonneg_left hhigh (by positivity)) (le_trans ?_ hlow)
  rw [← zpow_add₀ (by norm_num)]
  exact zpow_le_zpow_right₀ (by norm_num) (by push_cast; omega)

/-- A quotient as near to a number as its seventeen first digits rounds to it. -/
theorem roundsTo_of_near {q : ℚ} (h : Canonical m e)
    (hnear : |q - m * 2 ^ e| * (2 * 10 ^ 16) ≤ m * 2 ^ e) : RoundsTo m e q := by
  have hp := two_zpow_pos e
  have hshort : (m : ℚ) ≤ 2 ^ 53 := by exact_mod_cast h.short.le
  have hmax := mul_le_mul_of_nonneg_right hshort hp.le
  obtain ⟨hleft, hright⟩ := abs_le.1 (le_refl |q - m * 2 ^ e|)
  norm_num at hmax hnear
  have hlow : lowEnd m e < q := by
    unfold lowEnd
    split
    · rename_i hedge
      have hm' : (m : ℚ) = 2 ^ 52 := by exact_mod_cast hedge.1
      rw [hm'] at hnear hleft ⊢
      norm_num at hnear hleft ⊢
      linarith
    · linarith
  have hhigh : q < highEnd m e := by
    unfold highEnd
    linarith
  exact ⟨hlow.le, hhigh.le, fun h => h.elim (fun h => absurd h hlow.ne') fun h => absurd h hhigh.ne⟩

/-- A multiple that rounds to a positive number is shown by digits that do so. -/
theorem ofMultiple_roundsTo (hm : 0 < m) (h : RoundsTo m e (n * 10 ^ k)) :
    (Digits.ofMultiple n k).Proper ∧ RoundsTo m e (Digits.ofMultiple n k).value := by
  have hn : 0 < n := by
    by_contra hzero
    have := h.low.trans_lt' (lowEnd_pos hm)
    rw [show n = 0 by omega] at this
    simp at this
  exact ⟨ofMultiple_proper hn k, by rw [ofMultiple_value]; exact h⟩

/-- The multiple that is nearest to a number is off by half a step at most. -/
theorem nearestMultiple_near {num den n d : Nat} (hden : 0 < den)
    (hscale : scaleDecimal num den k = (n, d)) :
    |(roundQuotient n d : ℚ) * 10 ^ k - num / den| * 2 ≤ 10 ^ k := by
  obtain ⟨hd, hvalue⟩ := scaleDecimal_spec hden hscale
  obtain ⟨hlow, hhigh⟩ := roundQuotient_near n hd
  have hd' : (0 : ℚ) < d := by exact_mod_cast hd
  have hp : (0 : ℚ) < 10 ^ k := by positivity
  have hlow' : (2 * (roundQuotient n d * d) : ℚ) ≤ 2 * n + d := by exact_mod_cast hlow
  have hhigh' : (2 * n : ℚ) ≤ 2 * (roundQuotient n d * d) + d := by exact_mod_cast hhigh
  have hhalf : |(roundQuotient n d : ℚ) - n / d| ≤ 1 / 2 := by
    rw [abs_le]
    constructor
    · rw [neg_le_sub_iff_le_add, div_le_iff₀ hd']
      linarith
    · rw [sub_le_iff_le_add, ← sub_le_iff_le_add', le_div_iff₀ hd']
      linarith
  rw [← hvalue, ← sub_mul, abs_mul, abs_of_pos hp, mul_assoc, mul_comm ((10 : ℚ) ^ k) 2,
    ← mul_assoc]
  refine mul_le_of_le_one_left hp.le ?_
  linarith

/-- The digits are tried until they round to the number; the nearest seventeen do. -/
theorem shortestFrom_roundsTo (canonical : Canonical m e) (hm : 0 < m) (h : i.Of m e) {point : Int}
    (hpoint : (10 : ℚ) ^ (point - 1) ≤ i.value / i.den) (steps : Nat) :
    (i.shortestFrom point steps).Proper ∧ RoundsTo m e (i.shortestFrom point steps).value := by
  induction steps with
  | zero =>
    unfold Interval.shortestFrom
    obtain ⟨⟨n, d⟩, hscale⟩ : ∃ s, scaleDecimal i.value i.den (point - 17) = s := ⟨_, rfl⟩
    have hnear := nearestMultiple_near h.den hscale
    dsimp only
    rw [hscale]
    dsimp only
    refine ofMultiple_roundsTo hm (roundsTo_of_near canonical ?_)
    rw [h.value] at hnear hpoint
    have hpow : (10 : ℚ) ^ (point - 1) = 10 ^ (point - 17) * 10 ^ 16 := by
      rw [← zpow_natCast, ← zpow_add₀ (by norm_num)]
      congr 1
      ring
    calc _ = |(roundQuotient n d : ℚ) * 10 ^ (point - 17) - m * 2 ^ e| * 2 * 10 ^ 16 := by ring
      _ ≤ 10 ^ (point - 17) * 10 ^ 16 := mul_le_mul_of_nonneg_right hnear (by positivity)
      _ = 10 ^ (point - 1) := hpow.symm
      _ ≤ m * 2 ^ e := hpoint
  | succ steps ih =>
    unfold Interval.shortestFrom
    dsimp only
    split
    · rename_i n hpick
      exact ofMultiple_roundsTo hm (h.roundsTo (Interval.holds_of_pick hpick))
    · exact ih

/-- **The shortest digits of a positive number write a quotient that rounds to it.** -/
theorem shortest_roundsTo (canonical : Canonical m e) (hm : 0 < m) :
    (shortest m e).Proper ∧ RoundsTo m e (shortest m e).value := by
  have h := intervalOf_of hm e
  have hvalue : 0 < (intervalOf m e).value := by
    by_contra hzero
    have hpos : (0 : ℚ) < m * 2 ^ e := by positivity
    rw [← h.value, show (intervalOf m e).value = 0 by omega] at hpos
    simp at hpos
  exact shortestFrom_roundsTo canonical hm h (pointOf_spec hvalue h.den) 16

/-! ## Reading back -/

variable {x : Float} {negative : Bool} {M : Nat} {E : Int}

theorem eight_zpow (k : Int) : (8 : ℚ) ^ k = 2 ^ (3 * k) := by
  rw [zpow_mul]
  norm_num

/-- A decimal far above all numbers rounds to none. -/
theorem RoundsTo.not_large (h : RoundsTo m e (M * 10 ^ E)) (canonical : Canonical m e)
    (hM : M ≠ 0) : E ≤ 400 := by
  by_contra hlarge
  have hM' : (1 : ℚ) ≤ M := by exact_mod_cast Nat.one_le_iff_ne_zero.2 hM
  have hgreatest := canonical.greatest
  have habove : (2 : ℚ) ^ (1024 : Int) ≤ M * 10 ^ E :=
    calc (2 : ℚ) ^ (1024 : Int) ≤ 2 ^ (3 * 401 : Int) := zpow_le_zpow_right₀ one_le_two (by decide)
      _ = 8 ^ (401 : Int) := (eight_zpow 401).symm
      _ ≤ 10 ^ (401 : Int) := zpow_le_zpow_left₀ (by decide) (by norm_num) (by norm_num)
      _ ≤ 10 ^ E := zpow_le_zpow_right₀ (by norm_num) (by omega)
      _ ≤ M * 10 ^ E := le_mul_of_one_le_left (by positivity) hM'
  have hbelow : (M : ℚ) * 10 ^ E < 2 ^ (1024 : Int) :=
    calc (M : ℚ) * 10 ^ E < 2 ^ (e + 53) := h.high.trans_lt (highEnd_lt canonical)
      _ ≤ 2 ^ (1024 : Int) := zpow_le_zpow_right₀ one_le_two (by omega)
  exact absurd hbelow (not_lt.2 habove)

/-- A decimal far below all numbers but zero rounds to none of them. -/
theorem RoundsTo.not_small {k : Nat} (h : RoundsTo m e (M * 10 ^ (-(k : Int))))
    (canonical : Canonical m e) (hm : 0 < m) (hM : M ≠ 0) :
    -1100 ≤ (M.log2 : Int) + 1 + 3 * -(k : Int) := by
  by_contra hsmall
  have hleast := canonical.least
  have hbelow : (M : ℚ) * 10 ^ (-(k : Int)) ≤ 2 ^ (-1101 : Int) :=
    calc (M : ℚ) * 10 ^ (-(k : Int)) ≤ 2 ^ ((M.log2 : Int) + 1) * 8 ^ (-(k : Int)) := by
          refine mul_le_mul (log2_bounds (by omega)).2.le ?_ (by positivity) (by positivity)
          rw [zpow_neg, zpow_neg, zpow_natCast, zpow_natCast]
          gcongr
          norm_num
      _ = 2 ^ ((M.log2 : Int) + 1 + 3 * -(k : Int)) := by rw [eight_zpow, ← two_zpow_add]
      _ ≤ 2 ^ (-1101 : Int) := zpow_le_zpow_right₀ one_le_two (by omega)
  have habove : (2 : ℚ) ^ (-1101 : Int) < M * 10 ^ (-(k : Int)) :=
    calc (2 : ℚ) ^ (-1101 : Int) < 2 ^ (-1075 : Int) := zpow_lt_zpow_right₀ one_lt_two (by decide)
      _ ≤ 2 ^ (e - 1) := zpow_le_zpow_right₀ one_le_two (by omega)
      _ = 2 ^ e / 2 := zpow_sub_one₀ two_ne_zero e
      _ ≤ lowEnd m e := half_le_lowEnd hm
      _ ≤ M * 10 ^ (-(k : Int)) := h.low
  exact absurd hbelow (not_le.2 habove)

/-- **A decimal that rounds to a finite number is read as it**: neither bound on the magnitude is
ever met by one. -/
theorem ofDecimal_eq (h : decode x = .finite negative m e) (hm : 0 < m)
    (hround : RoundsTo m e (M * 10 ^ E)) : ofDecimal negative M E = x := by
  obtain ⟨canonical, _⟩ := toBits_of_decode h
  have hM : M ≠ 0 := by
    rintro rfl
    have := hround.low.trans_lt' (lowEnd_pos hm)
    simp at this
  unfold ofDecimal
  rw [if_neg hM]
  split
  · rename_i hlarge
    exact absurd (hround.not_large canonical hM) (not_le.2 hlarge)
  · split
    · rename_i hpos
      obtain ⟨k, rfl⟩ := Int.eq_ofNat_of_zero_le hpos
      refine nearest_eq h hm (by decide) ?_
      rw [show Nat.pow 10 (k : Int).toNat = 10 ^ k from rfl]
      push_cast
      rw [div_one, ← zpow_natCast]
      exact hround
    · rename_i hneg
      obtain ⟨k, hk⟩ := Int.eq_ofNat_of_zero_le (show 0 ≤ -E by omega)
      have hE : E = -(k : Int) := by omega
      subst hE
      split
      · rename_i hsmall
        exact absurd (hround.not_small canonical hm hM) (not_le.2 hsmall)
      · refine nearest_eq h hm (Nat.pow_pos (by decide)) ?_
        rw [neg_neg, show Nat.pow 10 (k : Int).toNat = 10 ^ k from rfl]
        rw [zpow_neg, zpow_natCast] at hround
        push_cast
        rwa [div_eq_mul_inv]

end WorkflowEngine.Number
