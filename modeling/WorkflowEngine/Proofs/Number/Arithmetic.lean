import WorkflowEngine.Proofs.Number.Nearest

/-!
# Products and quotients

The product and the quotient of two finite numbers are the numbers nearest to them
(`mul_eq_nearest`, `div_eq_nearest`): the shifts and roundings by which a `Float` is computed come
to the same as rounding the exact quotient once. So numbers that are not negative keep that, and
their order, when they are multiplied or divided by a positive number.
-/

namespace WorkflowEngine.Number

open Float.Model UnpackedFloat

variable {x y : Float} {negative negative' : Bool} {m m' num den num' den' : Nat} {e e' : Int}

/-! ## Rounding by shifts -/

/-- A significand with its two bits for what lies below it stands for a quotient. -/
structure Holds (em : ExtendedMantissa) (num den : Nat) : Prop where
  whole : em.mantissa = num / den
  rest : em.accuracy = accuracyOfFraction (num % den) den

theorem accuracyOfFraction_zero (den : Nat) : accuracyOfFraction 0 den = .exact := if_pos rfl

theorem accuracyOfFraction_pos {rest : Nat} (h : 0 < rest) (den : Nat) :
    accuracyOfFraction rest den = .inexact (compare (2 * rest) den) := if_neg h.ne'

theorem holds_ofMantissaAndAccuracy (num den : Nat) :
    Holds (.ofMantissaAndAccuracy (num / den) (accuracyOfFraction (num % den) den)) num den := by
  cases h : accuracyOfFraction (num % den) den with
  | exact => exact ⟨rfl, h.symm⟩
  | inexact order => cases order <;> exact ⟨rfl, h.symm⟩

/-- One of the two bits is set if something lies below the significand. -/
theorem Holds.bits {em : ExtendedMantissa} (h : Holds em num den) :
    (em.roundBit || em.stickyBit) = decide (0 < num % den) := by
  obtain ⟨mantissa, roundBit, stickyBit⟩ := em
  have hrest := h.rest
  rcases Nat.eq_zero_or_pos (num % den) with hzero | hpos
  · rw [hzero, accuracyOfFraction_zero] at hrest
    rw [hzero]
    cases roundBit <;> cases stickyBit <;> first | rfl | cases hrest
  · rw [accuracyOfFraction_pos hpos] at hrest
    rw [decide_eq_true hpos]
    cases roundBit <;> cases stickyBit <;> first | rfl | cases hrest

/-- Half of a quotient is held after one shift. -/
theorem Holds.shiftRightOne {em : ExtendedMantissa} (h : Holds em num den) (hden : 0 < den) :
    Holds em.shiftRightOne num (2 * den) := by
  have hrest := Nat.mod_lt num hden
  have hmod : num % (2 * den) = num % den + den * (num / den % 2) := by
    rw [mul_comm, Nat.mod_mul]
  refine ⟨?_, ?_⟩
  · change em.mantissa / 2 = _
    rw [h.whole, Nat.div_div_eq_div_mul, mul_comm]
  · rw [ExtendedMantissa.shiftRightOne, h.bits, h.whole, hmod]
    rcases Nat.mod_two_eq_zero_or_one (num / den) with heven | hodd
    · rw [heven, mul_zero, add_zero]
      rcases Nat.eq_zero_or_pos (num % den) with hzero | hpos
      · rw [hzero, accuracyOfFraction_zero]
        rfl
      · rw [accuracyOfFraction_pos hpos, decide_eq_true hpos,
          compare_lt_iff_lt.2 (show 2 * (num % den) < 2 * den by omega)]
        rfl
    · rw [hodd, mul_one, accuracyOfFraction_pos (by omega)]
      rcases Nat.eq_zero_or_pos (num % den) with hzero | hpos
      · rw [hzero, compare_eq_iff_eq.2 (show 2 * (0 + den) = 2 * den by omega)]
        rfl
      · rw [decide_eq_true hpos,
          compare_gt_iff_gt.2 (show 2 * den < 2 * (num % den + den) by omega)]
        rfl

theorem Holds.shift {em : ExtendedMantissa} (h : Holds em num den) (hden : 0 < den) (k : Nat) :
    Holds (em >>> k) num (2 ^ k * den) := by
  induction k with
  | zero =>
    rw [pow_zero, one_mul]
    exact h
  | succ k ih =>
    have hnext := ih.shiftRightOne (by positivity)
    rw [← mul_assoc, ← pow_succ'] at hnext
    exact hnext

/-- What is held is rounded as the quotient is. -/
theorem Holds.roundedMantissa {em : ExtendedMantissa} (h : Holds em num den) (hden : 0 < den) :
    em.roundedMantissa = roundQuotient num den := by
  rw [ExtendedMantissa.roundedMantissa, h.rest, h.whole]
  unfold roundQuotient
  dsimp only
  rcases Nat.eq_zero_or_pos (num % den) with hzero | hpos
  · rw [hzero, accuracyOfFraction_zero, if_pos (by omega)]
    rfl
  · rw [accuracyOfFraction_pos hpos]
    rcases lt_trichotomy (2 * (num % den)) den with hlt | heq | hgt
    · rw [compare_lt_iff_lt.2 hlt, if_pos hlt]
      rfl
    · rw [compare_eq_iff_eq.2 heq, if_neg (by omega), if_neg (by omega)]
      change num / den + num / den % 2 = _
      split <;> omega
    · rw [compare_gt_iff_gt.2 hgt, if_neg (by omega), if_pos hgt]
      rfl

/-! ## Rounding in full -/

theorem targetExponent_eq (m : Nat) (e : Int) :
    Format.binary64.targetExponent (totalExponent m e) = max (m.log2 + e - 52) (-1074) := by
  have hbits : ((Format.binary64.mantissaBits : Nat) : Int) = 53 := rfl
  have hmin : Format.binary64.minExponent = -1074 := by decide
  rw [Format.targetExponent, totalExponent, hbits, hmin]
  congr 1
  omega

/-- A significand of no more than 53 bits is in its place, and the next power of two is carried. -/
theorem shiftToTargetExponent_carry (short : m ≤ 2 ^ 53) (least : -1074 ≤ e) :
    (shiftToTargetExponent .binary64 m e .exact).1.mantissa = (carry m e).1 ∧
      (shiftToTargetExponent .binary64 m e .exact).2 = (carry m e).2 := by
  rw [shiftToTargetExponent, targetExponent_eq]
  unfold carry
  by_cases hm : m = 2 ^ 53
  · have hlog : m.log2 = 53 := by rw [hm, Nat.log2_two_pow]
    have hshift : (max ((m.log2 : Int) + e - 52) (-1074) - e).toNat = 1 := by
      rw [hlog]
      omega
    rw [shiftToExponent, hshift, if_pos hm, hm]
    exact ⟨rfl, rfl⟩
  · have hlog : m.log2 ≤ 52 := by
      rcases Nat.eq_zero_or_pos m with rfl | hpos
      · decide
      · have := (Nat.log2_lt hpos.ne').2 (lt_of_le_of_ne short hm)
        omega
    have hshift : (max ((m.log2 : Int) + e - 52) (-1074) - e).toNat = 0 := by omega
    rw [shiftToExponent, hshift, if_neg hm]
    exact ⟨rfl, by simp⟩

/-- A quotient at its place has the exponent that it is shifted to. -/
theorem quotientExponent_of_placed {n d : Nat} (hn : 0 < n) (hd : 0 < d) (hden : 0 < den)
    (placed : e ≤ max ((n / d).log2 + e - 52) (-1074)) (h : (n / d : ℚ) * 2 ^ e = num / den) :
    0 < num ∧ quotientExponent num den = max ((n / d).log2 + e - 52) (-1074) := by
  have hd' : (0 : ℚ) < d := by exact_mod_cast hd
  have hden' : (0 : ℚ) < den := by exact_mod_cast hden
  have hp := two_zpow_pos e
  have hnum : 0 < num := by
    have hpos : (0 : ℚ) < num / den := by
      rw [← h]
      positivity
    exact_mod_cast (div_pos_iff_of_pos_right hden').1 hpos
  refine ⟨hnum, quotientExponent_eq hnum hden (le_max_right _ _) ?_ fun hnormal => ?_⟩
  · have hlt : n < 2 ^ ((n / d).log2 + 1) * d := (Nat.div_lt_iff_lt_mul hd).1 Nat.lt_log2_self
    have hq : (n / d : ℚ) < 2 ^ (((n / d).log2 : Int) + 1) := by
      rw [div_lt_iff₀ hd']
      exact_mod_cast hlt
    rw [← h]
    calc (n / d : ℚ) * 2 ^ e < 2 ^ (((n / d).log2 : Int) + 1) * 2 ^ e :=
          mul_lt_mul_of_pos_right hq hp
      _ = 2 ^ (((n / d).log2 : Int) + 1 + e) := (two_zpow_add _ _).symm
      _ ≤ 2 ^ (max (((n / d).log2 : Int) + e - 52) (-1074) + 53) :=
          zpow_le_zpow_right₀ one_le_two (by omega)
  · have hwhole : n / d ≠ 0 := by
      intro hzero
      rw [hzero] at placed hnormal
      have hlog : (Nat.log2 0 : Int) = 0 := rfl
      omega
    have hle : 2 ^ (n / d).log2 * d ≤ n := (Nat.le_div_iff_mul_le hd).1 (Nat.log2_self_le hwhole)
    have hq : (2 : ℚ) ^ ((n / d).log2 : Int) ≤ n / d := by
      rw [le_div_iff₀ hd']
      exact_mod_cast hle
    rw [← h]
    calc (2 : ℚ) ^ (max (((n / d).log2 : Int) + e - 52) (-1074) + 52)
        = 2 ^ (((n / d).log2 : Int) + e) := by
          congr 1
          omega
      _ = 2 ^ ((n / d).log2 : Int) * 2 ^ e := two_zpow_add _ _
      _ ≤ (n / d : ℚ) * 2 ^ e := mul_le_mul_of_nonneg_right hq hp.le

/-- What the first shift leaves is rounded to the significand of the nearest number. -/
theorem shiftToTargetExponent_placed {n d : Nat} (hn : 0 < n) (hd : 0 < d) (hden : 0 < den)
    (placed : e ≤ max ((n / d).log2 + e - 52) (-1074)) (h : (n / d : ℚ) * 2 ^ e = num / den) :
    (shiftToTargetExponent .binary64 (n / d) e (accuracyOfFraction (n % d) d)).1.roundedMantissa =
        significand num den ∧
      (shiftToTargetExponent .binary64 (n / d) e (accuracyOfFraction (n % d) d)).2 =
        quotientExponent num den := by
  obtain ⟨hnum, hexponent⟩ := quotientExponent_of_placed hn hd hden placed h
  obtain ⟨k, hk⟩ := Int.eq_ofNat_of_zero_le (sub_nonneg.2 placed)
  rw [shiftToTargetExponent, targetExponent_eq, shiftToExponent, hk, Int.toNat_natCast]
  have hshift := (holds_ofMantissaAndAccuracy n d).shift hd k
  refine ⟨?_, by rw [hexponent]; omega⟩
  refine (hshift.roundedMantissa (by positivity)).trans (significand_eq hden (by positivity) ?_).symm
  have hd' : (d : ℚ) ≠ 0 := by positivity
  rw [hexponent, ← h, show max (((n / d).log2 : Int) + e - 52) (-1074) = e + k by omega,
    two_zpow_add, zpow_natCast]
  push_cast
  field_simp

/-- **Rounding gives the nearest number**, if the exponent to begin with is not too large. -/
theorem ofModel_pack_round {n d : Nat} (hn : 0 < n) (hd : 0 < d) (hden : 0 < den)
    (placed : e ≤ max ((n / d).log2 + e - 52) (-1074)) (h : (n / d : ℚ) * 2 ^ e = num / den)
    (negative : Bool) :
    Float.ofModel (Float.Model.pack (roundWithAccuracy .binary64 (signOf negative) (n / d) e
      (accuracyOfFraction (n % d) d))) = nearest negative num den := by
  obtain ⟨hnum, -⟩ := quotientExponent_of_placed hn hd hden placed h
  obtain ⟨hfirst, hplace⟩ := shiftToTargetExponent_placed hn hd hden placed h
  obtain ⟨hshort, hfull⟩ := significand_bounds hnum hden
  obtain ⟨hleast, -, -⟩ := quotientExponent_spec hnum hden
  obtain ⟨hmantissa, hexponent⟩ := shiftToTargetExponent_carry hshort hleast
  have hcanonical := carry_canonical hshort hleast hfull
  rw [nearest_eq_parts hnum]
  unfold roundWithAccuracy
  simp only [hfirst, hplace, hmantissa, hexponent]
  split
  · rename_i hzero
    -- only with the least exponent is a quotient rounded to zero
    have hsmall : significand num den = 0 := by
      unfold carry at hzero
      split at hzero
      · cases hzero
      · exact hzero
    have hmin : quotientExponent num den = -1074 := by
      by_contra hne
      have := hfull (by omega)
      omega
    rw [hsmall, hmin]
    cases negative <;> rfl
  · rename_i hpos
    split
    · rename_i hlarge
      exact ofModel_pack_large hlarge (Nat.pos_of_ne_zero hpos) negative
    · rename_i hfits
      exact ofModel_pack_finite (hcanonical (not_lt.1 hfits)) (Nat.pos_of_ne_zero hpos) negative

/-! ## Products and quotients -/

theorem signOf_mul (negative negative' : Bool) :
    signOf negative * signOf negative' = signOf (negative != negative') := by
  cases negative <;> cases negative' <;> rfl

theorem signOf_div (negative negative' : Bool) :
    signOf negative / signOf negative' = signOf (negative != negative') := by
  cases negative <;> cases negative' <;> rfl

theorem ofModel_pack_zero (negative : Bool) (den : Nat) :
    Float.ofModel (Float.Model.pack (.zero (signOf negative))) = nearest negative 0 den := by
  rw [nearest_zero_eq]
  cases negative <;> rfl

theorem num_eq_zero (hden : 0 < den) (h : (num / den : ℚ) = 0) : num = 0 := by
  have hq : (den : ℚ) ≠ 0 := by positivity
  exact_mod_cast (div_eq_zero_iff.1 h).resolve_right hq

/-- **A product of finite numbers is the number nearest to it.** -/
theorem mul_eq_nearest (h : decode x = .finite negative m e)
    (h' : decode y = .finite negative' m' e') (hden : 0 < den)
    (hvalue : (num / den : ℚ) = m * 2 ^ e * (m' * 2 ^ e')) :
    x * y = nearest (negative != negative') num den := by
  have hmul : x * y = Float.ofModel (Float.Model.pack
      (UnpackedFloat.mul .binary64 x.toModel.unpack y.toModel.unpack)) := rfl
  have hzero : m = 0 ∨ m' = 0 → num = 0 := fun hzero =>
    num_eq_zero hden (by rw [hvalue]; rcases hzero with rfl | rfl <;> simp)
  rw [hmul]
  rcases Nat.eq_zero_or_pos m with rfl | hm
  · rw [hzero (.inl rfl), ← ofModel_pack_zero, unpack_zero h, ← signOf_mul]
    rcases Nat.eq_zero_or_pos m' with rfl | hm'
    · rw [unpack_zero h']
      rfl
    · rw [unpack_finite h' hm']
      rfl
  · rw [unpack_finite h hm]
    rcases Nat.eq_zero_or_pos m' with rfl | hm'
    · rw [hzero (.inr rfl), ← ofModel_pack_zero, unpack_zero h', ← signOf_mul]
      rfl
    · rw [unpack_finite h' hm', UnpackedFloat.mul, signOf_mul]
      have hcanonical := (toBits_of_decode h).1
      have hcanonical' := (toBits_of_decode h').1
      -- the product of two significands has 53 bits, unless both numbers have the least exponent
      have hplaced : e + e' ≤ max ((m * m' / 1).log2 + (e + e') - 52) (-1074) := by
        rw [Nat.div_one]
        by_cases hleast : e = -1074 ∧ e' = -1074
        · omega
        · have hlong : 2 ^ 52 ≤ m * m' := by
            rcases not_and_or.1 hleast with hne | hne
            · exact (hcanonical.full (lt_of_le_of_ne hcanonical.least (Ne.symm hne))).trans
                (Nat.le_mul_of_pos_right m hm')
            · exact (hcanonical'.full (lt_of_le_of_ne hcanonical'.least (Ne.symm hne))).trans
                (Nat.le_mul_of_pos_left m' hm)
          have := (Nat.le_log2 (Nat.mul_pos hm hm').ne').2 hlong
          omega
      have hround := ofModel_pack_round (n := m * m') (d := 1) (Nat.mul_pos hm hm') Nat.one_pos hden
        hplaced (by rw [hvalue, two_zpow_add]; push_cast; ring) (negative != negative')
      rw [Nat.div_one, Nat.mod_one, accuracyOfFraction_zero] at hround
      exact hround

/-- The exponent that a quotient is computed with is small enough for 53 bits. -/
theorem targetExponent_gap (m m' : Nat) (e e' : Int) :
    Format.binary64.targetExponent (totalExponent m e - totalExponent m' e') = -1074 ∨
      Format.binary64.targetExponent (totalExponent m e - totalExponent m' e') =
        m.log2 - m'.log2 + (e - e') - 53 := by
  have hbits : ((Format.binary64.mantissaBits : Nat) : Int) = 53 := rfl
  have hmin : Format.binary64.minExponent = -1074 := by decide
  rw [Format.targetExponent, totalExponent, totalExponent, hbits, hmin]
  omega

/-- **A quotient of finite numbers is the number nearest to it.** -/
theorem div_eq_nearest (h : decode x = .finite negative m e)
    (h' : decode y = .finite negative' m' e') (hm' : 0 < m') (hden : 0 < den)
    (hvalue : (num / den : ℚ) = m * 2 ^ e / (m' * 2 ^ e')) :
    x / y = nearest (negative != negative') num den := by
  have hdiv : x / y = Float.ofModel (Float.Model.pack
      (UnpackedFloat.div .binary64 x.toModel.unpack y.toModel.unpack)) := rfl
  rw [hdiv, unpack_finite h' hm']
  rcases Nat.eq_zero_or_pos m with rfl | hm
  · have hnum : num = 0 := num_eq_zero hden (by rw [hvalue]; simp)
    rw [hnum, ← ofModel_pack_zero, unpack_zero h, ← signOf_div]
    rfl
  · rw [unpack_finite h hm, UnpackedFloat.div, divCore, signOf_div]
    dsimp only
    have hgap := targetExponent_gap m m' e e'
    generalize Format.binary64.targetExponent (totalExponent m e - totalExponent m' e') = t at hgap
    obtain ⟨k, hk⟩ := Int.eq_ofNat_of_zero_le (sub_nonneg.2 (min_le_left (e - e') t))
    rw [hk, Int.toNat_natCast, Nat.shiftLeft_eq]
    have hplaced : min (e - e') t ≤
        max ((m * 2 ^ k / m').log2 + min (e - e') t - 52) (-1074) := by
      rcases hgap with hleast | hgap
      · omega
      · have hlong : 2 ^ 52 ≤ m * 2 ^ k / m' := by
          rw [Nat.le_div_iff_mul_le hm']
          calc 2 ^ 52 * m' ≤ 2 ^ 52 * 2 ^ (m'.log2 + 1) :=
                Nat.mul_le_mul_left _ Nat.lt_log2_self.le
            _ = 2 ^ (52 + (m'.log2 + 1)) := (Nat.pow_add _ _ _).symm
            _ ≤ 2 ^ (m.log2 + k) := Nat.pow_le_pow_right (by decide) (by omega)
            _ = 2 ^ m.log2 * 2 ^ k := Nat.pow_add _ _ _
            _ ≤ m * 2 ^ k := Nat.mul_le_mul_right _ (Nat.log2_self_le hm.ne')
        have := (Nat.le_log2 (by omega)).2 hlong
        omega
    refine ofModel_pack_round (by positivity) hm' hden hplaced ?_ (negative != negative')
    have hm'' : (m' : ℚ) ≠ 0 := by positivity
    have hp' := (two_zpow_pos e').ne'
    have hp := (two_zpow_pos (min (e - e') t)).ne'
    rw [hvalue, show (2 : ℚ) ^ e = 2 ^ (k : Int) * 2 ^ min (e - e') t * 2 ^ e' by
      rw [← two_zpow_add, ← two_zpow_add]; congr 1; omega, zpow_natCast]
    push_cast
    field_simp

/-- Every finite number of at least zero is a quotient. -/
theorem exists_quotient {q : ℚ} (h : 0 ≤ q) : ∃ num den : Nat, 0 < den ∧ (num / den : ℚ) = q := by
  refine ⟨q.num.toNat, q.den, q.den_pos, ?_⟩
  have hnum : ((q.num.toNat : Int) : ℚ) = q.num := by
    exact_mod_cast Int.toNat_of_nonneg (Rat.num_nonneg.2 h)
  rw [Int.cast_natCast] at hnum
  rw [hnum, Rat.num_div_den]

/-- **Where the product of whole numbers is exact, dividing undoes multiplying.** -/
theorem whole_mul_div {n k : Nat} (hk : 0 < k) (hsmall : k < 2 ^ 53) (h : n * k < 2 ^ 53) :
    nearest false n 1 * nearest false k 1 / nearest false k 1 = nearest false n 1 := by
  have hn : n < 2 ^ 53 := lt_of_le_of_lt (Nat.le_mul_of_pos_right n hk) h
  obtain ⟨m, e, hdecode, hvalue⟩ := decode_whole hn
  obtain ⟨m', e', hdecode', hm', hvalue'⟩ := decode_positive hk hsmall
  obtain ⟨m'', e'', hdecode'', hvalue''⟩ := decode_whole h
  have hk' : (k : ℚ) ≠ 0 := by positivity
  have hproduct : ((n * k : Nat) / (1 : Nat) : ℚ) = m * 2 ^ e * (m' * 2 ^ e') := by
    rw [hvalue, hvalue']
    push_cast
    ring
  have hquotient : (n / (1 : Nat) : ℚ) = m'' * 2 ^ e'' / (m' * 2 ^ e') := by
    rw [hvalue', hvalue'']
    push_cast
    field_simp
  have hmul := mul_eq_nearest hdecode hdecode' Nat.one_pos hproduct
  have hdiv := div_eq_nearest hdecode'' hdecode' hm' Nat.one_pos hquotient
  rw [Bool.bne_false] at hmul hdiv
  rw [hmul, hdiv]

/-! ## Numbers that are not negative -/

/-- A number that is one, and not less than zero. -/
structure Nonnegative (x : Float) : Prop where
  number : (x == x) = true
  notLess : ¬ x < nearest false 0 1

theorem nonnegative_iff : Nonnegative x ↔ x = infinity ∨
    ∃ negative m e, decode x = .finite negative m e ∧ (negative = true → m = 0) := by
  have hzero : decode (nearest false 0 1) = .finite false 0 (-1074) := by
    rw [nearest_zero_eq]
    exact decode_ofParts canonical_zero false
  constructor
  · rintro ⟨hnumber, hnotLess⟩
    cases h : decode x with
    | nan => exact absurd h (beq_self_iff.1 hnumber)
    | infinite negative =>
      cases negative with
      | false => exact .inl (eq_of_decode_infinite h)
      | true =>
        rw [eq_of_decode_infinite h] at hnotLess
        exact absurd (by decide +kernel) hnotLess
    | finite negative m e =>
      refine .inr ⟨negative, m, e, rfl, ?_⟩
      rintro rfl
      rw [lt_iff_exact h hzero, exact_of_sign _ (fun _ => rfl), exact, if_pos rfl, Nat.cast_zero,
        zero_mul, not_lt] at hnotLess
      by_contra hm
      have hpos : (0 : ℚ) < m * 2 ^ e := by positivity
      linarith
  · rintro (rfl | ⟨negative, m, e, h, hsign⟩)
    · exact ⟨by decide +kernel, not_infinity_lt _⟩
    · refine ⟨beq_self_iff.2 (by rw [h]; exact Decoded.noConfusion), ?_⟩
      rw [lt_iff_exact h hzero, exact_of_sign e hsign, exact_of_sign _ (fun _ => rfl),
        Nat.cast_zero, zero_mul, not_lt]
      positivity

theorem nonnegative_nearest (num : Nat) (hden : 0 < den) (hsign : negative = true → num = 0) :
    Nonnegative (nearest negative num den) := by
  rw [nonnegative_iff]
  rcases decode_nearest num hden negative with ⟨hbig, hlarge⟩ | ⟨-, m, e, hfinite, hvalue⟩
  · cases negative with
    | false => exact .inl (eq_of_decode_infinite hlarge)
    | true =>
      rw [hsign rfl, rounded_zero] at hbig
      exact absurd hbig (by norm_num)
  · exact .inr ⟨negative, m, e, hfinite, sign_of_rounded hsign hvalue⟩

section

variable (hy : decode y = .finite false m' e') (hm' : 0 < m')

include hy hm'

theorem infinity_mul : infinity * y = infinity := by
  have hmul : infinity * y = Float.ofModel (Float.Model.pack
      (UnpackedFloat.mul .binary64 infinity.toModel.unpack y.toModel.unpack)) := rfl
  rw [hmul, unpack_finite hy hm']
  rfl

theorem infinity_div : infinity / y = infinity := by
  have hdiv : infinity / y = Float.ofModel (Float.Model.pack
      (UnpackedFloat.div .binary64 infinity.toModel.unpack y.toModel.unpack)) := rfl
  rw [hdiv, unpack_finite hy hm']
  rfl

/-- What is not negative stays so if it is multiplied by a positive number. -/
theorem Nonnegative.mul (hx : Nonnegative x) : Nonnegative (x * y) := by
  rcases nonnegative_iff.1 hx with rfl | ⟨negative, m, e, h, hsign⟩
  · rw [infinity_mul hy hm']
    exact hx
  · obtain ⟨num, den, hden, hvalue⟩ :=
      exists_quotient (show (0 : ℚ) ≤ m * 2 ^ e * (m' * 2 ^ e') by positivity)
    rw [mul_eq_nearest h hy hden hvalue]
    refine nonnegative_nearest num hden fun hnegative => ?_
    rw [Bool.bne_false] at hnegative
    exact num_eq_zero hden (by rw [hvalue, hsign hnegative]; simp)

/-- What is not negative stays so if it is divided by a positive number. -/
theorem Nonnegative.div (hx : Nonnegative x) : Nonnegative (x / y) := by
  rcases nonnegative_iff.1 hx with rfl | ⟨negative, m, e, h, hsign⟩
  · rw [infinity_div hy hm']
    exact hx
  · obtain ⟨num, den, hden, hvalue⟩ :=
      exists_quotient (show (0 : ℚ) ≤ m * 2 ^ e / (m' * 2 ^ e') by positivity)
    rw [div_eq_nearest h hy hm' hden hvalue]
    refine nonnegative_nearest num hden fun hnegative => ?_
    rw [Bool.bne_false] at hnegative
    exact num_eq_zero hden (by rw [hvalue, hsign hnegative]; simp)

/-- **What is divided by a positive number keeps its order.** -/
theorem Nonnegative.not_div_lt {z : Float} (hx : Nonnegative x) (hz : Nonnegative z)
    (h : ¬ z < x) : ¬ z / y < x / y := by
  rcases nonnegative_iff.1 hz with rfl | ⟨negative', m'', e'', hz', hsign'⟩
  · rw [infinity_div hy hm']
    exact not_infinity_lt _
  · rcases nonnegative_iff.1 hx with rfl | ⟨negative, m, e, hx', hsign⟩
    · exact absurd (lt_infinity hz') h
    · obtain ⟨num, den, hden, hvalue⟩ :=
        exists_quotient (show (0 : ℚ) ≤ m * 2 ^ e / (m' * 2 ^ e') by positivity)
      obtain ⟨num', den', hden', hvalue'⟩ :=
        exists_quotient (show (0 : ℚ) ≤ m'' * 2 ^ e'' / (m' * 2 ^ e') by positivity)
      rw [div_eq_nearest hx' hy hm' hden hvalue, div_eq_nearest hz' hy hm' hden' hvalue']
      rw [lt_iff_exact hz' hx', exact_of_sign e hsign, exact_of_sign e'' hsign', not_lt] at h
      refine not_nearest_lt hden hden' ?_ (fun hnegative => ?_) fun hnegative => ?_
      · rw [hvalue, hvalue']
        exact div_le_div_of_nonneg_right h (by positivity)
      · rw [Bool.bne_false] at hnegative
        exact num_eq_zero hden (by rw [hvalue, hsign hnegative]; simp)
      · rw [Bool.bne_false] at hnegative
        exact num_eq_zero hden' (by rw [hvalue', hsign' hnegative]; simp)

end

end WorkflowEngine.Number
