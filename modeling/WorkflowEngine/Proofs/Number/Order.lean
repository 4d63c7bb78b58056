import WorkflowEngine.Proofs.Number.Rounding

/-!
# The order of numbers

A `Float` unpacks into what `decode` tells of it, so finite numbers compare as the rational numbers
that they are (`lt_iff_exact`), every one of them is less than infinity, and with what is not a
number nothing compares.
-/

namespace WorkflowEngine.Number

open Float.Model

variable {x y : Float} {negative negative' : Bool} {m m' : Nat} {e e' : Int}

/-- The sign that goes with a negative number or another. -/
def signOf (negative : Bool) : UnpackedFloat.Sign := if negative then .negative else .positive

/-! ## Unpacked forms -/

theorem unpack_notANumber : notANumber.toModel.unpack = .notANumber := by rfl

theorem unpack_infinite (negative : Bool) :
    (if negative then negativeInfinity else infinity).toModel.unpack = .infinity (signOf negative) := by
  cases negative <;> rfl

theorem sign_unpackSign (x : Float) :
    UnpackedFloat.Sign.ofBitVec (@UnpackedFloat.unpackSign .binary64 x.toModel.toBits.toBitVec) =
      signOf (x.toBits.toNat / 2 ^ 63 == 1) := by
  have hbound : x.toBits.toNat < 2 ^ 64 := x.toBits.toNat_lt
  have hsign : (@UnpackedFloat.unpackSign .binary64 x.toModel.toBits.toBitVec).toNat =
      x.toBits.toNat / 2 ^ 63 := by
    simp only [UnpackedFloat.unpackSign, BitVec.extractLsb, BitVec.toNat_cast,
      BitVec.extractLsb'_toNat, Nat.shiftRight_eq_div_pow]
    change x.toBits.toNat / 2 ^ 63 % 2 ^ 1 = _
    omega
  unfold signOf UnpackedFloat.Sign.ofBitVec
  rcases (by omega : x.toBits.toNat / 2 ^ 63 = 0 ∨ x.toBits.toNat / 2 ^ 63 = 1) with h | h
  · rw [h] at hsign ⊢
    rw [if_pos (BitVec.toNat_inj.1 hsign)]
    rfl
  · rw [h] at hsign ⊢
    rw [if_neg (fun hzero => by rw [hzero] at hsign; cases hsign)]
    rfl

/-- A finite number other than zero is unpacked into what decoding tells of it. -/
theorem unpack_finite (h : decode x = .finite negative m e) (hm : 0 < m) :
    x.toModel.unpack = .finite (signOf negative) m e hm := by
  have hexponent := toNat_unpackExponent x
  have hmantissa := toNat_unpackMantissa x
  have hsign := sign_unpackSign x
  have hbias : ((Format.binary64.exponentBias : Nat) : Int) = 1023 := rfl
  have hwidth : ((Format.binary64.mantissaBitsWithoutImplicit : Nat) : Int) = 52 := rfl
  unfold decode at h
  simp only [show Nat.pow 2 63 = 2 ^ 63 from rfl, show Nat.pow 2 52 = 2 ^ 52 from rfl] at h
  unfold Float.Model.unpack UnpackedFloat.unpack
  simp only [hbias, hwidth, hsign, hexponent]
  split at h
  · split at h <;> cases h
  · rename_i hfinite
    rw [if_neg fun hones => hfinite (by rw [← hexponent, hones]; rfl)]
    split at h
    · rename_i hleast
      injection h with hnegative hfraction he
      have hnone : (@UnpackedFloat.unpackExponent .binary64 x.toModel.toBits.toBitVec) = 0#_ :=
        BitVec.toNat_inj.1 (hexponent.trans hleast)
      have hsome : (@UnpackedFloat.unpackMantissa .binary64 x.toModel.toBits.toBitVec) ≠ 0#_ := by
        intro hzero
        rw [hzero] at hmantissa
        have : 0 = x.toBits.toNat % 2 ^ 52 := hmantissa
        omega
      rw [if_pos hnone, dif_neg hsome]
      subst hnegative hfraction
      congr 1
      omega
    · rename_i hleast
      injection h with hnegative hfraction he
      have hsome : (@UnpackedFloat.unpackExponent .binary64 x.toModel.toBits.toBitVec) ≠ 0#_ := by
        intro hzero
        rw [hzero] at hexponent
        exact hleast hexponent.symm
      have happend : (1#1 ++ @UnpackedFloat.unpackMantissa .binary64
          x.toModel.toBits.toBitVec).toNat = m := by
        have hlt : (@UnpackedFloat.unpackMantissa .binary64 x.toModel.toBits.toBitVec).toNat <
            2 ^ 52 := BitVec.isLt _
        rw [BitVec.toNat_append]
        refine (Nat.shiftLeft_add_eq_or_of_lt hlt 1).symm.trans ?_
        rw [hmantissa]
        omega
      rw [if_neg hsome]
      subst hnegative
      congr 1

/-- Zero is unpacked into zero. -/
theorem unpack_zero (h : decode x = .finite negative 0 e) :
    x.toModel.unpack = .zero (signOf negative) := by
  rw [← nearest_zero h 1]
  cases negative <;> rfl

/-! ## The order of numbers -/

/-- Numbers compare as their unpacked forms. -/
theorem lt_iff_compare : x < y ↔ x.toModel.unpack.compare y.toModel.unpack = some .lt := by
  change decide (x.toModel < y.toModel) = true ↔ _
  rw [decide_eq_true_iff]
  exact beq_iff_eq

/-- What a finite number is exactly. -/
def exact (negative : Bool) (m : Nat) (e : Int) : ℚ :=
  if negative then -(m * 2 ^ e) else m * 2 ^ e

/-- The lesser exponent is that of the lesser number, and of equal exponents the lesser significand.
-/
theorem Canonical.lt_iff (h : Canonical m e) (h' : Canonical m' e') :
    (e < e' ∨ e = e' ∧ m < m') ↔ (m * 2 ^ e : ℚ) < m' * 2 ^ e' := by
  have hless : ∀ {m m' : Nat} {e e' : Int}, Canonical m e → Canonical m' e' → e < e' →
      (m * 2 ^ e : ℚ) < m' * 2 ^ e' := by
    intro m m' e e' h h' hlt
    have hm : (m : ℚ) < 2 ^ (53 : Int) := by exact_mod_cast h.short
    have hm' : (2 : ℚ) ^ (52 : Int) ≤ m' := by
      exact_mod_cast h'.full (lt_of_le_of_lt h.least hlt)
    calc (m * 2 ^ e : ℚ) < 2 ^ (53 : Int) * 2 ^ e := mul_lt_mul_of_pos_right hm (two_zpow_pos e)
      _ = 2 ^ (53 + e) := (two_zpow_add 53 e).symm
      _ ≤ 2 ^ (52 + e') := zpow_le_zpow_right₀ one_le_two (by omega)
      _ = 2 ^ (52 : Int) * 2 ^ e' := two_zpow_add 52 e'
      _ ≤ m' * 2 ^ e' := mul_le_mul_of_nonneg_right hm' (two_zpow_pos e').le
  rcases lt_trichotomy e e' with hlt | rfl | hgt
  · exact ⟨fun _ => hless h h' hlt, fun _ => .inl hlt⟩
  · rw [mul_lt_mul_iff_of_pos_right (two_zpow_pos e), Nat.cast_lt]
    simp
  · constructor
    · intro hor
      omega
    · intro hlt
      exact absurd hlt (hless h' h hgt).le.not_gt

theorem then_eq_lt_iff (e e' : Int) (m m' : Nat) :
    (compare e e').then (compare m m') = .lt ↔ e < e' ∨ e = e' ∧ m < m' := by
  rw [Ordering.then_eq_lt, compare_lt_iff_lt, compare_eq_iff_eq, compare_lt_iff_lt]

theorem then_eq_gt_iff (e e' : Int) (m m' : Nat) :
    (compare e e').then (compare m m') = .gt ↔ e' < e ∨ e' = e ∧ m' < m := by
  rw [Ordering.then_eq_gt, compare_gt_iff_gt, compare_eq_iff_eq, compare_gt_iff_gt, eq_comm]

/-- **Finite numbers compare as what they are exactly.** -/
theorem lt_iff_exact (h : decode x = .finite negative m e) (h' : decode y = .finite negative' m' e') :
    x < y ↔ exact negative m e < exact negative' m' e' := by
  have hcanonical := (toBits_of_decode h).1
  have hcanonical' := (toBits_of_decode h').1
  have hp := two_zpow_pos e
  have hp' := two_zpow_pos e'
  rw [lt_iff_compare]
  unfold exact
  rcases Nat.eq_zero_or_pos m with rfl | hm
  · rw [unpack_zero h]
    rcases Nat.eq_zero_or_pos m' with rfl | hm'
    · rw [unpack_zero h']
      cases negative <;> cases negative' <;> simp [UnpackedFloat.compare]
    · rw [unpack_finite h' hm']
      have hpos : (0 : ℚ) < m' * 2 ^ e' := by positivity
      cases negative' <;>
        simp [signOf, UnpackedFloat.compare, hpos, hpos.le]
  · have hpos : (0 : ℚ) < m * 2 ^ e := by positivity
    rw [unpack_finite h hm]
    rcases Nat.eq_zero_or_pos m' with rfl | hm'
    · rw [unpack_zero h']
      cases negative <;>
        simp [signOf, UnpackedFloat.compare, hpos, hpos.le]
    · rw [unpack_finite h' hm']
      have hpos' : (0 : ℚ) < m' * 2 ^ e' := by positivity
      cases negative <;> cases negative' <;>
        simp only [signOf, UnpackedFloat.compare, Option.some.injEq, Bool.false_eq_true, if_true,
          if_false, reduceCtorEq, Ordering.swap_eq_lt, then_eq_lt_iff, then_eq_gt_iff,
          neg_lt_neg_iff, false_iff, true_iff, not_lt]
      · exact hcanonical.lt_iff hcanonical'
      · linarith
      · linarith
      · exact hcanonical'.lt_iff hcanonical

/-- With what is not a number nothing compares. -/
theorem not_lt_notANumber (x : Float) : ¬ x < notANumber := by
  rw [lt_iff_compare, unpack_notANumber]
  cases x.toModel.unpack <;> simp [UnpackedFloat.compare]

theorem not_notANumber_lt (x : Float) : ¬ notANumber < x := by
  rw [lt_iff_compare, unpack_notANumber]
  simp [UnpackedFloat.compare]

/-- Nothing is greater than infinity. -/
theorem not_infinity_lt (x : Float) : ¬ infinity < x := by
  have hunpack : infinity.toModel.unpack = .infinity .positive := by rfl
  rw [lt_iff_compare, hunpack]
  cases x.toModel.unpack with
  | infinity sign => cases sign <;> simp [UnpackedFloat.compare, compare]
  | _ => simp [UnpackedFloat.compare]

/-- Every finite number is less than infinity. -/
theorem lt_infinity (h : decode x = .finite negative m e) : x < infinity := by
  have hunpack : infinity.toModel.unpack = .infinity .positive := by rfl
  rw [lt_iff_compare, hunpack]
  rcases Nat.eq_zero_or_pos m with rfl | hm
  · rw [unpack_zero h]
    rfl
  · rw [unpack_finite h hm]
    cases negative <;> rfl

/-- A number is equal to itself unless it is none. -/
theorem beq_self_iff : (x == x) = true ↔ decode x ≠ .nan := by
  change (x.toModel.unpack.compare x.toModel.unpack == some .eq) = true ↔ _
  rw [beq_iff_eq]
  cases h : decode x with
  | nan =>
    rw [eq_of_decode_nan h, unpack_notANumber]
    simp [UnpackedFloat.compare]
  | infinite negative =>
    rw [eq_of_decode_infinite h, unpack_infinite]
    cases negative <;> simp [UnpackedFloat.compare, signOf, compare]
  | finite negative m e =>
    rcases Nat.eq_zero_or_pos m with rfl | hm
    · rw [unpack_zero h]
      simp [UnpackedFloat.compare]
    · rw [unpack_finite h hm]
      cases negative <;> simp [UnpackedFloat.compare, signOf]

/-- **An integer and a finite number compare as what the number is exactly.** -/
theorem compareInt?_eq_lt_iff (h : decode x = .finite negative m e) (n : Int) :
    compareInt? n x = some .lt ↔ (n : ℚ) < exact negative m e := by
  have hexact : exact negative m e = (signed negative m : Int) * 2 ^ e := by
    cases negative <;> simp [exact, signed]
  rw [compareInt?, h, hexact]
  dsimp only
  split
  · next hplace =>
    obtain ⟨k, rfl⟩ := Int.eq_ofNat_of_zero_le hplace
    rw [Option.some.injEq, compare_lt_iff_lt, zpow_natCast]
    norm_cast
  · next hplace =>
    obtain ⟨k, rfl⟩ : ∃ k : Nat, e = -k := ⟨(-e).toNat, by omega⟩
    have hp : (0 : ℚ) < 2 ^ k := by positivity
    rw [Option.some.injEq, compare_lt_iff_lt, neg_neg, Int.toNat_natCast, zpow_neg, zpow_natCast,
      ← div_eq_mul_inv, lt_div_iff₀ hp]
    norm_cast

theorem compareInt?_infinity (n : Int) : compareInt? n infinity = some .lt := by
  have hdecode : decode infinity = .infinite false := by decide +kernel
  rw [compareInt?, hdecode]
  rfl

end WorkflowEngine.Number
