import WorkflowEngine.Proofs.Number.Order

/-!
# The number nearest to a quotient

The number nearest to a quotient is an infinity, or it is the quotient with its significand rounded
(`decode_nearest`). Rounding keeps the order (`not_nearest_lt`), and what is a number exactly is not
changed by it (`nearest_of_exact`).
-/

namespace WorkflowEngine.Number

open Float.Model

variable {x : Float} {negative negative' : Bool} {m m' num den num' den' : Nat} {e e' : Int}

/-! ## Finite numbers by their parts -/

theorem toBits_ofBits {bits : UInt64} (h : bits.toNat / 2 ^ 52 % 2048 ≠ 2047) :
    (Float.ofBits bits).toBits = bits := by
  have hexponent : (@UnpackedFloat.unpackExponent .binary64 bits.toBitVec).toNat =
      bits.toNat / 2 ^ 52 % 2048 := by
    simp only [UnpackedFloat.unpackExponent, BitVec.extractLsb, BitVec.toNat_cast,
      BitVec.extractLsb'_toNat, Nat.shiftRight_eq_div_pow]
    rfl
  have hvalid : Format.binary64.Valid bits.toBitVec :=
    ⟨fun hones _ => absurd (hexponent.symm.trans (congrArg BitVec.toNat hones)) h⟩
  exact congrArg UInt64.ofBitVec (pack_unpack hvalid)

/-- The finite number with a sign, a significand and an exponent. -/
def ofParts (negative : Bool) (m : Nat) (e : Int) : Float :=
  Float.ofBits (UInt64.ofNat (finiteBits m e + signBit negative))

theorem decode_ofParts (h : Canonical m e) (negative : Bool) :
    decode (ofParts negative m e) = .finite negative m e := by
  have hshort := h.short
  have hleast := h.least
  have hgreatest := h.greatest
  have hfull := h.full
  have hsign : signBit negative = 0 ∨ signBit negative = 2 ^ 63 := by cases negative <;> simp [signBit]
  have hnegative : ∀ b < 2 ^ 63, ((b + signBit negative) / 2 ^ 63 == 1) = negative := by
    intro b hb
    cases negative <;> simp only [signBit, if_true, Bool.false_eq_true, if_false, beq_iff_eq,
      beq_eq_false_iff_ne] <;> omega
  obtain ⟨bits, hbits⟩ : ∃ bits, finiteBits m e + signBit negative = bits := ⟨_, rfl⟩
  have hlow : finiteBits m e < 2 ^ 63 := by
    unfold finiteBits
    split <;> omega
  have hnat : (UInt64.ofNat bits).toNat = bits := by
    rw [UInt64.toNat_ofNat', Nat.mod_eq_of_lt]
    omega
  have hfield : bits / 2 ^ 52 % 2048 = if m < 2 ^ 52 then 0 else (e + 1075).toNat := by
    unfold finiteBits at hbits
    split <;> rename_i hm <;> simp only [hm, if_true, if_false] at hbits <;> omega
  have htoBits : (ofParts negative m e).toBits.toNat = bits := by
    rw [ofParts, hbits, toBits_ofBits, hnat]
    rw [hnat, hfield]
    split <;> omega
  unfold decode
  simp only [show Nat.pow 2 63 = 2 ^ 63 from rfl, show Nat.pow 2 52 = 2 ^ 52 from rfl, htoBits,
    hfield]
  rw [← hbits, hnegative _ hlow]
  unfold finiteBits
  by_cases hm : m < 2 ^ 52
  · simp only [hm, if_true]
    rw [if_neg (by omega)]
    have he : e = -1074 := by
      by_contra hne
      have := hfull (by omega)
      omega
    rw [he]
    congr 1
    omega
  · simp only [hm, if_false]
    rw [if_neg (by omega), if_neg (by omega)]
    congr 1 <;> omega

/-- What a number is unpacked into is packed into the number again. -/
theorem ofModel_pack_unpack (x : Float) : Float.ofModel (Float.Model.pack x.toModel.unpack) = x :=
  ofBits_toBits x

theorem ofModel_pack_finite (h : Canonical m e) (hm : 0 < m) (negative : Bool) :
    Float.ofModel (Float.Model.pack (.finite (signOf negative) m e hm)) = ofParts negative m e := by
  rw [← unpack_finite (decode_ofParts h negative) hm, ofModel_pack_unpack]

/-- A number whose exponent is too large is packed into an infinity. -/
theorem ofModel_pack_large (h : 971 < e) (hm : 0 < m) (negative : Bool) :
    Float.ofModel (Float.Model.pack (.finite (signOf negative) m e hm)) =
      if negative then negativeInfinity else infinity := by
  have hbias : ((Format.binary64.exponentBias : Nat) : Int) = 1023 := rfl
  have hwidth : ((Format.binary64.mantissaBitsWithoutImplicit : Nat) : Int) = 52 := rfl
  have hpack : UnpackedFloat.pack .binary64 (.finite (signOf negative) m e hm) =
      UnpackedFloat.packedInfinity .binary64 (signOf negative) := by
    rw [UnpackedFloat.pack]
    simp only [hbias, hwidth]
    rw [if_pos (by omega)]
  have hmodel : Float.Model.pack (.finite (signOf negative) m e hm) =
      Float.Model.pack (.infinity (signOf negative)) := by
    simp only [Float.Model.pack, hpack]
    rfl
  rw [hmodel]
  cases negative <;> rfl

/-! ## Rounding a quotient -/

/-- A half is rounded to an even number. -/
theorem roundQuotient_even {n d : Nat} (hd : 0 < d)
    (h : 2 * (roundQuotient n d * d) = 2 * n + d ∨ 2 * n = 2 * (roundQuotient n d * d) + d) :
    roundQuotient n d % 2 = 0 := by
  have hn := Nat.div_add_mod n d
  have hr := Nat.mod_lt n hd
  have hself : n / d * d = d * (n / d) := Nat.mul_comm _ _
  have hsucc : (n / d + 1) * d = d * (n / d) + d := by ring
  unfold roundQuotient at h ⊢
  dsimp only at h ⊢
  split at h <;> rename_i hlow
  · rw [hself] at h
    omega
  · rw [if_neg hlow]
    split at h <;> rename_i hhigh
    · rw [hsucc] at h
      omega
    · rw [if_neg hhigh]
      split <;> omega

/-- The greater quotient is rounded to the greater number. -/
theorem roundQuotient_mono {n d n' d' : Nat} (hd : 0 < d) (hd' : 0 < d')
    (h : (n / d : ℚ) ≤ n' / d') : roundQuotient n d ≤ roundQuotient n' d' := by
  by_contra hless
  have hstep : (roundQuotient n' d' : ℚ) + 1 ≤ roundQuotient n d := by
    exact_mod_cast not_le.1 hless
  have hq : (0 : ℚ) < d := by exact_mod_cast hd
  have hq' : (0 : ℚ) < d' := by exact_mod_cast hd'
  have hlow : (roundQuotient n d : ℚ) - 1 / 2 ≤ n / d := by
    rw [le_div_iff₀ hq]
    have : (2 * (roundQuotient n d * d) : ℚ) ≤ 2 * n + d := by
      exact_mod_cast (roundQuotient_near n hd).1
    linarith
  have hhigh : (n' / d' : ℚ) ≤ roundQuotient n' d' + 1 / 2 := by
    rw [div_le_iff₀ hq']
    have : (2 * n' : ℚ) ≤ 2 * (roundQuotient n' d' * d') + d' := by
      exact_mod_cast (roundQuotient_near n' hd').2
    linarith
  -- the two can only be one half apart from each other's number, and both would be even
  have heq : (n / d : ℚ) = roundQuotient n d - 1 / 2 := by linarith
  have heq' : (n' / d' : ℚ) = roundQuotient n' d' + 1 / 2 := by linarith
  have heven : roundQuotient n d % 2 = 0 := by
    refine roundQuotient_even hd (.inl ?_)
    rw [div_eq_iff hq.ne'] at heq
    have : (2 * (roundQuotient n d * d) : ℚ) = 2 * n + d := by linarith
    exact_mod_cast this
  have heven' : roundQuotient n' d' % 2 = 0 := by
    refine roundQuotient_even hd' (.inr ?_)
    rw [div_eq_iff hq'.ne'] at heq'
    have : (2 * n' : ℚ) = 2 * (roundQuotient n' d' * d') + d' := by linarith
    exact_mod_cast this
  have hnext : (roundQuotient n d : ℚ) = (roundQuotient n' d' + 1 : Nat) := by
    push_cast
    linarith
  have : roundQuotient n d = roundQuotient n' d' + 1 := by exact_mod_cast hnext
  omega

theorem roundQuotient_congr {n d n' d' : Nat} (hd : 0 < d) (hd' : 0 < d')
    (h : (n / d : ℚ) = n' / d') : roundQuotient n d = roundQuotient n' d' :=
  le_antisymm (roundQuotient_mono hd hd' h.le) (roundQuotient_mono hd' hd h.ge)

theorem roundQuotient_one (n : Nat) : roundQuotient n 1 = n := by
  simp [roundQuotient, Nat.mod_one]

/-! ## The nearest number as a rational number -/

/-- The exponent of a quotient is known by the powers of two around it. -/
theorem quotientExponent_eq (hnum : 0 < num) (hden : 0 < den) (least : -1074 ≤ e)
    (high : (num / den : ℚ) < 2 ^ (e + 53)) (low : -1074 < e → 2 ^ (e + 52) ≤ (num / den : ℚ)) :
    quotientExponent num den = e := by
  obtain ⟨hleast, hhigh, hlow⟩ := quotientExponent_spec hnum hden
  rcases lt_trichotomy (quotientExponent num den) e with hlt | heq | hgt
  · have := two_zpow_le ((low (by omega)).trans_lt hhigh)
    omega
  · exact heq
  · have := two_zpow_le ((hlow (by omega)).trans_lt high)
    omega

/-- The significand of the number nearest to a quotient, before a carry. -/
def significand (num den : Nat) : Nat :=
  let s := scaleDown num den (quotientExponent num den)
  roundQuotient s.1 s.2

/-- What the number nearest to a quotient is exactly, if it is finite. -/
def rounded (num den : Nat) : ℚ := significand num den * 2 ^ quotientExponent num den

theorem scaled_value (num : Nat) {den : Nat} (hden : 0 < den) :
    0 < (scaleDown num den (quotientExponent num den)).2 ∧
      ((scaleDown num den (quotientExponent num den)).1 /
        (scaleDown num den (quotientExponent num den)).2 : ℚ) * 2 ^ quotientExponent num den =
          num / den :=
  scaleDown_spec hden rfl

/-- A quotient of the same value at its exponent is rounded to the significand. -/
theorem significand_eq {n d : Nat} (hden : 0 < den) (hd : 0 < d)
    (h : (n / d : ℚ) * 2 ^ quotientExponent num den = num / den) :
    significand num den = roundQuotient n d := by
  obtain ⟨hd', hvalue⟩ := scaled_value num hden
  refine roundQuotient_congr hd' hd ?_
  exact mul_right_cancel₀ (two_zpow_pos (quotientExponent num den)).ne' (hvalue.trans h.symm)

/-- The significand has 53 bits, or is the power of two after them, and fewer bits only with the
least exponent. -/
theorem significand_bounds (hnum : 0 < num) (hden : 0 < den) :
    significand num den ≤ 2 ^ 53 ∧
      (-1074 < quotientExponent num den → 2 ^ 52 ≤ significand num den) := by
  obtain ⟨hleast, hhigh, hlow⟩ := quotientExponent_spec hnum hden
  have hp := two_zpow_pos (quotientExponent num den)
  obtain ⟨hd, hvalue⟩ := scaled_value num hden
  rw [← hvalue] at hhigh hlow
  constructor
  · rw [← roundQuotient_one (2 ^ 53)]
    refine roundQuotient_mono hd Nat.one_pos ?_
    rw [add_comm, two_zpow_add] at hhigh
    have := (lt_of_mul_lt_mul_right hhigh hp.le).le
    push_cast
    norm_num at this ⊢
    exact this
  · intro hnormal
    rw [← roundQuotient_one (2 ^ 52)]
    refine roundQuotient_mono Nat.one_pos hd ?_
    have hle := hlow hnormal
    rw [add_comm, two_zpow_add] at hle
    have := le_of_mul_le_mul_right hle hp
    push_cast
    norm_num at this ⊢
    exact this

/-- A significand that has grown by rounding is halved, and its exponent raised. -/
def carry (m : Nat) (e : Int) : Nat × Int := if m = 2 ^ 53 then (2 ^ 52, e + 1) else (m, e)

theorem carry_value (m : Nat) (e : Int) : ((carry m e).1 * 2 ^ (carry m e).2 : ℚ) = m * 2 ^ e := by
  unfold carry
  split
  · rename_i hm
    rw [hm, zpow_add_one₀ two_ne_zero]
    push_cast
    ring
  · rfl

theorem carry_canonical (short : m ≤ 2 ^ 53) (least : -1074 ≤ e) (full : -1074 < e → 2 ^ 52 ≤ m)
    (greatest : (carry m e).2 ≤ 971) : Canonical (carry m e).1 (carry m e).2 := by
  unfold carry at greatest ⊢
  split at greatest <;> rename_i hm
  · rw [if_pos hm]
    exact ⟨by norm_num, by simp only; omega, greatest, fun _ => le_rfl⟩
  · rw [if_neg hm]
    exact ⟨lt_of_le_of_ne short hm, least, greatest, full⟩

/-- The number nearest to a quotient by its parts. -/
theorem nearest_eq_parts (hnum : 0 < num) (negative : Bool) :
    nearest negative num den =
      let parts := carry (significand num den) (quotientExponent num den)
      if 971 < parts.2 then (if negative then negativeInfinity else infinity)
      else ofParts negative parts.1 parts.2 := by
  have hbits := @nearestBits_of_round num den _ _ _ hnum rfl rfl
  rw [nearest, hbits]
  change Float.ofBits (UInt64.ofNat ((if 971 < (carry (significand num den) _).2 then _ else
    finiteBits (carry (significand num den) _).1 (carry (significand num den) _).2) + _)) = _
  dsimp only
  split
  · cases negative <;> rfl
  · rfl

theorem decode_infinity (negative : Bool) :
    decode (if negative then negativeInfinity else infinity) = .infinite negative := by
  cases negative <;> decide +kernel

theorem canonical_zero : Canonical 0 (-1074) := ⟨by decide, le_rfl, by decide, by decide⟩

theorem nearest_zero_eq (negative : Bool) (den : Nat) :
    nearest negative 0 den = ofParts negative 0 (-1074) :=
  nearest_zero (decode_ofParts canonical_zero negative) den

theorem rounded_zero (den : Nat) : rounded 0 den = 0 := by
  have hscale : (scaleDown 0 den (quotientExponent 0 den)).1 = 0 := by
    unfold scaleDown
    split <;> simp
  have hzero : significand 0 den = 0 := by
    unfold significand
    dsimp only
    rw [hscale]
    simp [roundQuotient]
  rw [rounded, hzero, Nat.cast_zero, zero_mul]

/-- **What decoding tells of the number nearest to a quotient**: it is an infinity if the rounded
quotient is too large, and else it is the rounded quotient. -/
theorem decode_nearest (num : Nat) (hden : 0 < den) (negative : Bool) :
    2 ^ 1024 ≤ rounded num den ∧ decode (nearest negative num den) = .infinite negative ∨
    rounded num den < 2 ^ 1024 ∧ ∃ m e, decode (nearest negative num den) = .finite negative m e ∧
      (m * 2 ^ e : ℚ) = rounded num den := by
  rcases Nat.eq_zero_or_pos num with rfl | hnum
  · right
    rw [rounded_zero]
    refine ⟨by positivity, 0, -1074, ?_, by simp⟩
    rw [nearest_zero_eq]
    exact decode_ofParts canonical_zero negative
  obtain ⟨hshort, hfull⟩ := significand_bounds hnum hden
  obtain ⟨hleast, -, -⟩ := quotientExponent_spec hnum hden
  have hvalue := carry_value (significand num den) (quotientExponent num den)
  have hcanonical := carry_canonical hshort hleast hfull
  have hnearest := @nearest_eq_parts num den hnum negative
  have hwhole : -1074 < (carry (significand num den) (quotientExponent num den)).2 →
      2 ^ 52 ≤ (carry (significand num den) (quotientExponent num den)).1 := by
    unfold carry
    split
    · exact fun _ => le_rfl
    · exact hfull
  rw [rounded, ← hvalue]
  generalize carry (significand num den) (quotientExponent num den) = parts at *
  dsimp only at hnearest
  by_cases hlarge : 971 < parts.2
  · left
    rw [if_pos hlarge] at hnearest
    refine ⟨?_, hnearest ▸ decode_infinity negative⟩
    have hm : (2 : ℚ) ^ (52 : Int) ≤ parts.1 := by exact_mod_cast hwhole (by omega)
    calc (2 : ℚ) ^ 1024 = 2 ^ ((52 : Int) + 972) := by norm_num
      _ = 2 ^ (52 : Int) * 2 ^ (972 : Int) := two_zpow_add _ _
      _ ≤ parts.1 * 2 ^ parts.2 := mul_le_mul hm (zpow_le_zpow_right₀ one_le_two (by omega))
        (two_zpow_pos _).le (by positivity)
  · right
    rw [if_neg hlarge] at hnearest
    have hparts := hcanonical (by omega)
    refine ⟨?_, parts.1, parts.2, hnearest ▸ decode_ofParts hparts negative, rfl⟩
    have hm : (parts.1 : ℚ) < 2 ^ (53 : Int) := by exact_mod_cast hparts.short
    calc (parts.1 * 2 ^ parts.2 : ℚ) < 2 ^ (53 : Int) * 2 ^ parts.2 :=
          mul_lt_mul_of_pos_right hm (two_zpow_pos _)
      _ = 2 ^ (53 + parts.2) := (two_zpow_add _ _).symm
      _ ≤ 2 ^ (1024 : Int) := zpow_le_zpow_right₀ one_le_two (by omega)
      _ = 2 ^ 1024 := by norm_num

/-- The greater quotient is rounded to the greater number. -/
theorem rounded_mono (hden : 0 < den) (hden' : 0 < den') (h : (num / den : ℚ) ≤ num' / den') :
    rounded num den ≤ rounded num' den' := by
  rcases Nat.eq_zero_or_pos num with rfl | hnum
  · rw [rounded_zero]
    exact mul_nonneg (Nat.cast_nonneg _) (two_zpow_pos _).le
  have hnum' : 0 < num' := by
    by_contra hzero
    rw [show num' = 0 by omega, Nat.cast_zero, zero_div] at h
    have : (0 : ℚ) < num / den := by positivity
    linarith
  obtain ⟨hleast, hhigh, hlow⟩ := quotientExponent_spec hnum hden
  obtain ⟨hleast', hhigh', hlow'⟩ := quotientExponent_spec hnum' hden'
  obtain ⟨hshort, -⟩ := significand_bounds hnum hden
  obtain ⟨-, hfull'⟩ := significand_bounds hnum' hden'
  have hexponent : quotientExponent num den ≤ quotientExponent num' den' := by
    rcases eq_or_lt_of_le hleast with hmin | hnormal
    · omega
    · have := two_zpow_le ((hlow hnormal).trans_lt (h.trans_lt hhigh'))
      omega
  unfold rounded
  rcases eq_or_lt_of_le hexponent with heq | hlt
  · obtain ⟨hd, hvalue⟩ := scaled_value num hden
    obtain ⟨hd', hvalue'⟩ := scaled_value num' hden'
    have hp := two_zpow_pos (quotientExponent num den)
    have hsignificand : significand num den ≤ significand num' den' := by
      refine roundQuotient_mono hd hd' (le_of_mul_le_mul_right ?_ hp)
      rw [hvalue, heq, hvalue']
      exact h
    rw [← heq]
    exact mul_le_mul_of_nonneg_right (by exact_mod_cast hsignificand) hp.le
  · have hm : (significand num den : ℚ) ≤ 2 ^ (53 : Int) := by exact_mod_cast hshort
    have hm' : (2 : ℚ) ^ (52 : Int) ≤ significand num' den' := by
      exact_mod_cast hfull' (by omega)
    calc (significand num den * 2 ^ quotientExponent num den : ℚ)
        ≤ 2 ^ (53 : Int) * 2 ^ quotientExponent num den :=
          mul_le_mul_of_nonneg_right hm (two_zpow_pos _).le
      _ = 2 ^ (53 + quotientExponent num den) := (two_zpow_add _ _).symm
      _ ≤ 2 ^ (52 + quotientExponent num' den') := zpow_le_zpow_right₀ one_le_two (by omega)
      _ = 2 ^ (52 : Int) * 2 ^ quotientExponent num' den' := two_zpow_add _ _
      _ ≤ significand num' den' * 2 ^ quotientExponent num' den' :=
          mul_le_mul_of_nonneg_right hm' (two_zpow_pos _).le

/-- The sign of zero does not count. -/
theorem exact_of_sign (e : Int) (h : negative = true → m = 0) : exact negative m e = m * 2 ^ e := by
  cases negative with
  | false => rfl
  | true => simp [exact, h rfl]

/-- A significand is zero where it is that of a quotient rounded to zero. -/
theorem sign_of_rounded (hsign : negative = true → num = 0)
    (hvalue : (m * 2 ^ e : ℚ) = rounded num den) : negative = true → m = 0 := by
  intro hnegative
  rw [hsign hnegative, rounded_zero] at hvalue
  exact_mod_cast (mul_eq_zero.1 hvalue).resolve_right (two_zpow_pos e).ne'

/-- **The number nearest to the greater quotient is not less.** -/
theorem not_nearest_lt (hden : 0 < den) (hden' : 0 < den') (h : (num / den : ℚ) ≤ num' / den')
    (hsign : negative = true → num = 0) (hsign' : negative' = true → num' = 0) :
    ¬ nearest negative' num' den' < nearest negative num den := by
  have hmono := rounded_mono hden hden' h
  rcases decode_nearest num' hden' negative' with
    ⟨hbig', hlarge'⟩ | ⟨hsmall', m', e', hfinite', hvalue'⟩
  · cases negative' with
    | false =>
      rw [eq_of_decode_infinite hlarge']
      exact not_infinity_lt _
    | true =>
      rw [hsign' rfl, rounded_zero] at hbig'
      exact absurd hbig' (by norm_num)
  · rcases decode_nearest num hden negative with ⟨hbig, -⟩ | ⟨-, m, e, hfinite, hvalue⟩
    · exact absurd (hbig.trans hmono) (not_le.2 hsmall')
    · rw [lt_iff_exact hfinite' hfinite, exact_of_sign e (sign_of_rounded hsign hvalue),
        exact_of_sign e' (sign_of_rounded hsign' hvalue'), hvalue, hvalue', not_lt]
      exact hmono

/-- A number that is exactly a quotient is nearest to it. -/
theorem nearest_of_exact (h : decode x = .finite negative m e) (hden : 0 < den)
    (hvalue : (num / den : ℚ) = m * 2 ^ e) : nearest negative num den = x := by
  have hp := two_zpow_pos e
  rcases Nat.eq_zero_or_pos m with rfl | hm
  · have hnum : num = 0 := by
      have hq : (den : ℚ) ≠ 0 := by positivity
      rw [Nat.cast_zero, zero_mul, div_eq_zero_iff, or_iff_left hq] at hvalue
      exact_mod_cast hvalue
    rw [hnum, nearest_zero h]
  · refine nearest_eq h hm hden ?_
    have hlow : lowEnd m e < m * 2 ^ e := by
      unfold lowEnd
      split <;> linarith
    have hhigh : m * 2 ^ e < highEnd m e := by
      unfold highEnd
      linarith
    rw [hvalue]
    exact ⟨hlow.le, hhigh.le, fun h => h.elim (fun h => absurd h hlow.ne') fun h => absurd h hhigh.ne⟩

/-! ## Whole numbers -/

/-- A whole number of at most 53 bits is a number exactly. -/
theorem decode_whole {k : Nat} (h : k < 2 ^ 53) :
    ∃ m e, decode (nearest false k 1) = .finite false m e ∧ (m * 2 ^ e : ℚ) = k := by
  rcases Nat.eq_zero_or_pos k with rfl | hpos
  · rw [nearest_zero_eq]
    exact ⟨0, -1074, decode_ofParts canonical_zero false, by simp⟩
  · have hlog : k.log2 ≤ 52 := by
      have := (Nat.log2_lt hpos.ne').2 h
      omega
    have hlow := Nat.log2_self_le hpos.ne'
    have hhigh := @Nat.lt_log2_self k
    have hcanonical : Canonical (k * 2 ^ (52 - k.log2)) (k.log2 - 52 : Int) := by
      refine ⟨?_, by omega, by omega, fun _ => ?_⟩
      · calc k * 2 ^ (52 - k.log2) < 2 ^ (k.log2 + 1) * 2 ^ (52 - k.log2) :=
              Nat.mul_lt_mul_of_pos_right hhigh (by positivity)
          _ = 2 ^ 53 := by rw [← Nat.pow_add]; congr 1; omega
      · calc 2 ^ 52 = 2 ^ k.log2 * 2 ^ (52 - k.log2) := by rw [← Nat.pow_add]; congr 1; omega
          _ ≤ k * 2 ^ (52 - k.log2) := Nat.mul_le_mul_right _ hlow
    have hvalue : ((k * 2 ^ (52 - k.log2) : Nat) * 2 ^ (k.log2 - 52 : Int) : ℚ) = k := by
      have hpower : (2 : ℚ) ^ (52 - k.log2) = 2 ^ (((52 - k.log2 : Nat)) : Int) :=
        (zpow_natCast 2 _).symm
      push_cast
      rw [hpower, mul_assoc, ← two_zpow_add,
        show ((52 - k.log2 : Nat) : Int) + (k.log2 - 52) = 0 by omega, zpow_zero, mul_one]
    have hdecode := decode_ofParts hcanonical false
    refine ⟨_, _, ?_, hvalue⟩
    rw [nearest_of_exact hdecode Nat.one_pos (by rw [hvalue]; simp)]
    exact hdecode

theorem decode_positive {k : Nat} (hk : 0 < k) (h : k < 2 ^ 53) :
    ∃ m e, decode (nearest false k 1) = .finite false m e ∧ 0 < m ∧ (m * 2 ^ e : ℚ) = k := by
  obtain ⟨m, e, hdecode, hvalue⟩ := decode_whole h
  have hpos : (0 : ℚ) < m * 2 ^ e := by
    rw [hvalue]
    exact_mod_cast hk
  exact ⟨m, e, hdecode, by exact_mod_cast (mul_pos_iff_of_pos_right (two_zpow_pos e)).1 hpos, hvalue⟩

end WorkflowEngine.Number
