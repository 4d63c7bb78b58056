import Mathlib
import WorkflowEngine.Number.Binary64

/-!
# The bits of a number

A `Float` is its bits: taken apart and put together they give the number again (`ofBits_toBits`),
since of the patterns that are not a number only one is a `Float`. What `decode` tells of a finite
number is canonical, and its sign and magnitude give the bits back (`toBits_of_decode`).
-/

namespace WorkflowEngine.Number

open Float.Model

/-! ## Packed and unpacked -/

theorem toBitVec_ofBitVec (b : BitVec 1) : (UnpackedFloat.Sign.ofBitVec b).toBitVec = b := by
  revert b
  decide

/-- A pattern is its sign, exponent and mantissa in a row. -/
theorem packComponents_unpack {w : BitVec Format.binary64.numBits}
    {exponent : BitVec Format.binary64.exponentBits}
    {mantissa : BitVec Format.binary64.mantissaBitsWithoutImplicit}
    (hexponent : UnpackedFloat.unpackExponent w = exponent)
    (hmantissa : UnpackedFloat.unpackMantissa w = mantissa) :
    UnpackedFloat.packComponents .binary64 (.ofBitVec (UnpackedFloat.unpackSign w)) exponent
      mantissa = w := by
  subst hexponent hmantissa
  simp only [UnpackedFloat.packComponents, toBitVec_ofBitVec, UnpackedFloat.unpackSign,
    UnpackedFloat.unpackExponent, UnpackedFloat.unpackMantissa, BitVec.extractLsb]
  ext i hi
  grind

/-- A finite number is packed with its exponent if its significand has its leading bit. -/
theorem pack_finite {sign : UnpackedFloat.Sign} {m E : Nat} {e : Int} {positive : 0 < m}
    (hE : e + 1075 = E) (small : E < 2047) :
    UnpackedFloat.pack .binary64 (.finite sign m e positive) =
      UnpackedFloat.packComponents .binary64 sign (if m.log2 = 52 then BitVec.ofNat 11 E else 0)
        (BitVec.ofNat 52 m) := by
  have hbias : ((Format.binary64.exponentBias : Nat) : Int) = 1023 := rfl
  have hwidth : ((Format.binary64.mantissaBitsWithoutImplicit : Nat) : Int) = 52 := rfl
  have hbits : Format.binary64.mantissaBits = 53 := rfl
  have hbiased : (e + (Format.binary64.exponentBias : Nat) +
      (Format.binary64.mantissaBitsWithoutImplicit : Nat)).toNat = E := by
    rw [hbias, hwidth]
    omega
  rw [UnpackedFloat.pack]
  simp only [hbiased, hbits]
  rw [if_neg (Nat.not_le.2 (by omega))]
  by_cases hlog : m.log2 = 52
  · rw [if_pos (by omega), if_pos hlog]
  · rw [if_neg (by omega), if_neg hlog]
    rfl

/-- A valid pattern is what its unpacked form is packed into. -/
theorem pack_unpack {w : BitVec Format.binary64.numBits} (valid : Format.binary64.Valid w) :
    UnpackedFloat.pack .binary64 (UnpackedFloat.unpack .binary64 w) = w := by
  have hmantissa : (UnpackedFloat.unpackMantissa w).toNat < 2 ^ 52 :=
    (UnpackedFloat.unpackMantissa w).isLt
  have hexponent : (UnpackedFloat.unpackExponent w).toNat < 2 ^ 11 :=
    (UnpackedFloat.unpackExponent w).isLt
  have hbias : ((Format.binary64.exponentBias : Nat) : Int) = 1023 := rfl
  have hwidth : ((Format.binary64.mantissaBitsWithoutImplicit : Nat) : Int) = 52 := rfl
  rw [UnpackedFloat.unpack]
  split
  · rename_i hones
    split
    · rename_i hzero
      exact packComponents_unpack hones hzero
    · rename_i hpayload
      exact (valid.eq_packedNaN hones hpayload).symm
  · rename_i hones
    split
    · rename_i hnone
      split
      · rename_i hzero
        exact packComponents_unpack hnone hzero
      · rename_i hsome
        -- the exponent is that of the least normal number, but the leading bit is not there
        have hE : (UnpackedFloat.unpackExponent w).toNat = 0 := by rw [hnone]; rfl
        have hlog : (UnpackedFloat.unpackMantissa w).toNat.log2 ≠ 52 := by
          have hne : (UnpackedFloat.unpackMantissa w).toNat ≠ 0 := fun h =>
            hsome (BitVec.toNat_inj.1 (by simpa using h))
          have := (Nat.log2_lt hne).2 hmantissa
          omega
        rw [@pack_finite _ _ 1 _ _ (by rw [hE, hbias, hwidth]; rfl) (by omega), if_neg hlog]
        exact packComponents_unpack hnone (by simp)
    · rename_i hsome
      have hE : (UnpackedFloat.unpackExponent w).toNat ≠ 2047 := fun h =>
        hones (BitVec.toNat_inj.1 (by simpa using h))
      have happend : (1#1 ++ UnpackedFloat.unpackMantissa w).toNat =
          2 ^ 52 + (UnpackedFloat.unpackMantissa w).toNat := by
        rw [BitVec.toNat_append]
        exact (Nat.shiftLeft_add_eq_or_of_lt hmantissa 1).symm
      have hlog : (1#1 ++ UnpackedFloat.unpackMantissa w).toNat.log2 = 52 := by
        rw [happend, Nat.log2_eq_iff (by omega)]
        omega
      rw [@pack_finite _ _ (UnpackedFloat.unpackExponent w).toNat _ _
        (by rw [hbias, hwidth]; omega) (by omega), if_pos hlog]
      refine packComponents_unpack (by simp) (BitVec.toNat_inj.1 ?_)
      rw [BitVec.toNat_ofNat, happend]
      exact (Nat.mod_eq_of_lt hmantissa).symm.trans (Nat.add_mod_left _ _).symm

theorem ofBits_toBits (x : Float) : Float.ofBits x.toBits = x := by
  obtain ⟨bits, valid⟩ := x
  have h : UnpackedFloat.pack .binary64 (UnpackedFloat.unpack .binary64 bits.toBitVec) =
      bits.toBitVec := pack_unpack valid
  simp only [Float.ofBits, Float.toBits, Float.Model.ofBits, Float.Model.pack, h]

/-! ## What decoding tells -/

/-- The significand and the exponent of a finite number: 53 bits at most, and fewer only with the
least exponent. -/
structure Canonical (m : Nat) (e : Int) : Prop where
  short : m < 2 ^ 53
  least : -1074 ≤ e
  greatest : e ≤ 971
  full : -1074 < e → 2 ^ 52 ≤ m

/-- The bits of a finite number, its sign apart. -/
def finiteBits (m : Nat) (e : Int) : Nat :=
  if m < 2 ^ 52 then m else (e + 1075).toNat * 2 ^ 52 + (m - 2 ^ 52)

/-- The bit of a sign. -/
def signBit (negative : Bool) : Nat := if negative then 2 ^ 63 else 0

variable {x : Float} {negative : Bool}

theorem signBit_eq {bits : Nat} (h : bits < 2 ^ 64) :
    signBit (bits / 2 ^ 63 == 1) = bits / 2 ^ 63 * 2 ^ 63 := by
  unfold signBit
  cases hsign : bits / 2 ^ 63 == 1 with
  | true => rw [if_pos rfl, eq_of_beq hsign, Nat.one_mul]
  | false =>
    have hne : bits / 2 ^ 63 ≠ 1 := by simpa using hsign
    rw [if_neg (by simp)]
    omega

/-- **The sign and the magnitude that decoding tells give the bits back.** -/
theorem toBits_of_decode {m : Nat} {e : Int} (h : decode x = .finite negative m e) :
    Canonical m e ∧ x.toBits.toNat = finiteBits m e + signBit negative := by
  have hbound : x.toBits.toNat < 2 ^ 64 := x.toBits.toNat_lt
  unfold decode at h
  simp only [show Nat.pow 2 63 = 2 ^ 63 from rfl, show Nat.pow 2 52 = 2 ^ 52 from rfl] at h
  generalize x.toBits.toNat = bits at h hbound ⊢
  split at h
  · split at h <;> cases h
  · rename_i hfinite
    split at h
    · rename_i hleast
      injection h with hsign hm he
      subst hsign hm he
      refine ⟨⟨by omega, by omega, by omega, by omega⟩, ?_⟩
      rw [finiteBits, if_pos (Nat.mod_lt _ (by omega)), signBit_eq hbound]
      omega
    · rename_i hleast
      injection h with hsign hm he
      subst hsign hm he
      refine ⟨⟨by omega, by omega, by omega, by omega⟩, ?_⟩
      rw [finiteBits, if_neg (by omega), signBit_eq hbound]
      omega

/-- A number is told by its bits. -/
theorem eq_ofBits {bits : UInt64} (h : x.toBits.toNat = bits.toNat) : x = Float.ofBits bits := by
  rw [← ofBits_toBits x, UInt64.toNat_inj.1 h]

/-- An infinity is one of the two. -/
theorem eq_of_decode_infinite (h : decode x = .infinite negative) :
    x = if negative then negativeInfinity else infinity := by
  have hbound : x.toBits.toNat < 2 ^ 64 := x.toBits.toNat_lt
  unfold decode at h
  simp only [show Nat.pow 2 63 = 2 ^ 63 from rfl, show Nat.pow 2 52 = 2 ^ 52 from rfl] at h
  split at h
  · rename_i hones
    split at h
    · rename_i hzero
      injection h with hsign
      have hbits := signBit_eq hbound
      rw [hsign] at hbits
      cases negative with
      | true =>
        refine eq_ofBits ?_
        change _ = 0xFFF0000000000000
        rw [show signBit true = 2 ^ 63 from rfl] at hbits
        omega
      | false =>
        refine eq_ofBits ?_
        change _ = 0x7FF0000000000000
        rw [show signBit false = 0 from rfl] at hbits
        omega
    · cases h
  · split at h <;> cases h

theorem toNat_unpackExponent (x : Float) :
    (@UnpackedFloat.unpackExponent .binary64 x.toModel.toBits.toBitVec).toNat =
      x.toBits.toNat / 2 ^ 52 % 2048 := by
  simp only [UnpackedFloat.unpackExponent, BitVec.extractLsb, BitVec.toNat_cast,
    BitVec.extractLsb'_toNat, Nat.shiftRight_eq_div_pow]
  rfl

theorem toNat_unpackMantissa (x : Float) :
    (@UnpackedFloat.unpackMantissa .binary64 x.toModel.toBits.toBitVec).toNat =
      x.toBits.toNat % 2 ^ 52 := by
  simp only [UnpackedFloat.unpackMantissa, BitVec.extractLsb, BitVec.toNat_cast,
    BitVec.extractLsb'_toNat, Nat.shiftRight_zero]
  rfl

/-- What is not a number is the one value that is not. -/
theorem eq_of_decode_nan (h : decode x = .nan) : x = notANumber := by
  unfold decode at h
  simp only [show Nat.pow 2 63 = 2 ^ 63 from rfl, show Nat.pow 2 52 = 2 ^ 52 from rfl] at h
  split at h
  · rename_i hones
    split at h
    · cases h
    · rename_i hpayload
      have hvalid := x.toModel.valid.eq_packedNaN
        (BitVec.toNat_inj.1 ((toNat_unpackExponent x).trans hones))
        (fun hzero => hpayload ((toNat_unpackMantissa x).symm.trans (congrArg BitVec.toNat hzero)))
      exact eq_ofBits (congrArg BitVec.toNat hvalid)
  · split at h <;> cases h

end WorkflowEngine.Number
