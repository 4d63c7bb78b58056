import Mathlib.Algebra.Group.Nat.Defs
import Mathlib.Data.List.Induction
import WorkflowEngine.Number.Printed
import WorkflowEngine.Number.Written

/-!
# Decimal digits

The digits of a natural number and the number that digits write are inverse (`ofDigits_digitsOf`),
and how many digits there are tells how large the number is. Zeros at the end only shift.
-/

namespace WorkflowEngine.Number

/-! ## What digits write -/

theorem ofDigits_append (ds es : List Nat) :
    ofDigits (ds ++ es) = ofDigits ds * 10 ^ es.length + ofDigits es := by
  induction es using List.reverseRecOn with
  | nil => simp [ofDigits]
  | append_singleton es e ih =>
    simp only [ofDigits, ← List.append_assoc, List.foldl_append, List.foldl_cons, List.foldl_nil,
      List.length_append, List.length_singleton] at ih ⊢
    rw [ih, Nat.pow_succ, Nat.add_mul, Nat.mul_assoc, Nat.add_assoc]

theorem ofDigits_zeros (k : Nat) : ofDigits (List.replicate k 0) = 0 := by
  induction k with
  | zero => rfl
  | succ k ih => simpa [ofDigits, List.replicate_succ] using ih

theorem ofDigits_lt {ds : List Nat} (h : ∀ d ∈ ds, d < 10) : ofDigits ds < 10 ^ ds.length := by
  induction ds using List.reverseRecOn with
  | nil => simp [ofDigits]
  | append_singleton ds d ih =>
    have hds := ih fun d hd => h d (by simp [hd])
    have hd := h d (by simp)
    rw [ofDigits_append, List.length_append, Nat.pow_add]
    simp [ofDigits] at hds ⊢
    omega

/-- Digits of which the first is not zero write a number that needs all of them. -/
theorem le_ofDigits {d : Nat} (ds : List Nat) (h : d ≠ 0) :
    10 ^ ds.length ≤ ofDigits (d :: ds) := by
  have hcons := ofDigits_append [d] ds
  rw [List.singleton_append] at hcons
  have hfirst : ofDigits [d] = d := by simp [ofDigits]
  rw [hcons, hfirst]
  have := Nat.mul_le_mul_right (10 ^ ds.length) (show 1 ≤ d by omega)
  omega

/-! ## The digits of a number -/

theorem digitsOnto_eq (n : Nat) : ∀ rest, digitsOnto n rest = digitsOf n ++ rest := by
  induction n using Nat.strongRecOn with
  | ind n ih =>
    intro rest
    have hstep : ∀ rest, digitsOnto n rest =
        if n < 10 then n :: rest else digitsOnto (n / 10) (n % 10 :: rest) := fun rest => by
      rw [digitsOnto]
    rw [digitsOf, hstep, hstep]
    split
    · rfl
    · rename_i h
      have hlt : n / 10 < n := by omega
      rw [ih _ hlt (n % 10 :: rest), ih _ hlt [n % 10], List.append_assoc]
      rfl

theorem digitsOf_lt {n : Nat} (h : n < 10) : digitsOf n = [n] := by
  rw [digitsOf, digitsOnto, if_pos h]

theorem digitsOf_ge {n : Nat} (h : 10 ≤ n) : digitsOf n = digitsOf (n / 10) ++ [n % 10] := by
  rw [digitsOf, digitsOnto, if_neg (by omega), digitsOnto_eq]

theorem digitsOf_digit (n : Nat) : ∀ d ∈ digitsOf n, d < 10 := by
  induction n using Nat.strongRecOn with
  | ind n ih =>
    rcases Nat.lt_or_ge n 10 with h | h
    · rw [digitsOf_lt h]
      simpa using h
    · rw [digitsOf_ge h]
      intro d hd
      rcases List.mem_append.1 hd with hd | hd
      · exact ih _ (by omega) d hd
      · rw [List.mem_singleton.1 hd]
        omega

/-- **The digits of a number write it.** -/
theorem ofDigits_digitsOf (n : Nat) : ofDigits (digitsOf n) = n := by
  induction n using Nat.strongRecOn with
  | ind n ih =>
    rcases Nat.lt_or_ge n 10 with h | h
    · rw [digitsOf_lt h]
      simp [ofDigits]
    · rw [digitsOf_ge h, ofDigits_append, ih _ (by omega)]
      simp only [List.length_singleton, ofDigits, List.foldl_cons, List.foldl_nil]
      omega

/-- The digits of a number but zero do not begin with a zero. -/
theorem digitsOf_head {n : Nat} (h : 0 < n) : ∃ d ds, digitsOf n = d :: ds ∧ d ≠ 0 := by
  induction n using Nat.strongRecOn with
  | ind n ih =>
    rcases Nat.lt_or_ge n 10 with hlt | hge
    · exact ⟨n, [], digitsOf_lt hlt, by omega⟩
    · obtain ⟨d, ds, hds, hd⟩ := ih (n / 10) (by omega) (by omega)
      exact ⟨d, ds ++ [n % 10], by rw [digitsOf_ge hge, hds]; rfl, hd⟩

theorem digitsOf_ne_nil (n : Nat) : digitsOf n ≠ [] := by
  rcases Nat.eq_zero_or_pos n with rfl | h
  · rw [digitsOf_lt (by omega)]
    simp
  · obtain ⟨d, ds, hds, _⟩ := digitsOf_head h
    simp [hds]

theorem lt_pow_length (n : Nat) : n < 10 ^ (digitsOf n).length := by
  have := ofDigits_lt (digitsOf_digit n)
  rwa [ofDigits_digitsOf] at this

theorem pow_length_le {n : Nat} (h : 0 < n) : 10 ^ ((digitsOf n).length - 1) ≤ n := by
  obtain ⟨d, ds, hds, hd⟩ := digitsOf_head h
  have hle := le_ofDigits ds hd
  rw [← hds, ofDigits_digitsOf] at hle
  simpa [hds] using hle

/-- A number below a power of ten has no more digits than the power has zeros, but always one. -/
theorem digitsOf_length_le {n k : Nat} (h : n < 10 ^ k) (hk : 0 < k) : (digitsOf n).length ≤ k := by
  rcases Nat.eq_zero_or_pos n with rfl | hn
  · rw [digitsOf_lt (by omega)]
    exact hk
  · have := (Nat.pow_lt_pow_iff_right (by omega : 1 < 10)).1
      (Nat.lt_of_le_of_lt (pow_length_le hn) h)
    omega

/-! ## Zeros at the end -/

/-- Digits are those that are left without the zeros at their end, and these zeros. -/
theorem dropTrailingZeros_append (ds : List Nat) :
    ∃ k, ds = dropTrailingZeros ds ++ List.replicate k 0 := by
  refine ⟨(ds.reverse.takeWhile (· == 0)).length, ?_⟩
  have hzeros : ds.reverse.takeWhile (· == 0) =
      List.replicate (ds.reverse.takeWhile (· == 0)).length 0 :=
    List.eq_replicate_of_mem fun d hd => eq_of_beq (List.all_eq_true.1 (List.all_takeWhile) d hd)
  calc ds = (ds.reverse.takeWhile (· == 0) ++ ds.reverse.dropWhile (· == 0)).reverse := by
        rw [List.takeWhile_append_dropWhile, List.reverse_reverse]
    _ = dropTrailingZeros ds ++ (ds.reverse.takeWhile (· == 0)).reverse := List.reverse_append
    _ = _ := by rw [hzeros, List.reverse_replicate, List.length_replicate]

end WorkflowEngine.Number
