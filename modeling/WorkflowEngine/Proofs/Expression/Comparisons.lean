import WorkflowEngine.Expression.Condition
import WorkflowEngine.Proofs.Number.Order
import WorkflowEngine.Proofs.Value.Spoken

/-!
# What comes of a comparison

A comparison of two JSON values comes to an answer, with one exception: an integer too large for any
binary64 number cannot be compared by size (`condition_eq_fault_iff`). Values that write no number
stand for not-a-number there, and nothing is less or greater than that (`condition_of_unwritten`).
-/

namespace WorkflowEngine

open Number Text

/-! ## The number that stands for a value -/

namespace Value

variable {v : Value}

/-- Whether a value is an integer that is larger than every binary64 number, by its size. -/
def isOutsized : Value → Bool
  | .int n _ => overflowBound ≤ n.natAbs
  | _ => false

/-- The number that a value writes, if it writes one. -/
def written? : Value → Option Float
  | .bool b => some (ofQuotient (if b then 1 else 0) 1)
  | .int n _ => some (nearest (decide (n < 0)) n.natAbs 1)
  | .float x _ => some x
  | .text s _ => if (strip s).isEmpty then some (nearest false 0 1) else readFloat? (strip s)
  | _ => none

section Large

-- The bound on integers is no term to compute with.
attribute [local irreducible] Number.ofInt? Number.overflowBound

theorem toNumber_int (n : Int) (mark : Option Stamp) : (int n mark).toNumber =
    match ofInt? n with
    | some x => .ok x
    | none => .fault .tooLarge := by
  rfl

theorem isOutsized_int {n : Int} {mark : Option Stamp} :
    (int n mark).isOutsized = true ↔ overflowBound ≤ n.natAbs := by
  rw [isOutsized, decide_eq_true_iff]

end Large

/-- **The number that stands for a value is the one that it writes**, and not-a-number if it writes
none; only an outsized integer has no such number. -/
theorem toNumber_eq (v : Value) : v.toNumber =
    if v.isOutsized then .fault .tooLarge else .ok (v.written?.getD notANumber) := by
  cases v with
  | int n mark =>
    rw [toNumber_int]
    by_cases hsize : overflowBound ≤ n.natAbs
    · rw [ofInt?, if_pos hsize, if_pos (isOutsized_int.2 hsize)]
    · rw [ofInt?, if_neg hsize, if_neg (mt isOutsized_int.1 hsize)]
      rfl
  | text s mark =>
    refine congrArg Except.ok ?_
    rw [numberOfText, written?]
    split <;> rfl
  | _ => rfl

theorem toNumber_of_fits (h : v.isOutsized = false) :
    v.toNumber = .ok (v.written?.getD notANumber) := by
  rw [toNumber_eq, if_neg (by simp [h])]

theorem toNumber_of_outsized (h : v.isOutsized = true) : v.toNumber = .fault .tooLarge := by
  rw [toNumber_eq, if_pos h]

end Value

/-! ## Comparisons -/

/-- Whether a comparison is one by size. -/
def Comparison.bySize : Comparison → Bool
  | .greaterThan | .lessThan => true
  | _ => false

/-- A comparison by size in which an outsized integer takes part. -/
def Oversteps (field : Value) (comparison : Option Comparison) (value : Value) : Prop :=
  comparison.any Comparison.bySize = true ∧ (field.isOutsized = true ∨ value.isOutsized = true)

instance (field : Value) (comparison : Option Comparison) (value : Value) :
    Decidable (Oversteps field comparison value) :=
  inferInstanceAs (Decidable (_ ∧ _))

section

variable {field value : Value} {comparison : Option Comparison} (scopes : Scopes)

theorem fieldText_ok (h : field.SaysJson) : ∃ s, fieldText scopes field = .ok s := by
  unfold fieldText
  split
  · exact ⟨_, rfl⟩
  · exact h.toText_ok

/-- By size two values compare as the numbers that stand for them. -/
theorem condition_bySize {text : String} (htext : fieldText scopes field = .ok text)
    (value : Value) (hsize : comparison.any Comparison.bySize = true) :
    ∃ less : Float → Float → Bool, (∀ a b, less a b = true → a < b ∨ b < a) ∧
      condition scopes field comparison value =
        (do pure (less (← field.toNumber) (← value.toNumber))) := by
  unfold condition
  rw [htext, Attempt.ok_bind]
  match comparison, hsize with
  | some .greaterThan, _ =>
    exact ⟨fun a b => decide (b < a), fun a b h => .inr (of_decide_eq_true h), rfl⟩
  | some .lessThan, _ =>
    exact ⟨fun a b => decide (a < b), fun a b h => .inl (of_decide_eq_true h), rfl⟩

/-- **A comparison of JSON values comes to an answer** unless it oversteps. -/
theorem condition_of_fits (hfield : field.SaysJson) (hvalue : value.SaysJson)
    (h : ¬ Oversteps field comparison value) :
    ∃ b, condition scopes field comparison value = .ok b := by
  obtain ⟨text, htext⟩ := fieldText_ok scopes hfield
  obtain ⟨other, hother⟩ : ∃ s, value.toText scopes = .ok s := hvalue.toText_ok
  by_cases hsize : comparison.any Comparison.bySize = true
  · obtain ⟨hfieldFits, hvalueFits⟩ := not_or.1 (not_and.1 h hsize)
    obtain ⟨less, -, hcondition⟩ := condition_bySize scopes htext value hsize
    rw [hcondition, Value.toNumber_of_fits (Bool.eq_false_iff.2 hfieldFits),
      Value.toNumber_of_fits (Bool.eq_false_iff.2 hvalueFits)]
    exact ⟨_, rfl⟩
  · unfold condition
    rw [htext, Attempt.ok_bind, hother]
    match comparison, hsize with
    | none, _ | some .equals, _ | some .notEquals, _ | some .contains, _ | some .isEmpty, _
    | some .isNotEmpty, _ => exact ⟨_, rfl⟩
    | some .greaterThan, hsize | some .lessThan, hsize => exact absurd rfl hsize

theorem condition_of_oversteps (hfield : field.SaysJson)
    (h : Oversteps field comparison value) :
    condition scopes field comparison value = .fault .tooLarge := by
  obtain ⟨text, htext⟩ := fieldText_ok scopes hfield
  obtain ⟨hsize, houtsized⟩ := h
  obtain ⟨less, -, hcondition⟩ := condition_bySize scopes htext value hsize
  rw [hcondition]
  cases hfieldSize : field.isOutsized with
  | true =>
    rw [Value.toNumber_of_outsized hfieldSize]
    rfl
  | false =>
    rw [Value.toNumber_of_fits hfieldSize, Attempt.ok_bind,
      Value.toNumber_of_outsized (houtsized.resolve_left (by simp [hfieldSize]))]
    rfl

theorem condition_eq_fault_iff (hfield : field.SaysJson) (hvalue : value.SaysJson) :
    condition scopes field comparison value = .fault .tooLarge ↔
      Oversteps field comparison value := by
  refine ⟨fun h => ?_, condition_of_oversteps scopes hfield⟩
  by_contra hfits
  obtain ⟨b, hb⟩ := condition_of_fits scopes hfield hvalue hfits
  cases hb.symm.trans h

/-- What writes no number is neither greater nor less than anything. -/
theorem condition_of_unwritten (hfield : field.SaysJson)
    (hsize : comparison.any Comparison.bySize = true)
    (hfits : ¬ Oversteps field comparison value)
    (h : field.written? = none ∨ value.written? = none) :
    condition scopes field comparison value = .ok false := by
  obtain ⟨text, htext⟩ := fieldText_ok scopes hfield
  obtain ⟨hfieldFits, hvalueFits⟩ := not_or.1 (not_and.1 hfits hsize)
  obtain ⟨less, hless, hcondition⟩ := condition_bySize scopes htext value hsize
  rw [hcondition, Value.toNumber_of_fits (Bool.eq_false_iff.2 hfieldFits),
    Value.toNumber_of_fits (Bool.eq_false_iff.2 hvalueFits), Attempt.ok_bind, Attempt.ok_bind]
  refine congrArg Except.ok (Bool.eq_false_iff.2 fun hmet => ?_)
  rcases h with h | h
  · rw [h] at hmet
    exact (hless _ _ hmet).elim (not_notANumber_lt _) (not_lt_notANumber _)
  · rw [h] at hmet
    exact (hless _ _ hmet).elim (not_lt_notANumber _) (not_notANumber_lt _)

end

end WorkflowEngine
