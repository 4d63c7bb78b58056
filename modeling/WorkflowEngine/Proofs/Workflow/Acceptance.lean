import WorkflowEngine.Proofs.Storage.Operations
import WorkflowEngine.Proofs.Workflow.Normal

/-!
# What becomes of a definition

A definition that is given as a decoded value is read or complained about, and what is read can be
saved: its identifier is a name that the local store takes (`Form.saveWorkflow_outcome`). The check
of the reader and that of the store agree, and a text, a row of Unicode scalar values, can always be
encoded, so only the length of a name is left to go wrong.
-/

namespace WorkflowEngine.Workflow

open LocalStore

/-- Saving a workflow in normal form comes to keeping it under its identifier. -/
theorem Form.saved_eq (f : Form) (w : World) :
    saved w f.value = keptIn w workflowFolder (.text f.id) f.value := by
  have hid : f.value.get "id" = .ok (.text f.id) := rfl
  rw [saved, hid]
  simp only [Value.holds_text (isSafeId_ne f.safe), if_true]

/-- What is read from a decoded value other than a text is read as a definition. -/
theorem parse_eq_ofValue {raw : Value} (hraw : raw.Decoded) (hdata : ∀ s mark, raw ≠ .text s mark) :
    parse raw = ofValue raw := by
  obtain ⟨j, hj, rfl⟩ := hraw
  cases j with
  | text s => exact absurd rfl (hdata s none)
  | _ => rfl

end WorkflowEngine.Workflow
