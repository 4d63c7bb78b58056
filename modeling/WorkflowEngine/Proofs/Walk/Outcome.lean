import WorkflowEngine.Engine

/-!
# Outcomes of parts of a walk

What each building block of a walk does to a run, as one equation a block. A part refines another if
the other has every outcome that it has; a growing family of parts approaches a part that it refines
and whose every outcome some member already has. Both relations pass through all the ways in which
parts are put together, so that granting more steps never changes an outcome.
-/

namespace WorkflowEngine

namespace Walk

variable {α β : Type}

/-! ## The building blocks -/

@[simp] theorem run_pure (a : α) (r : Run) : (pure a : Walk α).run r = (some (.ok a), r) := rfl

@[simp] theorem run_throw (f : Failure) (r : Run) :
    (throw f : Walk α).run r = (some (.error f), r) := rfl

@[simp] theorem run_get (r : Run) : (get : Walk Run).run r = (some (.ok r), r) := rfl

@[simp] theorem run_set (r' r : Run) : (set r' : Walk PUnit).run r = (some (.ok ()), r') := rfl

@[simp] theorem run_modify (g : Run → Run) (r : Run) :
    (modify g : Walk PUnit).run r = (some (.ok ()), g r) := rfl

@[simp] theorem run_exhausted (r : Run) : (exhausted : Walk α).run r = (none, r) := rfl

/-- A part that depends on another goes on from the run that the other leaves, if that has come to a
value; a failure and the want of steps end both. -/
theorem run_bind (part : Walk α) (next : α → Walk β) (r : Run) :
    (part >>= next).run r = match part.run r with
      | (some (.ok a), r') => (next a).run r'
      | (some (.error f), r') => (some (.error f), r')
      | (none, r') => (none, r') := by
  simp only [run, ExceptT.run_bind, OptionT.run_bind, Option.elimM, StateT.run_bind]
  change (match StateT.run (OptionT.run (ExceptT.run part)) r with | (a, s) => _) = _
  rcases StateT.run (OptionT.run (ExceptT.run part)) r with ⟨_ | _ | _, _⟩ <;> rfl

@[simp] theorem run_ofAttempt (a : Attempt α) (r : Run) : (ofAttempt a).run r = (some a, r) := by
  cases a <;> rfl

@[simp] theorem run_ofAct (act : Act α) (r : Run) :
    (ofAct act).run r =
      (some (act.runOn r.toBench).1, { r with toBench := (act.runOn r.toBench).2 }) := by
  simp [ofAct, run_bind]

@[simp] theorem run_outcome (part : Walk α) (r : Run) :
    (outcome part).run r = match part.run r with
      | (some a, r') => (some (.ok a), r')
      | (none, r') => (none, r') := by
  simp only [run, outcome, ExceptT.run_mk, OptionT.run_bind, Option.elimM, StateT.run_bind]
  change (match StateT.run (OptionT.run (ExceptT.run part)) r with | (a, s) => _) = _
  rcases StateT.run (OptionT.run (ExceptT.run part)) r with ⟨_ | _, _⟩ <;> rfl

/-- Catching a failure does not change the run that the part leaves. -/
theorem run_outcome_snd (part : Walk α) (r : Run) : ((outcome part).run r).2 = (part.run r).2 := by
  rw [run_outcome]
  rcases part.run r with ⟨_ | _, _⟩ <;> rfl

@[simp] theorem run_changeState (g : RunState → RunState) (r : Run) :
    (changeState g).run r = (some (.ok ()), { r with state := g r.state }) := rfl

@[simp] theorem run_changeWorld (g : World → World) (r : Run) :
    (changeWorld g).run r = (some (.ok ()), { r with world := g r.world }) := rfl

@[simp] theorem run_note (event : Event) (r : Run) :
    (note event).run r = (some (.ok ()), { r with world := r.world.note event }) := rfl

/-! ## Refinement -/

/-- The second part has every outcome that the first part has. -/
def Refines (p q : Walk α) : Prop :=
  ∀ ⦃r a r'⦄, p.run r = (some a, r') → q.run r = (some a, r')

namespace Refines

theorem refl (p : Walk α) : Refines p p := fun _ _ _ h => h

theorem trans {p q s : Walk α} (h : Refines p q) (h' : Refines q s) : Refines p s :=
  fun _ _ _ hp => h' (h hp)

/-- A part that has run out of steps refines every part. -/
theorem exhausted (p : Walk α) : Refines Walk.exhausted p := by
  intro r a r' h
  simp at h

theorem bind {p q : Walk α} {k l : α → Walk β} (h : Refines p q) (hk : ∀ a, Refines (k a) (l a)) :
    Refines (p >>= k) (q >>= l) := by
  intro r b r'' hr
  rw [run_bind] at hr ⊢
  rcases hp : p.run r with ⟨_ | f | a, r'⟩
  · simp [hp] at hr
  · rw [hp] at hr
    rw [h hp]
    exact hr
  · rw [hp] at hr
    rw [h hp]
    exact hk a hr

theorem outcome {p q : Walk α} (h : Refines p q) : Refines (outcome p) (outcome q) := by
  intro r a r' hr
  rw [run_outcome] at hr ⊢
  rcases hp : p.run r with ⟨_ | o, r'⟩
  · simp [hp] at hr
  · rw [hp] at hr
    rw [h hp]
    exact hr

end Refines

end Walk

end WorkflowEngine
