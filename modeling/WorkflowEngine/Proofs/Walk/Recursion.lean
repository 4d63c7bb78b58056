import WorkflowEngine.Proofs.Walk.Composition

/-!
# The walk by recursion

A walk with a stack of nodes to visit, and the visit of a node by recursion, which follows the edges
of the node itself. Both give the same outcomes from every run (`walk_outcome_iff_descend`): the
stack holds what the recursion still has to return to. One direction is plain, since a walk refines
the recursion with as many steps; for the other the walks with more and more steps are shown to
approach the recursion, through all the ways in which a visit is put together.
-/

namespace WorkflowEngine

/-- The visit of a node by recursion: nothing happens if the node is unknown, executed already, or
not ready; otherwise the visit is counted, the node executed, and what its edges lead to visited in
their order. A loop replays its body by the same recursion. `fuel` calls may lie within each
other. -/
def Plan.descend (plan : Plan) : (fuel : Nat) → Key → Walk Unit
  | 0, _ => Walk.exhausted
  | fuel + 1, id =>
    match plan.nodes.lookup id with
    | none => pure ()
    | some node => do
      if (← get).state.shouldSkip id then Walk.note (.skipped id)
      else if !(← Walk.ofAct node.isReady) then Walk.note (.deferred id node.type)
      else
        plan.countVisit
        let branch ← plan.execute (descend plan fuel) node
        if node.followsEdges then (plan.graph.targets id branch).forM (descend plan fuel)

namespace Walk

variable {α β : Type}

/-- A family of parts that keep their outcomes as it grows, and in the end have all the outcomes of
another part. -/
structure Approaches (p : Nat → Walk α) (q : Walk α) : Prop where
  mono : ∀ ⦃m n⦄, m ≤ n → Refines (p m) (p n)
  reached : ∀ ⦃r a r'⦄, q.run r = (some a, r') → ∃ n, (p n).run r = (some a, r')

namespace Approaches

theorem const (part : Walk α) : Approaches (fun _ => part) part where
  mono _ _ _ := Refines.refl part
  reached _ _ _ h := ⟨0, h⟩

/-- **Approach passes through sequences.** The steps that the first part takes and those that the
second takes are both granted by the greater number. -/
theorem bind {p : Nat → Walk α} {q : Walk α} {k : Nat → α → Walk β} {l : α → Walk β}
    (h : Approaches p q) (hk : ∀ a, Approaches (fun n => k n a) (l a)) :
    Approaches (fun n => p n >>= k n) (q >>= l) where
  mono m n hmn := (h.mono hmn).bind fun a => (hk a).mono hmn
  reached r b r'' hr := by
    rw [run_bind] at hr
    rcases hq : q.run r with ⟨_ | f | a, r'⟩
    · simp [hq] at hr
    · obtain ⟨n, hn⟩ := h.reached hq
      rw [hq] at hr
      exact ⟨n, by rw [run_bind, hn]; exact hr⟩
    · obtain ⟨m, hm⟩ := h.reached hq
      rw [hq] at hr
      obtain ⟨n, hn⟩ := (hk a).reached hr
      refine ⟨max m n, ?_⟩
      rw [run_bind, h.mono (Nat.le_max_left m n) hm]
      exact (hk a).mono (Nat.le_max_right m n) hn

theorem outcome {p : Nat → Walk α} {q : Walk α} (h : Approaches p q) :
    Approaches (fun n => outcome (p n)) (outcome q) where
  mono m n hmn := (h.mono hmn).outcome
  reached r a r' hr := by
    rw [run_outcome] at hr
    rcases hq : q.run r with ⟨_ | o, r''⟩
    · simp [hq] at hr
    · obtain ⟨n, hn⟩ := h.reached hq
      rw [hq] at hr
      exact ⟨n, by rw [run_outcome, hn]; exact hr⟩

/-- A family that approaches a part is followed together with it. -/
theorem closed : Closed fun α (p : Option Nat → Walk α) =>
    Approaches (fun n => p (some n)) (p none) where
  sure _ := const _
  bind hp hnext := hp.bind hnext
  handle hp hnext _ := hp.outcome.bind hnext

theorem forM {f : Nat → Key → Walk Unit} {g : Key → Walk Unit}
    (h : ∀ id, Approaches (fun n => f n id) (g id)) (ids : List Key) :
    Approaches (fun n => ids.forM (f n)) (ids.forM g) :=
  closed.forM (f := fun i => i.elim g f) ids fun id _ => h id

/-- A part is approached from any part that refines it. -/
theorem ofRefines {p q : Walk α} (h : Refines p q) :
    Approaches (fun n => if n = 0 then p else q) q where
  mono m n hmn := by
    by_cases hm : m = 0
    · by_cases hn : n = 0
      · simp only [hm, hn, if_true]
        exact Refines.refl p
      · simp only [hm, hn, if_true, if_false]
        exact h
    · have hn : n ≠ 0 := by omega
      simp only [hm, hn, if_false]
      exact Refines.refl q
  reached r a r' hr := ⟨1, by simpa using hr⟩

end Approaches

end Walk

/-! ## Visits -/

namespace Plan

open Walk

theorem visit_approaches {f : Nat → Key → Walk Unit} {g : Key → Walk Unit}
    (h : ∀ id, Approaches (fun n => f n id) (g id)) (plan : Plan) (id : Key) :
    Approaches (fun n => plan.visit (f n) id) (plan.visit g id) := by
  have hcount : Approaches (fun _ => plan.countVisit) plan.countVisit := .const _
  have hvisit := Approaches.closed.visit plan (f := fun i => i.elim g f) (fun _ => plan.budget) h
    hcount id
  exact hvisit

/-- Replays that have more outcomes give a visit more outcomes. -/
theorem visit_refines {f g : Key → Walk Unit} (h : ∀ id, Refines (f id) (g id)) (plan : Plan)
    (id : Key) : Refines (plan.visit f id) (plan.visit g id) := by
  have happ := visit_approaches (f := fun n id => if n = 0 then f id else g id) (g := g)
    (fun id => Approaches.ofRefines (h id)) plan id
  simpa using happ.mono (Nat.zero_le 1)

/-! ## The stack and the recursion -/

variable (plan : Plan)

/-- The recursion visits a node and then what the visit says is to be visited next. -/
theorem descend_succ (fuel : Nat) (id : Key) :
    plan.descend (fuel + 1) id =
      (plan.visit (plan.descend fuel) id >>= fun next => next.forM (plan.descend fuel)) := by
  rw [descend, visit]
  cases plan.nodes.lookup id with
  | none => rfl
  | some node =>
    simp only [bind_assoc]
    refine congrArg (get >>= ·) (funext fun run => ?_)
    cases run.state.shouldSkip id with
    | true => rfl
    | false =>
      simp only [Bool.false_eq_true, if_false, bind_assoc]
      refine congrArg (ofAct node.isReady >>= ·) (funext fun ready => ?_)
      cases ready with
      | false => rfl
      | true =>
        simp only [Bool.not_true, Bool.false_eq_true, if_false, bind_assoc, pure_bind]
        cases node.followsEdges <;> rfl

/-- More steps do not change the outcome of the recursion. -/
theorem descend_refines_succ (fuel : Nat) (id : Key) :
    Refines (plan.descend fuel id) (plan.descend (fuel + 1) id) := by
  induction fuel generalizing id with
  | zero => exact Refines.exhausted _
  | succ fuel ih =>
    rw [descend_succ plan fuel, descend_succ plan (fuel + 1)]
    refine (visit_refines ih plan id).bind fun next => ?_
    simpa using ((Approaches.forM (fun id => Approaches.ofRefines (ih id)) next).mono (Nat.zero_le 1))

/-- More steps do not change the outcome of a walk. -/
theorem walk_refines_succ (fuel : Nat) (stack : List Key) :
    Refines (plan.walk fuel stack) (plan.walk (fuel + 1) stack) := by
  induction fuel generalizing stack with
  | zero => exact Refines.exhausted _
  | succ fuel ih =>
    cases stack with
    | nil => exact Refines.refl _
    | cons id rest =>
      rw [walk, walk]
      exact (visit_refines (fun target => ih [target]) plan id).bind fun next => ih (next ++ rest)

theorem walk_refines {m n : Nat} (hmn : m ≤ n) (stack : List Key) :
    Refines (plan.walk m stack) (plan.walk n stack) := by
  induction hmn with
  | refl => exact Refines.refl _
  | step _ ih => exact ih.trans (walk_refines_succ plan _ stack)

/-- **A walk has at most one outcome**, however many steps it is granted. -/
theorem walk_outcome_unique {m n : Nat} {stack : List Key} {run r s : Run} {o p : Attempt Unit}
    (hm : (plan.walk m stack).run run = (some o, r))
    (hn : (plan.walk n stack).run run = (some p, s)) : o = p ∧ r = s := by
  have hm' := plan.walk_refines (Nat.le_max_left m n) stack hm
  have hn' := plan.walk_refines (Nat.le_max_right m n) stack hn
  rw [hm'] at hn'
  simpa using hn'

/-- Walking from a stack refines visiting what lies on it by recursion, from the top on. -/
theorem walk_refines_descend (fuel : Nat) (stack : List Key) :
    Refines (plan.walk fuel stack) (stack.forM (plan.descend fuel)) := by
  induction fuel generalizing stack with
  | zero => exact Refines.exhausted _
  | succ fuel ih =>
    cases stack with
    | nil => exact Refines.refl _
    | cons id rest =>
      -- a replay begins a stack of its own, with one target on it
      have hone : ∀ target, Refines (plan.walk fuel [target]) (plan.descend fuel target) := by
        intro target
        have h := ih [target]
        simpa [List.forM_eq_forM, List.forM_cons] using h
      have hrest : Refines (rest.forM (plan.descend fuel)) (rest.forM (plan.descend (fuel + 1))) := by
        simpa using (Approaches.forM
          (fun id => Approaches.ofRefines (descend_refines_succ plan fuel id)) rest).mono
          (Nat.zero_le 1)
      rw [walk, List.forM_eq_forM, List.forM_cons, descend_succ, bind_assoc]
      refine (visit_refines hone plan id).bind fun next => ?_
      refine (ih (next ++ rest)).trans ?_
      rw [List.forM_eq_forM, List.forM_append]
      exact (Refines.refl _).bind fun _ => hrest

theorem walk_nil_approaches : Approaches (fun n => plan.walk n []) (pure ()) :=
  ⟨fun _ _ hmn => plan.walk_refines hmn _, fun _ _ _ h => ⟨1, h⟩⟩

/-- **The walks with more and more steps approach the recursion**, whatever waits below it on the
stack. The steps that the visit of the top takes, those of the replays in it, and those of what it
leads to are all granted by one number. -/
theorem walk_approaches_descend (fuel : Nat) :
    ∀ (id : Key) (rest : List Key) (q : Walk Unit), Approaches (fun n => plan.walk n rest) q →
      Approaches (fun n => plan.walk n (id :: rest)) (plan.descend fuel id >>= fun _ => q) := by
  induction fuel with
  | zero =>
    intro id rest q _
    refine ⟨fun m n hmn => plan.walk_refines hmn _, ?_⟩
    intro r a r' h
    simp [descend, run_bind] at h
  | succ fuel ih =>
    intro id rest q hq
    -- a replay leaves nothing below its target
    have hone : ∀ target, Approaches (fun n => plan.walk n [target]) (plan.descend fuel target) := by
      intro target
      simpa using ih target [] (pure ()) plan.walk_nil_approaches
    -- what the visit leads to goes on top of what waits, one target after another
    have hnext : ∀ next : List Key, Approaches (fun n => plan.walk n (next ++ rest))
        (next.forM (plan.descend fuel) >>= fun _ => q) := by
      intro next
      induction next with
      | nil => simpa using hq
      | cons target next ihn =>
        have h := ih target (next ++ rest) _ ihn
        rwa [← bind_assoc] at h
    refine ⟨fun m n hmn => plan.walk_refines hmn _, ?_⟩
    intro r a r' h
    rw [descend_succ, bind_assoc] at h
    -- one step more than the visit and what it leads to need
    obtain ⟨n, hn⟩ := ((visit_approaches hone plan id).bind hnext).reached h
    exact ⟨n + 1, hn⟩

/-- **The walk with its stack and the visit by recursion come to the same outcomes**: from every
run, whatever replays are under way in it, a walk from a node ends with a result or a failure in some
run exactly if the recursion does. The run holds the results, the state and the number of visits. -/
theorem walk_outcome_iff_descend (plan : Plan) (id : Key) (run run' : Run) (o : Attempt Unit) :
    (∃ fuel, (plan.walk fuel [id]).run run = (some o, run')) ↔
      ∃ fuel, (plan.descend fuel id).run run = (some o, run') := by
  constructor
  · rintro ⟨fuel, h⟩
    have hrec := plan.walk_refines_descend fuel [id] h
    simp only [List.forM_eq_forM, List.forM_cons, List.forM_nil, bind_pure_unit] at hrec
    exact ⟨fuel, hrec⟩
  · rintro ⟨fuel, h⟩
    have happ := plan.walk_approaches_descend fuel id [] (pure ()) plan.walk_nil_approaches
    rw [bind_pure_unit] at happ
    exact happ.reached h

end Plan

end WorkflowEngine
