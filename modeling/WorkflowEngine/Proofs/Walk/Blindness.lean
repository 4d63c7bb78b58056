import WorkflowEngine.Proofs.Node.Blindness
import WorkflowEngine.Proofs.Walk.Outcome

/-!
# A walk does not read the journal

A walk only adds to the journal, as its nodes do. So it comes to the same whatever was noted before
it, in the same run but for those entries (`Plan.walk_sightless`).
-/

namespace WorkflowEngine

/-- The same run, with older entries in the journal. -/
def Run.above (old : List Entry) (run : Run) : Run := { run with toBench := run.toBench.above old }

namespace Walk

variable {α β : Type}

/-- A part of a walk that reads nothing of the journal. -/
def Sightless (part : Walk α) : Prop :=
  ∀ old run, part.run (run.above old) = ((part.run run).1, (part.run run).2.above old)

namespace Sightless

theorem pure (a : α) : Sightless (pure a : Walk α) := fun _ _ => rfl

theorem throw (f : Failure) : Sightless (throw f : Walk α) := fun _ _ => rfl

theorem exhausted : Sightless (exhausted : Walk α) := fun _ _ => rfl

theorem ofAttempt (a : Attempt α) : Sightless (ofAttempt a) := by
  intro old run
  rw [run_ofAttempt, run_ofAttempt]

theorem bind {part : Walk α} {next : α → Walk β} (h : Sightless part)
    (hn : ∀ a, Sightless (next a)) : Sightless (part >>= next) := by
  intro old run
  rw [run_bind, run_bind, h old run]
  rcases part.run run with ⟨_ | f | a, run'⟩
  · rfl
  · rfl
  · exact hn a old run'

/-- What is read of the run has to be there whatever is in the journal. -/
theorem get_bind {next : Run → Walk β} (same : ∀ old run, next (run.above old) = next run)
    (hn : ∀ run, Sightless (next run)) : Sightless (get >>= next) := by
  intro old run
  rw [run_bind, run_bind, run_get, run_get]
  change (next (run.above old)).run (run.above old) = _
  rw [same old run]
  exact hn run old run

theorem ofAct {act : Act α} (h : act.Sightless) : Sightless (ofAct act) := by
  intro old run
  have hact : act.runOn (run.above old).toBench =
      ((act.runOn run.toBench).1, (act.runOn run.toBench).2.above old) := h old run.toBench
  rw [run_ofAct, run_ofAct, hact]
  rfl

theorem outcome {part : Walk α} (h : Sightless part) : Sightless (outcome part) := by
  intro old run
  rw [run_outcome, run_outcome, h old run]
  rcases part.run run with ⟨_ | a, run'⟩ <;> rfl

theorem changeState (g : RunState → RunState) : Sightless (changeState g) := fun _ _ => rfl

theorem note (event : Event) : Sightless (note event) := fun _ _ => rfl

theorem between {before after : Walk Unit} {part : Walk α} (hb : Sightless before)
    (ha : Sightless after) (h : Sightless part) : Sightless (between before after part) :=
  hb.bind fun _ => h.outcome.bind fun _ => ha.bind fun _ => ofAttempt _

theorem underNode {part : Walk α} (node : Key) (h : Sightless part) :
    Sightless (underNode node part) :=
  get_bind (fun _ _ => rfl) fun _ => between (fun _ _ => rfl) (fun _ _ => rfl) h

theorem forM {f : Key → Walk Unit} (h : ∀ id, Sightless (f id)) (ids : List Key) :
    Sightless (ids.forM f) := by
  induction ids with
  | nil => exact pure ()
  | cons id rest ih => exact (h id).bind fun _ => ih

end Sightless

end Walk

open Walk

namespace Node

variable {plan : Plan} {replay : Key → Walk Unit}

theorem beginItem_sightless (itemName indexName : Value) (index : Nat) (item : Value) :
    Sightless (beginItem itemName indexName index item) := by
  refine (Sightless.changeState _).bind fun _ => (Sightless.ofAttempt _).bind fun name => ?_
  refine (Sightless.changeState _).bind fun _ => ?_
  split
  · refine (Sightless.ofAttempt _).bind fun place => ?_
    exact (Sightless.changeState _).bind fun _ => .changeState _
  · exact .changeState _

theorem replayItems_sightless (h : ∀ id, Sightless (replay id)) (targets : List Key)
    (itemName indexName : Value) (items : List Value) :
    ∀ index, Sightless (replayItems replay targets itemName indexName index items) := by
  induction items with
  | nil => exact fun _ => .pure _
  | cons item rest ih =>
    intro index
    refine (beginItem_sightless itemName indexName index item).bind fun _ => ?_
    refine (Sightless.forM h targets).bind fun _ => ?_
    exact (ih (index + 1)).bind fun _ => .pure _

theorem runLoop_sightless (h : ∀ id, Sightless (replay id)) (node : Node) :
    Sightless (node.runLoop plan replay) := by
  refine (Sightless.ofAct (loopItems_blind node)).bind fun items => ?_
  refine (Sightless.ofAttempt _).bind fun itemName => (Sightless.ofAttempt _).bind fun indexName => ?_
  refine (Sightless.note _).bind fun _ => ?_
  refine (Sightless.between (.changeState _) (.changeState _) ?_).bind fun reports => ?_
  · exact replayItems_sightless h _ itemName indexName items 0
  · exact (Sightless.changeState _).bind fun _ => .pure _

theorem invoke_sightless (h : ∀ id, Sightless (replay id)) (node : Node) :
    Sightless (node.invoke plan replay) := by
  refine .get_bind (fun _ _ => rfl) fun run => (Sightless.ofAttempt _).bind fun _ => ?_
  unfold act
  split
  · exact runLoop_sightless h node
  · exact .ofAct (execute_blind node)

end Node

namespace Plan

variable {replay : Key → Walk Unit}

theorem keep_sightless (node : Node) (start : Instant) (input : Value) (outcome : Attempt Value) :
    Sightless (keep node start input outcome) := fun _ _ => rfl

theorem settleFailure_sightless (node : Node) (start : Instant) (input : Value) (f : Failure) :
    Sightless (settleFailure node start input f) := by
  unfold settleFailure
  split
  · refine (keep_sightless node start input (.error f)).bind fun _ => ?_
    refine .get_bind (fun _ _ => rfl) fun run => ?_
    exact (Sightless.note _).bind fun _ => .throw f
  · exact .throw f

theorem settleReply_sightless (node : Node) (start : Instant) (input : Value) (time : Nat)
    (reply : Reply) : Sightless (settleReply node start input time reply) := by
  refine (keep_sightless node start input (.ok _)).bind fun result => ?_
  refine (Sightless.changeState _).bind fun _ => .get_bind (fun _ _ => rfl) fun run => ?_
  exact (Sightless.note _).bind fun _ => .pure _

variable (plan : Plan)

theorem execute_sightless (h : ∀ id, Sightless (replay id)) (node : Node) :
    Sightless (plan.execute replay node) := by
  refine (Sightless.changeState _).bind fun _ => .get_bind (fun _ _ => rfl) fun run => ?_
  refine .get_bind (fun _ _ => rfl) fun run' => .get_bind (fun _ _ => rfl) fun run'' => ?_
  refine .underNode node.id (.get_bind (fun _ _ => rfl) fun _ => ?_)
  refine (Sightless.note _).bind fun _ => (Node.invoke_sightless h node).outcome.bind fun o => ?_
  cases o with
  | ok reply => exact settleReply_sightless node _ _ _ reply
  | error f => exact settleFailure_sightless node _ _ f

theorem countVisit_sightless : Sightless plan.countVisit := by
  refine Sightless.bind (fun _ _ => rfl) fun _ => ?_
  split
  · refine .get_bind (fun _ _ => rfl) fun run => ?_
    split
    · exact .throw _
    · exact .pure _
  · exact .pure _

theorem visit_sightless (h : ∀ id, Sightless (replay id)) (id : Key) :
    Sightless (plan.visit replay id) := by
  unfold visit
  split
  · exact .pure _
  · rename_i node _
    refine .get_bind (fun _ _ => rfl) fun run => ?_
    split
    · exact (Sightless.note _).bind fun _ => .pure _
    · refine (Sightless.ofAct (Node.isReady_blind node)).bind fun ready => ?_
      split
      · exact (Sightless.note _).bind fun _ => .pure _
      · refine (plan.countVisit_sightless).bind fun _ => ?_
        exact (plan.execute_sightless h node).bind fun _ => .pure _

/-- **A walk does not read the journal.** -/
theorem walk_sightless (fuel : Nat) : ∀ stack, Sightless (plan.walk fuel stack) := by
  induction fuel with
  | zero => exact fun _ => .exhausted
  | succ fuel ih =>
    intro stack
    cases stack with
    | nil => exact .pure ()
    | cons id rest =>
      exact (plan.visit_sightless (fun target => ih [target]) id).bind fun next => ih _

end Plan

end WorkflowEngine
