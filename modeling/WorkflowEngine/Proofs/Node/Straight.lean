import WorkflowEngine.Proofs.Node.Modesty

/-!
# Nodes that choose no branch

Of the nodes of the library only a condition and a switch name a branch in their answers; a function
from outside may do so as well. All others answer with an output alone, so a walk goes on from them
along all their edges.
-/

namespace WorkflowEngine

/-- Whatever an action answers, it names no branch. -/
def Act.Straight (act : Act Reply) : Prop :=
  ∀ bench reply, (act.runOn bench).1 = .ok reply → reply.branch.holds = false

namespace Act.Straight

variable {α : Type}

theorem plain (output : Value) : Straight (pure (.plain output)) := by
  intro bench reply h
  cases h
  rfl

theorem throw (f : Failure) : Straight (throw f) := by
  intro bench reply h
  cases h

/-- What is done before the answer does not matter. -/
theorem bind {act : Act α} {next : α → Act Reply} (h : ∀ a, Straight (next a)) :
    Straight (act >>= next) := by
  intro bench reply hreply
  rw [Act.runOn, Keeps.run_bind] at hreply
  rcases hact : StateT.run (ExceptT.run act) bench with ⟨f | a, bench'⟩
  · rw [hact] at hreply
    cases hreply
  · rw [hact] at hreply
    exact h a bench' reply hreply

end Act.Straight

namespace Node

open Act

variable (node : Node)

theorem runTrigger_straight (event : TriggerEvent) : Straight (runTrigger node event) := by
  refine .bind fun s => ?_
  split
  · exact .plain _
  · exact .bind fun now => .bind fun fields => .plain _

theorem runMerge_straight : Straight (runMerge node) := by
  refine .bind fun s => .bind fun mode => ?_
  dsimp only
  repeat' split
  all_goals exact .plain _

theorem runSetVariable_straight : Straight (runSetVariable node) :=
  .bind fun _ => .bind fun _ => .bind fun _ => .bind fun _ => .plain _

theorem runWait_straight : Straight (runWait node) :=
  .bind fun _ => .bind fun _ => .bind fun _ => .bind fun _ => .bind fun _ => .plain _

theorem runFilter_straight : Straight (runFilter node) := by
  refine .bind fun s => ?_
  dsimp only
  split
  · exact .bind fun kept => .plain _
  · split
    · exact .bind fun fields => .plain _
    · exact .bind fun pass => .plain _

theorem runSort_straight : Straight (runSort node) := by
  refine .bind fun s => ?_
  dsimp only
  split
  · exact .bind fun direction => .bind fun ordered => .plain _
  · split
    · exact .bind fun fields => .plain _
    · exact .plain _

theorem runRequest_straight : Straight (runRequest node) := by
  refine .bind fun request => .bind fun url => .bind fun method => ?_
  refine .bind fun _ => .bind fun response => ?_
  dsimp only
  split
  · exact .bind fun _ => .plain _
  · exact .plain _

theorem runStoring_straight : Straight (runStoring node) := by
  refine .bind fun s => ?_
  have hkept : ∀ key value stored, Straight (do
      let _ ← Act.ofWork (Store.setData (.text key) (.text stored))
      return .plain (.object [("stored", .bool true), ("key", .text key), ("value", value),
        ("previousData", s.previous)])) := fun _ _ _ => .bind fun _ => .plain _
  split
  · exact .bind fun _ => .bind fun name => .bind fun key => .bind fun value => .bind (hkept key value)
  · exact .bind fun name => .bind fun key => .bind fun value => .bind (hkept key value)

theorem runResponse_straight : Straight (runResponse node) := by
  refine .bind fun body => .bind fun status => .bind fun headers => ?_
  split
  · exact .bind fun _ => .plain _
  · exact .bind fun _ => .plain _

/-- **A node of the library that is no condition and no switch names no branch.** -/
theorem execute_straight (native : ∀ run branching, node.cls.kind ≠ .custom run branching)
    (condition : node.cls.kind ≠ .condition) (switch : node.cls.kind ≠ .switch) :
    Straight node.execute := by
  unfold execute
  cases hkind : node.cls.kind with
  | trigger event => exact runTrigger_straight node event
  | condition => exact absurd hkind condition
  | switch => exact absurd hkind switch
  | loop => exact .throw _
  | merge => exact runMerge_straight node
  | setVariable => exact runSetVariable_straight node
  | wait => exact runWait_straight node
  | filter => exact runFilter_straight node
  | sort => exact runSort_straight node
  | httpRequest => exact runRequest_straight node
  | storeData => exact runStoring_straight node
  | webhookResponse => exact runResponse_straight node
  | passthrough => exact .bind fun _ => .plain _
  | custom run branching => exact absurd hkind (native run branching)

end Node

end WorkflowEngine
