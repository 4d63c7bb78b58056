import Mathlib.Logic.Relation
import WorkflowEngine.Proofs.Node.Modesty

/-!
# The course of a run

What can happen next in a run, as one relation between stages. A stage is the run with the
invocation that acts, the loops whose replays are under way, and the failure that is passing outward,
if there is one. `Move` says everything that a step of a run can do, guards included; whatever every
move preserves holds at every stage that a run comes to (`Reaches.keeps`).
-/

namespace WorkflowEngine

/-- An invocation: its node, when it began, and the output before it. -/
structure Invocation where
  node : Node
  start : Instant
  input : Value

/-- The node that is invoked. -/
def Invocation.id (call : Invocation) : Key := call.node.id

/-- What a run is doing. -/
inductive Phase where
  /-- Going from node to node. -/
  | walking
  /-- An invocation acts. -/
  | acting (call : Invocation)
  /-- An invocation has its answer, which is not kept yet. -/
  | answered (call : Invocation)

/-- Where a run is: what it is doing, and in which replays, innermost first. -/
structure Place where
  phase : Phase
  replays : List Invocation

/-- The invocations that are under way, innermost first. -/
def Place.calls (p : Place) : List Invocation :=
  match p.phase with
  | .walking => p.replays
  | .acting call | .answered call => call :: p.replays

theorem Place.mem_calls (p : Place) {call : Invocation} (h : call ∈ p.replays) : call ∈ p.calls := by
  unfold calls
  split
  · exact h
  · exact List.mem_cons_of_mem _ h
  · exact List.mem_cons_of_mem _ h

/-- A run at a place, with the failure that is passing outward. -/
structure Stage where
  run : Run
  place : Place
  cause : Option Failure

/-- The state that a function from outside leaves. -/
def Executor.after (run : Executor) (settings : Value) (s : RunState) : RunState :=
  (StateT.run (ExceptT.run (run settings)) s).2

namespace Invocation

/-- What is kept of an invocation. -/
def result (call : Invocation) (stop : Instant) (outcome : Attempt Value) : NodeResult :=
  { node := call.node.id, name := call.node.label, start := isoText call.start, input := call.input,
    stop := isoText stop, duration := elapsedMilliseconds call.start stop, outcome := outcome }

/-- The run in which a node has been visited and invoked. -/
def begun (node : Node) (tag : Tag) (run : Run) : Run :=
  let state := { run.state with time := run.state.time + 1 }
  let world := { run.world with tag := tag }
  { run with
    state := state
    world := world.note (.invoked node.id node.label node.type state)
    visits := run.visits + 1 }

/-- The run in which a loop replays its body for some items. -/
def entered (call : Invocation) (items : List Value) (targets : List Key) (run : Run) : Run :=
  { run with state := run.state.enterLoop call.node.id items,
             world := run.world.note (.loopBegan call.node.id items.length targets) }

/-- The run in which an invocation has succeeded. -/
def succeeded (call : Invocation) (branch output : Value) (run : Run) : Run :=
  let result := call.result run.world.clock (.ok output)
  let state := run.state.record call.node.id output
  { run with
    state := state
    results := run.results ++ [result]
    world := run.world.note
      (.succeeded call.node.id call.node.type result.duration branch output state) }

/-- The run in which an invocation has failed. -/
def failed (call : Invocation) (f : Failure) (run : Run) : Run :=
  { run with
    results := run.results ++ [call.result run.world.clock (.error f)]
    world := run.world.note (.failed call.node.id call.node.type f run.state) }

end Invocation

/-- The run with another state. -/
def Run.withState (run : Run) (g : RunState → RunState) : Run := { run with state := g run.state }

/-- The run with one more visit. -/
def Run.visited (run : Run) : Run := { run with visits := run.visits + 1 }

/-- The run under another tag. -/
def Run.tagged (run : Run) (tag : Tag) : Run := { run with world := { run.world with tag := tag } }

/-- The run on another bench. -/
def Run.onBench (run : Run) (bench : Bench) : Run := { run with toBench := bench }

namespace Plan

variable (plan : Plan)

/-- So many visits are within the budget. -/
def Allows (visits : Nat) : Prop := ∀ b, plan.budget = some b → (visits : Int) ≤ b

variable {plan} in
theorem not_allows {visits : Nat} :
    ¬ plan.Allows visits ↔ ∃ b, plan.budget = some b ∧ b < (visits : Int) := by
  simp [Allows]

/-- What can happen next in a run. -/
inductive Move : Stage → Stage → Prop where
  /-- Something that spares what is the engine's. -/
  | quiet {run place cause bench} (spared : run.toBench.Spared bench) :
      Move ⟨run, place, cause⟩ ⟨run.onBench bench, place, cause⟩
  /-- A visit is one too many. -/
  | exceed {run replays b} (limited : plan.budget = some b)
      (spent : b < (run.visited.visits : Int)) :
      Move ⟨run, ⟨.walking, replays⟩, none⟩
        ⟨run.visited, ⟨.walking, replays⟩, some (.visitLimit b)⟩
  /-- A merge cannot tell whether it waits. -/
  | unready {run replays id node f} (known : plan.nodes.lookup id = some node)
      (kind : node.cls.kind = .merge) (refused : node.setting "waitForAll" = .error f) :
      Move ⟨run, ⟨.walking, replays⟩, none⟩ ⟨run, ⟨.walking, replays⟩, some f⟩
  /-- A node is visited and invoked. -/
  | begin {run replays node} (tag : Tag) (known : plan.nodes.lookup node.id = some node)
      (due : run.state.shouldSkip node.id = false) (allowed : plan.Allows run.visited.visits)
      (ready : node.Waits → (node.missingSources run.state).isEmpty = true) :
      Move ⟨run, ⟨.walking, replays⟩, none⟩
        ⟨Invocation.begun node tag run,
          ⟨.acting ⟨node, run.world.clock, run.state.previous⟩, replays⟩, none⟩
  /-- A function from outside changes the state. -/
  | foreign {run call replays executor branching}
      (kind : call.node.cls.kind = .custom executor branching) :
      Move ⟨run, ⟨.acting call, replays⟩, none⟩
        ⟨run.withState (executor.after call.node.settings), ⟨.acting call, replays⟩, none⟩
  /-- A loop begins to replay its body. -/
  | enter {run call replays} (items : List Value) (kind : call.node.cls.kind = .loop) :
      Move ⟨run, ⟨.acting call, replays⟩, none⟩
        ⟨call.entered items (plan.graph.targets call.node.id) run,
          ⟨.walking, call :: replays⟩, none⟩
  /-- A replay turns to the item at a place. -/
  | turn {run call replays} (index : Int) :
      Move ⟨run, ⟨.walking, call :: replays⟩, none⟩
        ⟨run.withState fun s => s.setIndex index, ⟨.walking, call :: replays⟩, none⟩
  /-- An item stands as the output before. -/
  | offer {run call replays} (item : Value) :
      Move ⟨run, ⟨.walking, call :: replays⟩, none⟩
        ⟨run.withState fun s => s.setPrevious item, ⟨.walking, call :: replays⟩, none⟩
  /-- A replay cannot turn to an item. -/
  | spoil {run call replays} (f : Failure) :
      Move ⟨run, ⟨.walking, call :: replays⟩, none⟩ ⟨run, ⟨.walking, call :: replays⟩, some f⟩
  /-- A replay ends, done or given up. -/
  | leave {run call replays cause} :
      Move ⟨run, ⟨.walking, call :: replays⟩, cause⟩
        ⟨run.withState RunState.leaveLoop, ⟨.acting call, replays⟩, cause⟩
  /-- A loop has been replayed for every item. -/
  | mark {run call replays} (kind : call.node.cls.kind = .loop) :
      Move ⟨run, ⟨.acting call, replays⟩, none⟩
        ⟨run.withState fun s => s.markExecuted (plan.graph.body call.node.id ++ [call.node.id]),
          ⟨.answered call, replays⟩, none⟩
  /-- A node that is no loop answers. -/
  | answer {run call replays} (kind : call.node.cls.kind ≠ .loop) :
      Move ⟨run, ⟨.acting call, replays⟩, none⟩ ⟨run, ⟨.answered call, replays⟩, none⟩
  /-- The action of a node is given up. -/
  | raise {run call replays} (f : Failure) :
      Move ⟨run, ⟨.acting call, replays⟩, none⟩ ⟨run, ⟨.acting call, replays⟩, some f⟩
  /-- An answer is kept. -/
  | succeed {run call replays} (branch output : Value) :
      Move ⟨run, ⟨.answered call, replays⟩, none⟩
        ⟨call.succeeded branch output run, ⟨.walking, replays⟩, none⟩
  /-- A failure is kept. -/
  | fail {run call replays f} (recordable : f.isRecordable = true) :
      Move ⟨run, ⟨.acting call, replays⟩, some f⟩
        ⟨call.failed f run, ⟨.walking, replays⟩, some f⟩
  /-- An interruption is not kept. -/
  | abandon {run call replays f} (interrupted : f.isRecordable = false) :
      Move ⟨run, ⟨.acting call, replays⟩, some f⟩ ⟨run, ⟨.walking, replays⟩, some f⟩

/-- The stages that a run can come to. -/
abbrev Reaches : Stage → Stage → Prop := Relation.ReflTransGen plan.Move

variable {plan}

/-- **What every move preserves holds at every stage that a run comes to.** -/
theorem Reaches.keeps {I : Stage → Prop} (step : ∀ s t, plan.Move s t → I s → I t) {s t : Stage}
    (h : plan.Reaches s t) (hs : I s) : I t := by
  induction h with
  | refl => exact hs
  | tail _ hmove ih => exact step _ _ hmove ih

/-- The invocations under way are of nodes of the plan, and those with a replay are of loops. -/
structure Sound (plan : Plan) (p : Place) : Prop where
  known : ∀ call ∈ p.calls, plan.nodes.lookup call.node.id = some call.node
  loops : ∀ call ∈ p.replays, call.node.cls.kind = .loop

theorem sound_start (plan : Plan) : plan.Sound ⟨.walking, []⟩ := ⟨by simp [Place.calls], by simp⟩

theorem Move.sound {s t : Stage} (h : plan.Move s t) (hs : plan.Sound s.place) :
    plan.Sound t.place := by
  obtain ⟨hknown, hloops⟩ := hs
  cases h with
  | begin tag known due allowed =>
    refine ⟨fun call hcall => ?_, hloops⟩
    rcases List.mem_cons.1 hcall with rfl | hcall
    · exact known
    · exact hknown call hcall
  | enter items kind =>
    refine ⟨hknown, fun call hcall => ?_⟩
    rcases List.mem_cons.1 hcall with rfl | hcall
    · exact kind
    · exact hloops call hcall
  | leave => exact ⟨hknown, fun call hcall => hloops call (List.mem_cons_of_mem _ hcall)⟩
  | succeed | fail | abandon =>
    exact ⟨fun call hcall => hknown call (List.mem_cons_of_mem _ hcall), hloops⟩
  | _ => exact ⟨hknown, hloops⟩

/-- What every move from a sound place preserves holds at every stage that a run comes to from a
sound place. -/
theorem Reaches.keeps_sound {I : Stage → Prop}
    (step : ∀ s t, plan.Sound s.place → plan.Move s t → I s → I t) {s t : Stage}
    (h : plan.Reaches s t) (sound : plan.Sound s.place) (hs : I s) : I t :=
  (h.keeps (I := fun s => plan.Sound s.place ∧ I s)
    (fun s t hmove hs => ⟨hmove.sound hs.1, step s t hs.1 hmove hs.2⟩) ⟨sound, hs⟩).2

end Plan

end WorkflowEngine
