import WorkflowEngine.Proofs.Node.Modesty

/-!
# The journal is only written

What is noted in the journal is never read again. So if a node acts in a world whose journal goes on
from older entries, it does what it does in the world without them, and the older entries stay where
they are (`Node.execute_blind`). The argument follows the actions of the nodes step by step; functions
from outside are covered, for they see nothing of the world.
-/

namespace WorkflowEngine

/-- The same world, with older entries before those of its journal. -/
def World.above (old : List Entry) (w : World) : World := { w with journal := w.journal ++ old }

/-- The same bench, with older entries in the journal. -/
def Bench.above (old : List Entry) (bench : Bench) : Bench :=
  { bench with world := bench.world.above old }

/-! ## Computations that do not see a change -/

/-- A change of the states makes no difference to the computation: it comes to the same, and the
change can be made afterwards as well. -/
def Blind {σ α : Type} (f : σ → σ) (part : ExceptT Failure (StateM σ) α) : Prop :=
  ∀ s, StateT.run (ExceptT.run part) (f s) =
    ((StateT.run (ExceptT.run part) s).1, f (StateT.run (ExceptT.run part) s).2)

namespace Blind

variable {σ α β : Type} {f : σ → σ}

theorem pure (a : α) : Blind f (pure a : ExceptT Failure (StateM σ) α) := fun _ => rfl

theorem throw (cause : Failure) : Blind f (throw cause : ExceptT Failure (StateM σ) α) :=
  fun _ => rfl

/-- A step that may be made before the change and after it. -/
theorem change {g : σ → σ} (h : ∀ s, g (f s) = f (g s)) :
    Blind f (modify g : ExceptT Failure (StateM σ) PUnit) :=
  fun s => congrArg (fun s => (Except.ok PUnit.unit, s)) (h s)

theorem bind {part : ExceptT Failure (StateM σ) α} {next : α → ExceptT Failure (StateM σ) β}
    (h : Blind f part) (hn : ∀ a, Blind f (next a)) : Blind f (part >>= next) := by
  intro s
  rw [Keeps.run_bind, Keeps.run_bind, h s]
  rcases StateT.run (ExceptT.run part) s with ⟨cause | a, s'⟩
  · rfl
  · exact hn a s'

theorem change_bind {g : σ → σ} {next : PUnit → ExceptT Failure (StateM σ) β}
    (h : ∀ s, g (f s) = f (g s)) (hn : ∀ a, Blind f (next a)) : Blind f (modify g >>= next) :=
  (change h).bind hn

/-- What is read of the state has to be the same after the change. -/
theorem get_bind {next : σ → ExceptT Failure (StateM σ) β} (same : ∀ s, next (f s) = next s)
    (hn : ∀ s, Blind f (next s)) : Blind f (get >>= next) := by
  intro s
  rw [Keeps.run_bind, Keeps.run_bind]
  change StateT.run (ExceptT.run (next (f s))) (f s) = _
  rw [same s]
  exact hn s s

end Blind

/-! ## Work in the world -/

/-- Work that reads nothing of the journal. -/
abbrev Work.Sightless {α : Type} (work : Work α) : Prop := ∀ old, Blind (World.above old) work

/-- An action that reads nothing of the journal. -/
abbrev Act.Sightless {α : Type} (act : Act α) : Prop := ∀ old, Blind (Bench.above old) act

namespace Work

variable {α : Type}

theorem ofAttempt_blind (a : Attempt α) : Sightless (ofAttempt a) := by
  intro old
  cases a with
  | ok a => exact .pure a
  | error f => exact .throw f

theorem note_blind (event : Event) : Sightless (note event) := fun _ => .change fun _ => rfl

theorem ofStep_blind {step : World → Attempt α × World}
    (h : ∀ old w, step (w.above old) = ((step w).1, (step w).2.above old)) :
    Sightless (ofStep step) := by
  intro old w
  have hstep : ∀ w, StateT.run (ExceptT.run (ofStep step)) w =
      StateT.run (ExceptT.run (ofAttempt (step w).1)) (step w).2 := fun _ => rfl
  rw [hstep, hstep, h old w]
  exact ofAttempt_blind (step w).1 old (step w).2

end Work

namespace LocalStore

open Work

theorem checkName_blind (path : String) : Sightless (checkName path) := by
  intro old
  simp only [checkName]
  split
  · exact .throw _
  · exact .pure _

theorem readFile_blind (path : String) : Sightless (readFile path) := by
  intro old
  refine (checkName_blind path old).bind fun _ => .get_bind (fun _ => rfl) fun w => ?_
  split
  · exact .pure _
  · split
    · exact .throw _
    · split
      · exact .pure _
      · split
        · exact .throw _
        · refine .get_bind (fun _ => rfl) fun w => ?_
          exact (note_blind _ old).bind fun _ => .pure _

theorem checkFolder_blind (path : String) : Sightless (checkFolder path) := by
  intro old
  simp only [checkFolder]
  split
  · exact .throw _
  · exact .pure _

theorem writeFile_blind (path : String) (v : Value) : Sightless (writeFile path v) := by
  intro old
  refine (checkName_blind path old).bind fun _ => (checkFolder_blind path old).bind fun _ => ?_
  split
  · exact .change fun _ => rfl
  · exact Blind.change_bind (fun _ => rfl) fun _ => .throw _

theorem setData_blind (key value : Value) : Sightless (setData key value) := by
  intro old
  have hload : Blind (World.above old) loadData :=
    (readFile_blind dataFile old).bind fun _ => .pure _
  refine hload.bind fun data => (ofAttempt_blind _ old).bind fun data => ?_
  exact (writeFile_blind dataFile data old).bind fun _ => .pure _

end LocalStore

namespace HostedStore

open Work

theorem sendAll_blind (calls : List Call) : Sightless (sendAll calls) := by
  intro old
  induction calls with
  | nil => exact .pure _
  | cons call rest ih =>
    refine .change_bind (fun _ => rfl) fun _ => .get_bind (fun _ => rfl) fun w => ?_
    split
    · split
      · exact .throw _
      · exact ih
    · exact ih

theorem setData_blind (key value : Value) : Sightless (setData key value) := by
  intro old
  refine Blind.bind ?_ fun _ => .pure _
  exact (sendAll_blind _ old).bind fun _ => .get_bind (fun _ => rfl) fun _ => .pure _

end HostedStore

theorem Store.setData_blind (key value : Value) : Work.Sightless (setData key value) := by
  intro old
  refine .get_bind (fun _ => rfl) fun w => ?_
  split
  · exact LocalStore.setData_blind key value old
  · exact HostedStore.setData_blind key value old

/-! ## Actions of nodes -/

namespace Act

variable {α β : Type} {old : List Entry}

theorem ofAttempt_blind (a : Attempt α) : Sightless (ofAttempt a) := by
  intro old
  cases a with
  | ok a => exact .pure a
  | error f => exact .throw f

/-- What follows an attempt does not see the journal if it does not for any value. -/
theorem blind_ofAttempt_bind {a : Attempt α} {next : α → Act β}
    (h : ∀ v, Blind (Bench.above old) (next v)) : Blind (Bench.above old) (ofAttempt a >>= next) :=
  (ofAttempt_blind a old).bind h

/-- The state is read, and is the same whatever is in the journal. -/
theorem blind_state_bind {next : RunState → Act β} (h : ∀ s, Blind (Bench.above old) (next s)) :
    Blind (Bench.above old) (state >>= next) :=
  Blind.bind (.get_bind (fun _ => rfl) fun _ => .pure _) h

theorem now_blind : Sightless now := fun _ => .get_bind (fun _ => rfl) fun _ => .pure _

theorem ofWork_blind {work : Work α} (h : work.Sightless) : Sightless (ofWork work) := by
  intro old bench
  have hwork : ∀ bench : Bench, StateT.run (ExceptT.run (ofWork work)) bench =
      StateT.run (ExceptT.run (ofAttempt (work.runIn bench.world).1))
        { bench with world := (work.runIn bench.world).2 } := fun _ => rfl
  have hrun : work.runIn (bench.world.above old) =
      ((work.runIn bench.world).1, (work.runIn bench.world).2.above old) := h old bench.world
  rw [hwork, hwork]
  change StateT.run (ExceptT.run (ofAttempt (work.runIn (bench.world.above old)).1))
    { bench with world := (work.runIn (bench.world.above old)).2 } = _
  rw [hrun]
  exact ofAttempt_blind (work.runIn bench.world).1 old { bench with world := _ }

theorem remark_blind (level : Level) (source message : String) :
    Sightless (remark level source message) :=
  ofWork_blind (Work.note_blind _)

theorem evaluate_blind (v : Value) : Sightless (evaluate v) := by
  intro old
  refine blind_state_bind fun s => ?_
  dsimp only
  split
  · split
    · exact .pure _
    · exact (remark_blind _ _ _ old).bind fun _ => .pure _
  · exact .pure _

theorem fillIn_blind (v : Value) : Sightless (fillIn v) := by
  intro old
  unfold fillIn
  split
  · split
    · exact blind_state_bind fun s => ofAttempt_blind _ old
    · exact .pure _
  · exact .throw _

theorem previousFields_blind : Sightless previousFields :=
  fun _ => blind_state_bind fun _ => .pure _

end Act

namespace Node

open Act

variable (node : Node)

theorem runTrigger_blind (event : TriggerEvent) : Sightless (runTrigger node event) := by
  intro old
  refine blind_state_bind fun s => ?_
  split
  · exact .pure _
  · exact (now_blind old).bind fun now => blind_ofAttempt_bind fun _ => .pure _

theorem runCondition_blind : Sightless (runCondition node) := by
  intro old
  refine blind_state_bind fun s => blind_ofAttempt_bind fun field => ?_
  refine blind_ofAttempt_bind fun operator => blind_ofAttempt_bind fun value => ?_
  exact blind_ofAttempt_bind fun found => blind_ofAttempt_bind fun _ => .pure _

theorem runSwitch_blind : Sightless (runSwitch node) := by
  intro old
  refine blind_state_bind fun s => blind_ofAttempt_bind fun field => ?_
  refine blind_ofAttempt_bind fun found => blind_ofAttempt_bind fun items => ?_
  exact blind_ofAttempt_bind fun fallback => blind_ofAttempt_bind fun _ => .pure _

theorem runMerge_blind : Sightless (runMerge node) := by
  intro old
  refine blind_state_bind fun s => blind_ofAttempt_bind fun mode => ?_
  dsimp only
  repeat' split
  all_goals exact .pure _

theorem mergeReady_blind : Sightless (mergeReady node) := by
  intro old
  refine blind_ofAttempt_bind fun waits => ?_
  split
  · exact .pure _
  · refine blind_state_bind fun s => ?_
    dsimp only
    split
    · exact .pure _
    · exact (ofWork_blind (Work.note_blind _) old).bind fun _ => .pure _

theorem convert_blind (raw type : Value) : Sightless (convert raw type) := by
  intro old
  refine blind_state_bind fun s => ?_
  dsimp only
  split
  · exact blind_ofAttempt_bind fun _ => .pure _
  · split
    · exact blind_ofAttempt_bind fun _ => .pure _
    · split
      · exact evaluate_blind raw old
      · split
        · exact fillIn_blind _ old
        · exact .pure _

theorem setAll_blind (time : Nat) (entries : List Value) :
    ∀ (slot : Nat) (done : Fields), Sightless (setAll time slot done entries) := by
  induction entries with
  | nil => exact fun _ done _ => .pure done
  | cons entry rest ih =>
    intro slot done old
    refine blind_ofAttempt_bind fun raw => blind_ofAttempt_bind fun type => ?_
    refine (convert_blind _ _ old).bind fun value => blind_ofAttempt_bind fun name => ?_
    exact Blind.change_bind (fun _ => rfl) fun _ => ih _ _ old

theorem runSetVariable_blind : Sightless (runSetVariable node) := by
  intro old
  refine blind_state_bind fun s => blind_ofAttempt_bind fun entries => ?_
  exact (setAll_blind _ _ _ _ old).bind fun done => (previousFields_blind old).bind fun _ => .pure _

theorem sleep_above (old : List Entry) (w : World) (seconds : Float) :
    (w.above old).sleep seconds = ((w.sleep seconds).1, (w.sleep seconds).2.above old) := by
  have hinterrupt : (w.above old).interruptAfter = w.interruptAfter := rfl
  unfold World.sleep
  rw [hinterrupt]
  rcases w.interruptAfter with _ | _ | _ | n <;> rfl

theorem runWait_blind : Sightless (runWait node) := by
  intro old
  refine blind_ofAttempt_bind fun span => (remark_blind _ _ _ old).bind fun _ => ?_
  have hsleep : Work.Sightless (Work.ofStep fun w => w.sleep (span / Number.nearest false 1000 1)) :=
    Work.ofStep_blind fun old w => sleep_above old w _
  refine (ofWork_blind hsleep old).bind fun _ => (previousFields_blind old).bind fun before => ?_
  exact (now_blind old).bind fun _ => .pure _

theorem runFilter_blind : Sightless (runFilter node) := by
  intro old
  refine blind_state_bind fun s => ?_
  dsimp only
  split
  · exact blind_ofAttempt_bind fun _ => .pure _
  · split
    · exact blind_ofAttempt_bind fun _ => .pure _
    · exact blind_ofAttempt_bind fun _ => .pure _

theorem runSort_blind : Sightless (runSort node) := by
  intro old
  refine blind_state_bind fun s => ?_
  dsimp only
  split
  · exact blind_ofAttempt_bind fun direction => blind_ofAttempt_bind fun _ => .pure _
  · split
    · exact blind_ofAttempt_bind fun _ => .pure _
    · exact .pure _

theorem bodyArgument_blind (method : String) : Sightless (bodyArgument node method) := by
  intro old
  refine blind_ofAttempt_bind fun body => ?_
  split
  · exact .pure _
  · split
    · refine (fillIn_blind _ old).bind fun filled => ?_
      split
      · split
        · exact .pure _
        · exact .pure _
      · exact .pure _
    · exact .pure _

theorem buildRequest_blind : Sightless (buildRequest node) := by
  intro old
  refine blind_ofAttempt_bind fun method => blind_ofAttempt_bind fun address => ?_
  refine (fillIn_blind address old).bind fun url => blind_ofAttempt_bind fun headers => ?_
  refine .get_bind (fun _ => rfl) fun bench => ?_
  exact (bodyArgument_blind node method old).bind fun body => blind_ofAttempt_bind fun _ => .pure _

theorem request_above (old : List Entry) (w : World) (arguments : Value) :
    (w.above old).request arguments =
      ((w.request arguments).1, (w.request arguments).2.above old) := by
  have hreplies : (w.above old).replies = w.replies := rfl
  simp only [World.request, hreplies]
  cases w.replies <;> rfl

theorem runRequest_blind : Sightless (runRequest node) := by
  intro old
  refine (buildRequest_blind node old).bind fun request => blind_ofAttempt_bind fun url => ?_
  refine blind_ofAttempt_bind fun method => (remark_blind _ _ _ old).bind fun _ => ?_
  have hsend : Work.Sightless (Work.ofStep fun w => w.request request) :=
    Work.ofStep_blind fun old w => request_above old w request
  refine (ofWork_blind hsend old).bind fun response => ?_
  dsimp only
  split
  · exact (remark_blind _ _ _ old).bind fun _ => .pure _
  · exact .pure _

theorem valueToStore_blind : Sightless (valueToStore node) := by
  intro old
  refine blind_ofAttempt_bind fun raw => ?_
  split
  · exact blind_state_bind fun _ => .pure _
  · split
    · refine (fillIn_blind _ old).bind fun filled => ?_
      split
      · split
        · exact .pure _
        · exact .pure _
      · exact .pure _
    · exact .pure _

theorem runStoring_blind : Sightless (runStoring node) := by
  intro old
  refine blind_state_bind fun s => ?_
  split
  · exact Blind.throw Failure.noStorage
  · refine blind_ofAttempt_bind fun name => blind_ofAttempt_bind fun key => ?_
    refine (valueToStore_blind node old).bind fun value => blind_ofAttempt_bind fun stored => ?_
    exact (ofWork_blind (Store.setData_blind _ _) old).bind fun _ => .pure _

theorem runResponse_blind : Sightless (runResponse node) := by
  intro old
  refine blind_ofAttempt_bind fun body => blind_ofAttempt_bind fun status => ?_
  refine blind_ofAttempt_bind fun headers => ?_
  split
  · exact (fillIn_blind _ old).bind fun _ => .pure _
  · exact .pure _

/-- A function from outside sees the state alone. -/
theorem runCustom_blind (run : Executor) (branching : Bool) :
    Sightless (runCustom node run branching) := by
  intro old bench
  let acted := StateT.run (ExceptT.run (run node.settings)) bench.state
  have hrest : Blind (Bench.above old) (Act.ofAttempt acted.1 >>= fun reply =>
      if branching then Act.ofAttempt (chosenBranch acted.2.toScopes reply) else pure reply) := by
    refine blind_ofAttempt_bind fun reply => ?_
    split
    · exact ofAttempt_blind _ old
    · exact .pure _
  exact hrest { bench with state := acted.2 }

theorem loopItems_blind : Sightless (loopItems node) := by
  intro old
  refine blind_ofAttempt_bind fun setting => blind_state_bind fun s => ?_
  refine (evaluate_blind _ old).bind fun items => ?_
  split
  · exact .pure _
  · exact .pure _
  · exact .throw _

theorem isReady_blind : Sightless node.isReady := by
  intro old
  unfold isReady
  split
  · exact mergeReady_blind node old
  · exact .pure _

/-- **No node reads the journal.** -/
theorem execute_blind : Sightless node.execute := by
  intro old
  unfold execute
  cases node.cls.kind with
  | trigger event => exact runTrigger_blind node event old
  | condition => exact runCondition_blind node old
  | switch => exact runSwitch_blind node old
  | loop => exact .throw _
  | merge => exact runMerge_blind node old
  | setVariable => exact runSetVariable_blind node old
  | wait => exact runWait_blind node old
  | filter => exact runFilter_blind node old
  | sort => exact runSort_blind node old
  | httpRequest => exact runRequest_blind node old
  | storeData => exact runStoring_blind node old
  | webhookResponse => exact runResponse_blind node old
  | passthrough => exact blind_state_bind fun _ => .pure _
  | custom run branching => exact runCustom_blind node run branching old

end Node

end WorkflowEngine
