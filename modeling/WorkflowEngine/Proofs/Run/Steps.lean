import WorkflowEngine.Proofs.Graph.Body
import WorkflowEngine.Proofs.Run.Course
import WorkflowEngine.Proofs.Walk.Outcome

/-!
# The engine moves

Every part of the engine takes a run from stage to stage by moves: a walk from wherever it begins,
in whichever replays, and whether it ends, is given up or is out of steps (`leads_walk`). Each part
has one lemma here, and no later proof opens the code of the engine again.
-/

namespace WorkflowEngine

namespace Node

/-- A loop acts by its replay. -/
theorem act_loop (plan : Plan) (replay : Key → Walk Unit) {node : Node}
    (kind : node.cls.kind = .loop) : node.act plan replay = node.runLoop plan replay := by
  simp only [act, kind]

/-- Any other node acts by itself. -/
theorem act_plain (plan : Plan) (replay : Key → Walk Unit) {node : Node}
    (kind : node.cls.kind ≠ .loop) : node.act plan replay = Walk.ofAct node.execute := by
  unfold act
  split
  · contradiction
  · rfl

end Node

namespace Plan

open Walk

variable {α β : Type} (plan : Plan)

/-- A part that is done in a run leads by moves from a stage to a place, or, given up, with its
failure to another place. Out of steps it stays in a walk. -/
def Leads (s : Stage) (part : Walk α) (run : Run) (goal out : Place) : Prop :=
  match part.run run with
  | (some (.ok _), run') => plan.Reaches s ⟨run', goal, none⟩
  | (some (.error f), run') => plan.Reaches s ⟨run', out, some f⟩
  | (none, run') => ∃ replays, plan.Reaches s ⟨run', ⟨.walking, replays⟩, none⟩

variable {plan} {s t : Stage} {run run' : Run} {part : Walk α} {next : α → Walk β}
variable {p q goal out : Place}

namespace Leads

theorem of_ok {a : α} (hrun : part.run run = (some (.ok a), run'))
    (h : plan.Reaches s ⟨run', goal, none⟩) : plan.Leads s part run goal out := by
  unfold Leads
  rw [hrun]
  exact h

theorem of_error {f : Failure} (hrun : part.run run = (some (.error f), run'))
    (h : plan.Reaches s ⟨run', out, some f⟩) : plan.Leads s part run goal out := by
  unfold Leads
  rw [hrun]
  exact h

/-- A part that leads back to a walk comes to a stage of one, however far it gets. -/
theorem reaches {replays replays' : List Invocation}
    (h : plan.Leads s part run ⟨.walking, replays⟩ ⟨.walking, replays'⟩) :
    ∃ replays cause, plan.Reaches s ⟨(part.run run).2, ⟨.walking, replays⟩, cause⟩ := by
  unfold Leads at h
  split at h
  · rename_i hrun
    exact ⟨replays, none, by rw [hrun]; exact h⟩
  · rename_i f _ hrun
    exact ⟨replays', some f, by rw [hrun]; exact h⟩
  · rename_i hrun
    obtain ⟨replays, h⟩ := h
    exact ⟨replays, none, by rw [hrun]; exact h⟩

/-- What leads on from a later stage leads on from an earlier one. -/
theorem after (hs : plan.Reaches s t) (h : plan.Leads t part run goal out) :
    plan.Leads s part run goal out := by
  unfold Leads at h ⊢
  split at h
  · exact hs.trans h
  · exact hs.trans h
  · obtain ⟨replays, h⟩ := h
    exact ⟨replays, hs.trans h⟩

theorem pure (a : α) (h : plan.Reaches s ⟨run, goal, none⟩) :
    plan.Leads s (pure a : Walk α) run goal out :=
  of_ok (run_pure a run) h

/-- A step with a value leaves the rest to be done in the run that it leaves. -/
theorem step {a : α} (hrun : part.run run = (some (.ok a), run'))
    (h : plan.Leads s (next a) run' goal out) : plan.Leads s (part >>= next) run goal out := by
  unfold Leads
  rw [run_bind, hrun]
  exact h

/-- A sequence leads on from where its first part has led, in the run that this has left. -/
theorem bind_run (h : plan.Leads s part run q out)
    (hn : ∀ a run', part.run run = (some (.ok a), run') →
      plan.Leads ⟨run', q, none⟩ (next a) run' goal out) :
    plan.Leads s (part >>= next) run goal out := by
  unfold Leads at h ⊢
  rw [run_bind]
  rcases hrun : part.run run with ⟨_ | f | a, run'⟩
  · rw [hrun] at h
    exact h
  · rw [hrun] at h
    exact h
  · rw [hrun] at h
    exact (hn a run' hrun).after h

theorem bind (h : plan.Leads s part run q out)
    (hn : ∀ a run', plan.Leads ⟨run', q, none⟩ (next a) run' goal out) :
    plan.Leads s (part >>= next) run goal out :=
  h.bind_run fun a run' _ => hn a run'

/-- A part whose failure is caught leads on from where it failed as well. -/
theorem handle {next : Attempt α → Walk β} (h : plan.Leads s part run q out)
    (hok : ∀ a run', plan.Leads ⟨run', q, none⟩ (next (.ok a)) run' goal p)
    (herror : ∀ f run', plan.Leads ⟨run', out, some f⟩ (next (.error f)) run' goal p) :
    plan.Leads s (outcome part >>= next) run goal p := by
  unfold Leads at h ⊢
  rw [run_bind, run_outcome]
  rcases hrun : part.run run with ⟨_ | f | a, run'⟩
  · rw [hrun] at h
    exact h
  · rw [hrun] at h
    exact (herror f run').after h
  · rw [hrun] at h
    exact (hok a run').after h

/-- What is put between two steps: the first is made before, and the second moves on from where the
part has led, with its failure if it is given up. -/
theorem between {before last : Walk Unit} {g : Run → Run}
    (hbefore : before.run run = (some (.ok ()), run')) (h : plan.Leads s part run' q q)
    (hlast : ∀ r, last.run r = (some (.ok ()), g r))
    (hmove : ∀ r cause, plan.Reaches ⟨r, q, cause⟩ ⟨g r, goal, cause⟩) :
    plan.Leads s (Walk.between before last part) run goal goal := by
  refine step hbefore (handle h ?_ ?_)
  · exact fun a r => step (hlast r) (of_ok (run_ofAttempt _ _) (hmove r none))
  · exact fun f r => step (hlast r) (of_error (run_ofAttempt _ _) (hmove r (some f)))

theorem forM {f : Key → Walk Unit} (h : ∀ id run, plan.Leads ⟨run, p, none⟩ (f id) run p p)
    (ids : List Key) (run : Run) : plan.Leads ⟨run, p, none⟩ (ids.forM f) run p p := by
  induction ids generalizing run with
  | nil => exact pure () .refl
  | cons id ids ih => exact (h id run).bind fun _ run' => ih run'

end Leads

/-- Where a step may be given up without leaving the place. -/
def GivesUp (plan : Plan) (p : Place) : Prop := ∀ run f, plan.Move ⟨run, p, none⟩ ⟨run, p, some f⟩

theorem givesUp_acting (plan : Plan) (call : Invocation) (replays : List Invocation) :
    plan.GivesUp ⟨.acting call, replays⟩ :=
  fun _ f => .raise f

theorem givesUp_replaying (plan : Plan) (call : Invocation) (replays : List Invocation) :
    plan.GivesUp ⟨.walking, call :: replays⟩ :=
  fun _ f => .spoil f

theorem reaches_quiet (run : Run) (p : Place) (cause : Option Failure) {bench : Bench}
    (h : run.toBench.Spared bench) : plan.Reaches ⟨run, p, cause⟩ ⟨run.onBench bench, p, cause⟩ :=
  .single (.quiet h)

/-- A remark in the journal is quiet. -/
theorem reaches_note (run : Run) (p : Place) (cause : Option Failure) {event : Event}
    (h : event.isRemark = true) :
    plan.Reaches ⟨run, p, cause⟩ ⟨{ run with world := run.world.note event }, p, cause⟩ :=
  reaches_quiet run p cause ⟨⟨run.state.vars, rfl⟩, .note h⟩

/-- A change of the tag is quiet. -/
theorem reaches_tag (run : Run) (p : Place) (cause : Option Failure) (tag : Tag) :
    plan.Reaches ⟨run, p, cause⟩ ⟨{ run with world := { run.world with tag := tag } }, p, cause⟩ :=
  reaches_quiet run p cause ⟨⟨run.state.vars, rfl⟩, .of_eq rfl rfl rfl⟩

theorem leads_ofAttempt (hp : plan.GivesUp p) (a : Attempt α) (run : Run) :
    plan.Leads ⟨run, p, none⟩ (ofAttempt a) run p p := by
  cases a with
  | ok a => exact Leads.of_ok (run_ofAttempt _ _) .refl
  | error f => exact Leads.of_error (run_ofAttempt _ _) (.single (hp run f))

/-- An action that spares what is the engine's leads nowhere else. -/
theorem leads_ofAct (hp : plan.GivesUp p) {act : Act α} (h : act.Modest) (run : Run) :
    plan.Leads ⟨run, p, none⟩ (ofAct act) run p p := by
  have hquiet : plan.Reaches ⟨run, p, none⟩ ⟨run.onBench (act.runOn run.toBench).2, p, none⟩ :=
    reaches_quiet run p none (h run.toBench).spared
  cases hact : (act.runOn run.toBench).1 with
  | ok a =>
    refine Leads.of_ok (a := a) ?_ hquiet
    rw [run_ofAct, hact]
    rfl
  | error f =>
    refine Leads.of_error (f := f) ?_ (hquiet.tail (hp _ f))
    rw [run_ofAct, hact]
    rfl

/-! ## Invocations -/

section Invocation

variable {replay : Key → Walk Unit} {call : Invocation} {replays : List Invocation}

/-- A function from outside moves the state and may give up. -/
theorem leads_runCustom {executor : Executor} {branching : Bool}
    (hkind : call.node.cls.kind = .custom executor branching) (run : Run) :
    plan.Leads ⟨run, ⟨.acting call, replays⟩, none⟩
      (ofAct (call.node.runCustom executor branching)) run ⟨.acting call, replays⟩
      ⟨.acting call, replays⟩ := by
  have hbench := Node.runCustom_runOn call.node executor branching run.toBench
  have hmove : plan.Reaches ⟨run, ⟨.acting call, replays⟩, none⟩
      ⟨run.withState (executor.after call.node.settings), ⟨.acting call, replays⟩, none⟩ :=
    .single (.foreign hkind)
  cases hact : ((call.node.runCustom executor branching).runOn run.toBench).1 with
  | ok a =>
    refine Leads.of_ok (a := a) ?_ hmove
    rw [run_ofAct, hact, hbench]
    rfl
  | error f =>
    refine Leads.of_error (f := f) ?_ (hmove.tail (.raise f))
    rw [run_ofAct, hact, hbench]
    rfl

/-- What a node does by itself, it does where it is. -/
theorem leads_execute (run : Run) :
    plan.Leads ⟨run, ⟨.acting call, replays⟩, none⟩ (ofAct call.node.execute) run
      ⟨.acting call, replays⟩ ⟨.acting call, replays⟩ := by
  by_cases hcustom : ∃ executor branching, call.node.cls.kind = .custom executor branching
  · obtain ⟨executor, branching, hcustom⟩ := hcustom
    have hact : call.node.execute = call.node.runCustom executor branching := by
      simp only [Node.execute, hcustom]
    rw [hact]
    exact leads_runCustom hcustom run
  · refine leads_ofAct (givesUp_acting plan call replays) (Node.execute_modest call.node ?_) run
    exact fun executor branching h => hcustom ⟨executor, branching, h⟩

/-- Turning a replay to an item stays in the replay. -/
theorem leads_beginItem (itemName indexName : Value) (index : Nat) (item : Value) (run : Run) :
    plan.Leads ⟨run, ⟨.walking, call :: replays⟩, none⟩
      (Node.beginItem itemName indexName index item) run ⟨.walking, call :: replays⟩
      ⟨.walking, call :: replays⟩ := by
  have hup := givesUp_replaying plan call replays
  have hset : ∀ (name : Key) (v : Value) (run : Run),
      plan.Leads ⟨run, ⟨.walking, call :: replays⟩, none⟩
        (changeState fun s => s.setVariable name v) run ⟨.walking, call :: replays⟩
        ⟨.walking, call :: replays⟩ := fun name v run =>
    .of_ok (run_changeState _ _) (reaches_quiet run _ none ⟨⟨_, rfl⟩, refl_of World.Spared _⟩)
  have hoffer : ∀ run : Run, plan.Leads ⟨run, ⟨.walking, call :: replays⟩, none⟩
      (changeState fun s => s.setPrevious item) run ⟨.walking, call :: replays⟩
      ⟨.walking, call :: replays⟩ := fun run =>
    .of_ok (run_changeState _ _) (.single (.offer item))
  refine Leads.step (run_changeState _ run) (Leads.after (.single (.turn index)) ?_)
  refine (leads_ofAttempt hup itemName.key _).bind fun name run => ?_
  refine (hset name item run).bind fun _ run => ?_
  split
  · refine (leads_ofAttempt hup indexName.key run).bind fun name run => ?_
    exact (hset name _ run).bind fun _ run => hoffer run
  · exact hoffer run

/-- Replaying the walks from some targets stays in the replay. -/
theorem leads_replayItems
    (hreplay : ∀ id run, plan.Leads ⟨run, ⟨.walking, call :: replays⟩, none⟩ (replay id) run
      ⟨.walking, call :: replays⟩ ⟨.walking, call :: replays⟩)
    (targets : List Key) (itemName indexName : Value) (items : List Value) (index : Nat)
    (run : Run) :
    plan.Leads ⟨run, ⟨.walking, call :: replays⟩, none⟩
      (Node.replayItems replay targets itemName indexName index items) run
      ⟨.walking, call :: replays⟩ ⟨.walking, call :: replays⟩ := by
  induction items generalizing index run with
  | nil => exact Leads.pure [] .refl
  | cons item rest ih =>
    refine (leads_beginItem itemName indexName index item run).bind fun _ run => ?_
    refine (Leads.forM hreplay targets run).bind fun _ run => ?_
    exact (ih (index + 1) run).bind fun _ run => Leads.pure _ .refl

/-- A loop enters its replay, leaves it however it ends, and marks its body if it is done. -/
theorem leads_runLoop (hkind : call.node.cls.kind = .loop)
    (hreplay : ∀ id run, plan.Leads ⟨run, ⟨.walking, call :: replays⟩, none⟩ (replay id) run
      ⟨.walking, call :: replays⟩ ⟨.walking, call :: replays⟩) (run : Run) :
    plan.Leads ⟨run, ⟨.acting call, replays⟩, none⟩ (Node.runLoop plan replay call.node) run
      ⟨.answered call, replays⟩ ⟨.acting call, replays⟩ := by
  have hup := givesUp_acting plan call replays
  refine (leads_ofAct hup (Node.loopItems_still call.node).modest run).bind fun items run => ?_
  refine (leads_ofAttempt hup _ run).bind fun itemName run => ?_
  refine (leads_ofAttempt hup _ run).bind fun indexName run => ?_
  refine Leads.step (run_note _ run) ?_
  -- the frame is left however the replay ends, with its failure if it is given up
  refine (Leads.between (run_changeState _ _) (Leads.after (.single (.enter items hkind)) ?_)
    (fun r => run_changeState _ r) (fun r cause => .single .leave)).bind fun reports run => ?_
  · exact leads_replayItems hreplay _ itemName indexName items 0 _
  · exact Leads.step (run_changeState _ run) (Leads.pure _ (.single (.mark hkind)))

/-- An invocation acts until it has its answer. -/
theorem leads_invoke
    (hreplay : ∀ id run, plan.Leads ⟨run, ⟨.walking, call :: replays⟩, none⟩ (replay id) run
      ⟨.walking, call :: replays⟩ ⟨.walking, call :: replays⟩) (run : Run) :
    plan.Leads ⟨run, ⟨.acting call, replays⟩, none⟩ (call.node.invoke plan replay) run
      ⟨.answered call, replays⟩ ⟨.acting call, replays⟩ := by
  refine Leads.step (run_get run) ?_
  refine (leads_ofAttempt (givesUp_acting plan call replays) _ run).bind fun _ run => ?_
  by_cases hkind : call.node.cls.kind = .loop
  · rw [Node.act_loop plan replay hkind]
    exact leads_runLoop hkind hreplay run
  · rw [Node.act_plain plan replay hkind, ← bind_pure (ofAct call.node.execute)]
    exact (leads_execute run).bind fun reply run => Leads.pure reply (.single (.answer hkind))

/-- An answer is kept. -/
theorem leads_settleReply (time : Nat) (reply : Reply) (run : Run) :
    plan.Leads ⟨run, ⟨.answered call, replays⟩, none⟩
      (settleReply call.node call.start call.input time reply) run ⟨.walking, replays⟩
      ⟨.walking, replays⟩ :=
  Leads.of_ok rfl (.single (.succeed reply.branch (reply.output.madeBy (.visit time 0))))

/-- A failure is passed on, and kept unless it is an interruption. -/
theorem run_settleFailure (call : Invocation) (f : Failure) (run : Run) :
    (settleFailure call.node call.start call.input f).run run =
      (some (.error f), if f.isRecordable then call.failed f run else run) := by
  unfold settleFailure
  cases f.isRecordable <;> rfl

theorem leads_settleFailure (f : Failure) (run : Run) :
    plan.Leads ⟨run, ⟨.acting call, replays⟩, some f⟩
      (settleFailure call.node call.start call.input f) run ⟨.walking, replays⟩
      ⟨.walking, replays⟩ := by
  refine Leads.of_error (run_settleFailure call f run) ?_
  cases hrec : f.isRecordable with
  | false => exact .single (.abandon hrec)
  | true => exact .single (.fail hrec)

end Invocation

/-! ## Visits and walks -/

section Visit

variable {replay : Key → Walk Unit} {replays : List Invocation}

/-- A node that has been invoked acts, and what comes of it is kept. -/
theorem leads_begun
    (hreplay : ∀ call id run, plan.Leads ⟨run, ⟨.walking, call :: replays⟩, none⟩ (replay id) run
      ⟨.walking, call :: replays⟩ ⟨.walking, call :: replays⟩) (node : Node) (run : Run) :
    plan.Leads ⟨Invocation.begun node (run.world.tag.within { node := .ofKey node.id }) run,
        ⟨.acting ⟨node, run.world.clock, run.state.previous⟩, replays⟩, none⟩
      (plan.execute replay node) run.visited ⟨.walking, replays⟩ ⟨.walking, replays⟩ := by
  refine Leads.step (run_changeState _ _) (Leads.step (run_get _) ?_)
  refine Leads.step (run_get _) (Leads.step (run_get _) (Leads.step (run_get _) ?_))
  refine Leads.between (run_changeWorld _ _) ?_ (fun r => run_changeWorld _ r)
    (fun r cause => reaches_tag r _ cause _)
  -- counting, stamping and noting are one move, which is made by now
  refine Leads.step (run_get _) (Leads.step (run_note _ _) ?_)
  refine Leads.handle (leads_invoke (hreplay _) _) ?_ ?_
  · exact fun reply run => leads_settleReply _ reply run
  · exact fun f run => leads_settleFailure f run

/-- A node is invoked, and what comes of it is kept. -/
theorem leads_executeNode {node : Node}
    (hreplay : ∀ call id run, plan.Leads ⟨run, ⟨.walking, call :: replays⟩, none⟩ (replay id) run
      ⟨.walking, call :: replays⟩ ⟨.walking, call :: replays⟩)
    (hknown : plan.nodes.lookup node.id = some node) (run : Run)
    (hdue : run.state.shouldSkip node.id = false) (hallowed : plan.Allows run.visited.visits)
    (hready : node.Waits → (node.missingSources run.state).isEmpty = true) :
    plan.Leads ⟨run, ⟨.walking, replays⟩, none⟩ (plan.execute replay node) run.visited
      ⟨.walking, replays⟩ ⟨.walking, replays⟩ :=
  (leads_begun hreplay node run).after (.single (.begin _ hknown hdue hallowed hready))

/-- Counting a visit goes well if that many are allowed. -/
theorem countVisit_allowed {run : Run} (h : plan.Allows run.visited.visits) :
    plan.countVisit.run run = (some (.ok ()), run.visited) := by
  unfold countVisit
  rw [run_bind, run_modify]
  cases hbudget : plan.budget with
  | none => rfl
  | some budget =>
    have hle : ¬ budget < (run.visited.visits : Int) := Int.not_lt.2 (h budget hbudget)
    simp only [run_bind, run_get]
    exact congrArg (Walk.run · run.visited) (if_neg hle)

/-- Otherwise it fails for the budget. -/
theorem countVisit_exceeded {run : Run} {b : Int} (hbudget : plan.budget = some b)
    (h : b < (run.visited.visits : Int)) :
    plan.countVisit.run run = (some (.error (.visitLimit b)), run.visited) := by
  unfold countVisit
  rw [run_bind, run_modify]
  simp only [hbudget, run_bind, run_get]
  exact congrArg (Walk.run · run.visited) (if_pos h)

variable (plan) in
/-- What the execution of a node comes to: what its invocation comes to, and whether that is kept.
-/
inductive ExecuteCase (replay : Key → Walk Unit) (node : Node) (run : Run) :
    Option (Attempt Value) × Run → Prop where
  /-- The steps are used up. -/
  | stopped {tag r}
      (invoked : (node.invoke plan replay).run (Invocation.begun node tag run) = (none, r)) :
      ExecuteCase replay node run (none, r)
  /-- The answer is kept, and chooses the branch. -/
  | answered {tag r reply} (call : Invocation) (output : Value) (same : call.node = node)
      (invoked : (node.invoke plan replay).run (Invocation.begun node tag run) =
        (some (.ok reply), r))
      (input : call.input = run.state.previous)
      (kept : output = reply.output.madeBy (.visit (run.state.time + 1) 0)) :
      ExecuteCase replay node run
        (some (.ok reply.branch), (call.succeeded reply.branch output r).tagged run.world.tag)
  /-- The failure is kept. -/
  | failed {tag r f} (call : Invocation) (same : call.node = node)
      (invoked : (node.invoke plan replay).run (Invocation.begun node tag run) =
        (some (.error f), r))
      (input : call.input = run.state.previous) :
      ExecuteCase replay node run (some (.error f), (call.failed f r).tagged run.world.tag)
  /-- An interruption is not kept. -/
  | abandoned {tag r f}
      (invoked : (node.invoke plan replay).run (Invocation.begun node tag run) =
        (some (.error f), r)) :
      ExecuteCase replay node run (some (.error f), r.tagged run.world.tag)

variable (plan) in
/-- **An execution invokes its node, and keeps what comes of that**, and there is nothing else that
it can come to. -/
theorem execute_cases (replay : Key → Walk Unit) (node : Node) (run : Run) :
    plan.ExecuteCase replay node run ((plan.execute replay node).run run.visited) := by
  let call : Invocation := ⟨node, run.world.clock, run.state.previous⟩
  simp only [execute, underNode, between, run_bind, run_changeState, run_get, run_changeWorld,
    run_note, run_outcome]
  generalize hinvoke : (node.invoke plan replay).run _ = res
  have hbegun : (node.invoke plan replay).run (Invocation.begun node
      (run.world.tag.within { node := .ofKey node.id }) run) = res := hinvoke
  rcases res with ⟨_ | f | reply, r⟩
  · exact .stopped hbegun
  · have hsettle := run_settleFailure call f r
    dsimp only [call, Run.visited] at hsettle ⊢
    rw [hsettle]
    cases f.isRecordable with
    | true => exact .failed call rfl hbegun rfl
    | false => exact .abandoned hbegun
  · exact .answered call _ rfl hbegun rfl rfl

/-- The nodes of a plan stand under their own identifiers. -/
def Named (plan : Plan) : Prop := ∀ id node, plan.nodes.lookup id = some node → node.id = id

/-- The nodes that a node which chose a branch leads to. -/
def leadsTo (plan : Plan) (node : Node) (branch : Value) : List Key :=
  if node.followsEdges then plan.graph.targets node.id branch else []

/-- Only a loop does not lead on. -/
theorem leadsTo_of_kind {node : Node} (kind : node.cls.kind ≠ .loop) (branch : Value) :
    plan.leadsTo node branch = plan.graph.targets node.id branch := by
  have hfollows : node.followsEdges = true := by
    unfold Node.followsEdges
    split
    · contradiction
    · rfl
  rw [leadsTo, if_pos hfollows]

theorem leadsTo_subset (node : Node) (branch : Value) :
    plan.leadsTo node branch ⊆ plan.graph.targets node.id := by
  unfold leadsTo
  split
  · exact plan.graph.targets_subset node.id branch
  · exact List.nil_subset _

variable (plan) in
/-- What a visit of a node in a run comes to. -/
inductive VisitCase (replay : Key → Walk Unit) (id : Key) (run : Run) :
    Option (Attempt (List Key)) × Run → Prop where
  /-- There is no such node. -/
  | unknown (unknown : plan.nodes.lookup id = none) : VisitCase replay id run (some (.ok []), run)
  /-- The node has been executed, and is passed over. -/
  | skipped {node} (known : plan.nodes.lookup id = some node)
      (skipped : run.state.shouldSkip id = true) :
      VisitCase replay id run
        (some (.ok []), { run with world := run.world.note (.skipped id) })
  /-- The node cannot tell whether it is ready. -/
  | unready {node f} (known : plan.nodes.lookup id = some node) (kind : node.cls.kind = .merge)
      (refused : node.setting "waitForAll" = .error f) :
      VisitCase replay id run (some (.error f), run)
  /-- The node is not ready, and is left. -/
  | deferred {node bench} (known : plan.nodes.lookup id = some node)
      (due : run.state.shouldSkip id = false)
      (waits : node.isReady.runOn run.toBench = (.ok false, bench))
      (spares : run.toBench.Spares Event.isComment bench) :
      VisitCase replay id run
        (some (.ok []),
          run.onBench { bench with world := bench.world.note (.deferred id node.type) })
  /-- The visit is one too many. -/
  | exceeded {bench b} (spares : run.toBench.Spares Event.isComment bench)
      (limited : plan.budget = some b) (spent : b < (run.visited.visits : Int)) :
      VisitCase replay id run (some (.error (.visitLimit b)), (run.onBench bench).visited)
  /-- The node is executed. -/
  | executed {node bench} (known : plan.nodes.lookup node.id = some node) (same : node.id = id)
      (due : run.state.shouldSkip id = false)
      (ready : node.isReady.runOn run.toBench = (.ok true, bench))
      (spares : run.toBench.Spares Event.isComment bench)
      (allowed : plan.Allows run.visited.visits) :
      VisitCase replay id run
        ((plan.execute replay node >>= fun branch => pure (plan.leadsTo node branch)).run
          (run.onBench bench).visited)

/-- **A visit passes over, leaves, or counts and executes its node**, and there is nothing else that
it can come to. -/
theorem visit_cases (hnamed : plan.Named) (replay : Key → Walk Unit) (id : Key) (run : Run) :
    plan.VisitCase replay id run ((plan.visit replay id).run run) := by
  unfold visit
  cases hknown : plan.nodes.lookup id with
  | none => exact .unknown hknown
  | some node =>
    have hsame : node.id = id := hnamed id node hknown
    have hspares : run.toBench.Spares Event.isComment (node.isReady.runOn run.toBench).2 :=
      (Node.isReady_still node run.toBench).spares
    simp only [run_bind, run_get]
    cases hdue : run.state.shouldSkip id with
    | true => exact .skipped hknown hdue
    | false =>
      rcases hready : node.isReady.runOn run.toBench with ⟨answer, bench⟩
      rw [hready] at hspares
      simp only [Bool.false_eq_true, if_false, run_bind, run_ofAct, hready]
      cases answer with
      | error f =>
        have hf : (node.isReady.runOn run.toBench).1 = .error f := by rw [hready]
        obtain ⟨hbench, hkind, hset⟩ := Node.isReady_error node hf
        rw [hready] at hbench
        subst hbench
        exact .unready hknown hkind hset
      | ok ready =>
        cases ready with
        | false => exact .deferred hknown hdue hready hspares
        | true =>
          change plan.VisitCase replay id run
            ((plan.countVisit >>= fun _ => plan.execute replay node >>= fun branch =>
              pure (if node.followsEdges then plan.graph.targets id branch else [])).run
                (run.onBench bench))
          rw [run_bind]
          by_cases hallowed : plan.Allows run.visited.visits
          · have hcount : plan.countVisit.run (run.onBench bench) =
                (some (.ok ()), (run.onBench bench).visited) := countVisit_allowed hallowed
            rw [hcount, ← hsame]
            exact .executed (hsame ▸ hknown) rfl (hsame ▸ hdue) hready hspares hallowed
          · obtain ⟨b, hlimited, hspent⟩ := not_allows.1 hallowed
            have hcount : plan.countVisit.run (run.onBench bench) =
                (some (.error (.visitLimit b)), (run.onBench bench).visited) :=
              countVisit_exceeded hlimited hspent
            rw [hcount]
            exact .exceeded hspares hlimited hspent

/-- A visit stays in the replays in which it began. -/
theorem leads_visit (hnamed : plan.Named)
    (hreplay : ∀ call id run, plan.Leads ⟨run, ⟨.walking, call :: replays⟩, none⟩ (replay id) run
      ⟨.walking, call :: replays⟩ ⟨.walking, call :: replays⟩) (id : Key) (run : Run) :
    plan.Leads ⟨run, ⟨.walking, replays⟩, none⟩ (plan.visit replay id) run ⟨.walking, replays⟩
      ⟨.walking, replays⟩ := by
  have hcase := visit_cases hnamed replay id run
  generalize hrun : (plan.visit replay id).run run = res at hcase
  cases hcase with
  | unknown => exact Leads.of_ok hrun .refl
  | skipped => exact Leads.of_ok hrun (reaches_note run _ none rfl)
  | unready known kind refused => exact Leads.of_error hrun (.single (.unready known kind refused))
  | deferred known due waits spares =>
    refine Leads.of_ok hrun ?_
    exact (reaches_quiet run _ none spares.spared).trans (reaches_note _ _ none rfl)
  | exceeded spares limited spent =>
    refine Leads.of_error hrun ?_
    exact (reaches_quiet run _ none spares.spared).tail (.exceed limited spent)
  | @executed node bench known same due ready spares allowed =>
    -- the question is quiet, so the node is still due after it
    have hdue : (run.onBench bench).state.shouldSkip node.id = false := by
      rw [same]
      exact (spares.state.shouldSkip_eq id).trans due
    have hready : node.Waits → (node.missingSources (run.onBench bench).state).isEmpty = true := by
      intro hwaits
      have hasked := Node.isReady_waits hwaits run.toBench
      rw [ready] at hasked
      obtain ⟨vars, hstate⟩ := spares.state
      rw [Run.onBench, hstate]
      exact (Except.ok.inj hasked).symm
    have hexecute := (leads_executeNode hreplay known (run.onBench bench) hdue allowed hready).bind
      fun branch run => Leads.pure (plan.leadsTo node branch) .refl
    have hleads := hexecute.after (reaches_quiet run _ none spares.spared)
    unfold Leads at hleads ⊢
    rwa [hrun]

/-- **A walk goes from stage to stage by moves**, from wherever it begins and in whichever replays,
and comes back to them when it ends or is given up. -/
theorem leads_walk (hnamed : plan.Named) (fuel : Nat) :
    ∀ (stack : List Key) (replays : List Invocation) (run : Run),
      plan.Leads ⟨run, ⟨.walking, replays⟩, none⟩ (plan.walk fuel stack) run ⟨.walking, replays⟩
        ⟨.walking, replays⟩ := by
  induction fuel with
  | zero => exact fun _ replays _ => ⟨replays, .refl⟩
  | succ fuel ih =>
    intro stack replays run
    cases stack with
    | nil => exact Leads.pure () .refl
    | cons id rest =>
      refine (leads_visit hnamed (fun call id run => ih [id] (call :: replays) run) id run).bind ?_
      exact fun next run => ih (next ++ rest) replays run

end Visit

end Plan

end WorkflowEngine
