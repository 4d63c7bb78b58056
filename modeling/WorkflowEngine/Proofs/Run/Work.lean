import WorkflowEngine.Proofs.Graph.Ways
import WorkflowEngine.Proofs.Node.Straight
import WorkflowEngine.Proofs.Run.Rounds
import WorkflowEngine.Proofs.Run.Scopes

/-!
# The work of a loop

What an invocation of a loop records, for every run in which it succeeds, however the loop was come
to. Its body has no circle and goes on along all its edges; then the results come in rounds, one for
each item, and in each round every node of the body has as many results as there are ways to it from
the loop (`Departure.Of.execute_work`). Where ways meet again and again, the work of an item grows
with the number of ways, and not with that of the nodes.
-/

namespace WorkflowEngine

open Walk

/-- A node of the library goes on along all its edges unless it is a loop, a merge that waits, a
condition or a switch. -/
theorem Node.steady_of_native {node : Node} (loop : node.cls.kind ≠ .loop) (eager : ¬ node.Waits)
    (condition : node.cls.kind ≠ .condition) (switch : node.cls.kind ≠ .switch)
    (native : ∀ run branching, node.cls.kind ≠ .custom run branching) : node.Steady :=
  ⟨loop, eager, node.execute_straight native condition switch⟩

/-! ## Successions -/

/-- Some marks show some nodes to be invoked one after another, each to its success and all under
the same frames. -/
inductive Succession (frames : List Frame) : (trace : List Key) → List Mark → Prop
  | nil : Succession frames [] []
  | cons {s s' : RunState} {r : NodeResult} {trace : List Key} {marks : List Mark}
      (invoked : s.frames = frames) (kept : s'.frames = frames) (succeeded : r.succeeded = true)
      (rest : Succession frames trace marks) :
      Succession frames (r.node :: trace) (.invoked r.node s :: .kept r s' :: marks)

namespace Succession

variable {frames : List Frame} {trace trace' : List Key} {marks marks' : List Mark}

theorem append (h : Succession frames trace marks) (h' : Succession frames trace' marks') :
    Succession frames (trace ++ trace') (marks ++ marks') := by
  induction h with
  | nil => exact h'
  | cons invoked kept succeeded _ ih => exact .cons invoked kept succeeded ih

theorem map_node (h : Succession frames trace marks) :
    (marks.filterMap Mark.result?).map NodeResult.node = trace := by
  induction h with
  | nil => rfl
  | cons _ _ _ _ ih => exact congrArg (_ :: ·) ih

theorem all_succeeded (h : Succession frames trace marks) :
    ∀ r ∈ marks.filterMap Mark.result?, r.succeeded = true := by
  induction h with
  | nil => simp
  | cons _ _ succeeded _ ih => exact List.forall_mem_cons.2 ⟨succeeded, ih⟩

/-- The frames of a succession are those of every state in it. -/
theorem all_frames (h : Succession frames trace marks) :
    ∀ mark ∈ marks, mark.shown.2.2.frames = frames := by
  induction h with
  | nil => simp
  | cons invoked kept _ _ ih =>
    exact List.forall_mem_cons.2 ⟨invoked, List.forall_mem_cons.2 ⟨kept, ih⟩⟩

/-- So many results are of a node as it comes up in the succession. -/
theorem countP_node (h : Succession frames trace marks) (id : Key) :
    (marks.filterMap Mark.result?).countP (·.node == id) = trace.count id := by
  rw [← h.map_node, List.count, List.countP_map]
  rfl

end Succession

/-- Under some frames a part of a walk that comes to a value has shown a succession of nodes, of which
something is known, and is under the same frames again. -/
def Walk.Shows {α : Type} (frames : List Frame) (part : Walk α) (known : α → List Key → Prop) :
    Prop :=
  ∀ run : Run, run.state.frames = frames → ∀ a run', part.run run = (some (.ok a), run') →
    run'.state.frames = frames ∧ ∃ trace marks, Noted run run' marks ∧
      Succession frames trace marks ∧ known a trace

namespace Walk.Shows

variable {α β : Type} {frames : List Frame}

theorem pure {a : α} {known : α → List Key → Prop} (h : known a []) :
    Shows frames (pure a : Walk α) known := by
  intro run hframes b run' hrun
  cases hrun
  exact ⟨hframes, [], [], .same rfl rfl, .nil, h⟩

theorem exhausted {known : α → List Key → Prop} : Shows frames (exhausted : Walk α) known := by
  intro run _ a run' hrun
  cases hrun

theorem bind {part : Walk α} {next : α → Walk β} {first : α → List Key → Prop}
    {known : β → List Key → Prop} (h : Shows frames part first)
    (hn : ∀ a trace, first a trace →
      Shows frames (next a) fun b trace' => known b (trace ++ trace')) :
    Shows frames (part >>= next) known := by
  intro run hframes b run'' hrun
  obtain ⟨a, run', hpart, hnext⟩ := run_bind_ok hrun
  obtain ⟨hframes', trace, marks, hnoted, hshown, hfirst⟩ := h run hframes a run' hpart
  obtain ⟨hframes'', trace', marks', hnoted', hshown', hknown⟩ :=
    hn a trace hfirst run' hframes' b run'' hnext
  exact ⟨hframes'', trace ++ trace', marks ++ marks', hnoted.trans hnoted', hshown.append hshown',
    hknown⟩

end Walk.Shows

namespace Plan

variable {plan : Plan} {ids : List Key} {replay : Key → Walk Unit} {frames : List Frame}

/-! ## One node -/

/-- An execution that chooses a branch has invoked its node, and has kept the output that the node
answered with. -/
theorem execute_ok {node : Node} {run ended : Run} {branch : Value}
    (h : (plan.execute replay node).run run.visited = (some (.ok branch), ended)) :
    ∃ tag reply r, (node.invoke plan replay).run (Invocation.begun node tag run) =
        (some (.ok reply), r) ∧ branch = reply.branch ∧
      ended = (Invocation.succeeded ⟨node, run.world.clock, run.state.previous⟩ reply.branch
        (reply.output.madeBy (.visit (run.state.time + 1) 0)) r).tagged run.world.tag := by
  let call : Invocation := ⟨node, run.world.clock, run.state.previous⟩
  simp only [execute, underNode, between, run_bind, run_changeState, run_get, run_changeWorld,
    run_note, run_outcome] at h
  generalize hinvoke : (node.invoke plan replay).run _ = res at h
  have hbegun : (node.invoke plan replay).run (Invocation.begun node
      (run.world.tag.within { node := .ofKey node.id }) run) = res := hinvoke
  rcases res with ⟨_ | f | reply, r⟩
  · cases h
  · have hsettle := run_settleFailure call f r
    dsimp only [call, Run.visited] at hsettle h
    rw [hsettle] at h
    cases hkept : f.isRecordable <;> simp [hkept] at h
  · cases h
    exact ⟨_, reply, r, hbegun, rfl, rfl⟩

/-- A node that is no loop shows itself alone. -/
theorem shows_execute {node : Node} (kind : node.cls.kind ≠ .loop)
    (books : ∀ executor branching, node.cls.kind = .custom executor branching → executor.KeepsBooks)
    {run ended : Run} {branch : Value}
    (h : (plan.execute replay node).run run.visited = (some (.ok branch), ended)) :
    ended.state.frames = run.state.frames ∧
      (∃ marks, Noted run ended marks ∧ Succession run.state.frames [node.id] marks) ∧
      ∃ bench reply, (node.execute.runOn bench).1 = .ok reply ∧ branch = reply.branch := by
  obtain ⟨tag, reply, r, hinvoke, hbranch, rfl⟩ := execute_ok h
  let call : Invocation := ⟨node, run.world.clock, run.state.previous⟩
  let output := reply.output.madeBy (.visit (run.state.time + 1) 0)
  obtain ⟨o, bench, hplain, hbooks, hadds, hreply⟩ :=
    invoke_plain plan kind books replay (Invocation.begun node tag run)
  obtain ⟨ho, rfl⟩ := Prod.mk.inj (hplain.symm.trans hinvoke)
  have hacted : Noted (Invocation.begun node tag run)
      ((Invocation.begun node tag run).onBench bench) [] := .comments rfl hadds
  have hframes : bench.state.frames = run.state.frames := hbooks.frames
  have hrecorded : (bench.state.record node.id output).frames = run.state.frames :=
    (RunState.record_frames _ _ _).trans hframes
  refine ⟨hrecorded, ⟨_, (noted_begun node tag run).trans
    (hacted.trans (noted_succeeded call reply.branch output _ run.world.tag)), ?_⟩,
    _, reply, hreply reply (Option.some.inj ho), hbranch⟩
  exact .cons (r := call.result bench.world.clock (.ok output)) rfl hrecorded rfl .nil

/-- **A visit in a replay shows its node**, and leads on along all its edges. -/
theorem Steady.shows_visit (h : plan.Steady ids) (named : plan.Named) (books : plan.KeepsBooks)
    (inside : frames ≠ []) {id : Key} (hid : id ∈ ids) :
    Shows frames (plan.visit replay id) fun next trace =>
      next = plan.graph.targets id ∧ trace = [id] := by
  intro run hframes next ended hrun
  obtain ⟨node, hlookup, hsteady⟩ := h.steady id hid
  have hcase := visit_cases named replay id run
  generalize (plan.visit replay id).run run = res at hcase hrun
  cases hcase with
  | unknown unknown =>
    rw [hlookup] at unknown
    cases unknown
  | skipped _ skipped =>
    have hin : run.state.inLoop = true := by
      rw [RunState.inLoop, hframes]
      simpa using inside
    simp [RunState.shouldSkip, hin] at skipped
  | unready | exceeded => cases hrun
  | @deferred node' bench known _ waits =>
    obtain rfl : node = node' := Option.some.inj (hlookup.symm.trans known)
    exact absurd (node.isReady_false (congrArg Prod.fst waits)).1 hsteady.eager
  | @executed node' bench known same _ ready =>
    subst same
    obtain rfl : node = node' := Option.some.inj (hlookup.symm.trans known)
    have hstill : run.toBench.Still Event.isComment (node.isReady.runOn run.toBench).2 :=
      Node.isReady_still node run.toBench
    rw [ready] at hstill
    have hasked : Noted run (run.onBench bench) [] := .comments rfl hstill.world.journal
    have hsame : (run.onBench bench).state.frames = frames := by
      rw [← hframes]
      exact congrArg RunState.frames hstill.state
    obtain ⟨branch, r, hexecute, hnext⟩ := run_bind_ok hrun
    cases hnext
    obtain ⟨hended, ⟨marks, hnoted, hshown⟩, bench', reply, hreply, rfl⟩ :=
      shows_execute hsteady.kind
        (fun executor branching => books node.id node executor branching hlookup) hexecute
    rw [hsame] at hended hshown
    refine ⟨hended, [node.id], marks, hasked.trans hnoted, hshown, ?_, rfl⟩
    rw [leadsTo_of_kind hsteady.kind,
      Graph.targets_of_not_holds (hsteady.straight bench' reply hreply)]

/-! ## What a loop answers -/

/-- What a loop answers once it has been replayed for some items. -/
def loopOutput (items : List Value) : Value :=
  .object [("looped", .bool true), ("itemCount", .int items.length),
    ("results", .list (items.mapIdx Node.itemReport)), ("items", .list items)]

end Plan

namespace Node

variable {plan : Plan} {replay : Key → Walk Unit} {node : Node} {items : List Value}

/-- What a loop does once its items are known. -/
def replayAll (plan : Plan) (replay : Key → Walk Unit) (node : Node) (items : List Value) :
    Walk Reply := do
  let itemName ← ofAttempt (node.settingOr "itemVariable" (.text "item"))
  let indexName ← ofAttempt (node.setting "indexVariable")
  let targets := plan.graph.targets node.id
  note (.loopBegan node.id items.length targets)
  let reports ← between (changeState fun s => s.enterLoop node.id items)
    (changeState RunState.leaveLoop)
    (replayItems replay targets itemName indexName 0 items)
  changeState fun s => s.markExecuted (plan.graph.body node.id ++ [node.id])
  return .plain (.object [("looped", .bool true), ("itemCount", .int items.length),
    ("results", .list reports), ("items", .list items)])

theorem runLoop_eq (plan : Plan) (replay : Key → Walk Unit) (node : Node) :
    node.runLoop plan replay = ofAct node.loopItems >>= node.replayAll plan replay := rfl

/-- A part between two changes of the state that comes to a value has come to it after the first, and
before the second. -/
theorem run_between_ok {α : Type} {part : Walk α} {before after : RunState → RunState}
    {run ended : Run} {a : α}
    (h : (between (changeState before) (changeState after) part).run run = (some (.ok a), ended)) :
    ∃ left, part.run { run with state := before run.state } = (some (.ok a), left) ∧
      ended = { left with state := after left.state } := by
  obtain ⟨_, _, hbefore, h⟩ := run_bind_ok h
  obtain ⟨_, rfl⟩ := Prod.mk.inj hbefore
  obtain ⟨result, left, houtcome, h⟩ := run_bind_ok h
  obtain ⟨_, _, hafter, h⟩ := run_bind_ok h
  obtain ⟨_, rfl⟩ := Prod.mk.inj hafter
  rw [run_ofAttempt] at h
  obtain ⟨hresult, rfl⟩ := Prod.mk.inj h
  obtain rfl := Option.some.inj hresult
  rw [run_outcome] at houtcome
  split at houtcome
  · next hpart =>
    cases houtcome
    exact ⟨left, hpart, rfl⟩
  · cases houtcome

/-- Each item that is replayed is reported, in the order of the items. -/
theorem replayItems_reports {targets : List Key} {itemName indexName : Value}
    (left : List Value) : ∀ (index : Nat) (run ended : Run) (reports : List Value),
    (replayItems replay targets itemName indexName index left).run run =
      (some (.ok reports), ended) →
    reports = left.mapIdx fun i item => itemReport (index + i) item := by
  induction left with
  | nil =>
    intro index run ended reports h
    cases h
    rfl
  | cons item rest ih =>
    intro index run ended reports h
    rw [replayItems] at h
    obtain ⟨_, turned, -, h⟩ := run_bind_ok h
    obtain ⟨_, replayed, -, h⟩ := run_bind_ok h
    obtain ⟨others, last, hothers, h⟩ := run_bind_ok h
    cases h
    rw [ih (index + 1) replayed _ others hothers, List.mapIdx_cons, Nat.add_zero]
    refine congrArg (itemReport index item :: ·) (congrArg (List.mapIdx · rest) ?_)
    funext i
    rw [Nat.add_assoc, Nat.add_comm 1 i]

/-- A loop that comes to an answer reports all its items. -/
theorem replayAll_answer {run ended : Run} {reply : Reply}
    (h : (node.replayAll plan replay items).run run = (some (.ok reply), ended)) :
    reply = .plain (Plan.loopOutput items) := by
  rw [replayAll] at h
  obtain ⟨itemName, _, -, h⟩ := run_bind_ok h
  obtain ⟨indexName, _, -, h⟩ := run_bind_ok h
  obtain ⟨_, r, -, h⟩ := run_bind_ok h
  obtain ⟨reports, r', hreports, h⟩ := run_bind_ok h
  obtain ⟨_, _, -, h⟩ := run_bind_ok h
  cases h
  obtain ⟨left, hleft, -⟩ := run_between_ok hreports
  rw [replayItems_reports items 0 _ left reports hleft]
  simp only [Plan.loopOutput, Nat.zero_add]

end Node

namespace Plan

variable {plan : Plan} {ids : List Key} {frames : List Frame}

/-! ## The rounds of the items -/

/-- The walk from nodes of the body shows their unfolding. -/
theorem Steady.shows_walk (h : plan.Steady ids) (named : plan.Named) (books : plan.KeepsBooks)
    (inside : frames ≠ []) (fuel : Nat) : ∀ stack ⊆ ids,
    Shows frames (plan.walk fuel stack) fun _ trace => plan.graph.Unfolds stack trace := by
  induction fuel with
  | zero => exact fun _ _ => .exhausted
  | succ fuel ih =>
    intro stack hstack
    cases stack with
    | nil => exact .pure .nil
    | cons id rest =>
      have hid : id ∈ ids := hstack List.mem_cons_self
      refine (h.shows_visit named books inside hid).bind ?_
      rintro next trace ⟨rfl, rfl⟩
      intro run hframes a ended hrun
      obtain ⟨hended, trace, marks, hnoted, hshown, hunfolds⟩ :=
        ih _ (h.targets_append_subset hstack) run hframes a ended hrun
      exact ⟨hended, trace, marks, hnoted, hshown, .cons hunfolds⟩

theorem Steady.shows_forM (h : plan.Steady ids) (named : plan.Named) (books : plan.KeepsBooks)
    (inside : frames ≠ []) (fuel : Nat) : ∀ targets ⊆ ids,
    Shows frames (targets.forM fun id => plan.walk fuel [id]) fun _ trace =>
      plan.graph.Unfolds targets trace := by
  intro targets
  induction targets with
  | nil => exact fun _ => .pure .nil
  | cons id rest ih =>
    intro htargets
    have hid : [id] ⊆ ids := List.cons_subset.2 ⟨htargets List.mem_cons_self, List.nil_subset ids⟩
    have hrest : rest ⊆ ids := fun target htarget => htargets (List.mem_cons_of_mem _ htarget)
    refine (h.shows_walk named books inside fuel [id] hid).bind fun _ trace hunfolds => ?_
    intro run hframes a ended hrun
    obtain ⟨hended, trace', marks, hnoted, hshown, hunfolds'⟩ :=
      ih hrest run hframes a ended hrun
    exact ⟨hended, trace', marks, hnoted, hshown, hunfolds.append hunfolds'⟩

/-- Some marks are a round of a loop for the item at a place: what the loop leads to is unfolded, with
the frame of the loop at that item in front of the frames around it. -/
def Round (plan : Plan) (loop : Key) (items : List Value) (saved : Value) (frames : List Frame)
    (index : Nat) (round : List Mark) : Prop :=
  ∃ trace, plan.graph.Unfolds (plan.graph.targets loop) trace ∧
    Succession (⟨loop, items, index, saved⟩ :: frames) trace round

/-- **Each item that is left has its round.** The induction is on these items. -/
theorem Steady.rounds_items (h : plan.Steady ids) (named : plan.Named) (books : plan.KeepsBooks)
    (fuel : Nat) {loop : Key} (htargets : plan.graph.targets loop ⊆ ids) {items : List Value}
    {saved itemName indexName : Value} (left : List Value) : ∀ (index : Nat) (run : Run),
    Regime.InReplay loop items saved frames run.state.frames → ∀ reports ended,
    (Node.replayItems (fun id => plan.walk fuel [id]) (plan.graph.targets loop) itemName indexName
      index left).run run = (some (.ok reports), ended) →
    Regime.InReplay loop items saved frames ended.state.frames ∧
      ∃ rounds : List (List Mark), Noted run ended rounds.flatten ∧ rounds.length = left.length ∧
        ∀ i round, rounds[i]? = some round →
          plan.Round loop items saved frames (index + i) round := by
  induction left with
  | nil =>
    intro index run hin reports ended hrun
    cases hrun
    exact ⟨hin, [], .same rfl rfl, rfl, by simp⟩
  | cons item rest ih =>
    intro index run ⟨place, hplace⟩ reports ended hrun
    obtain ⟨o, s, hbegin, hturned, _⟩ := Node.run_beginItem itemName indexName index item run
    rw [RunState.setIndex_frames index hplace] at hturned
    rw [Node.replayItems] at hrun
    obtain ⟨_, turned, hturn, hrun⟩ := run_bind_ok hrun
    obtain ⟨_, rfl⟩ := Prod.mk.inj (hbegin.symm.trans hturn)
    obtain ⟨_, replayed, hreplay, hrun⟩ := run_bind_ok hrun
    obtain ⟨others, r, hothers, hrun⟩ := run_bind_ok hrun
    cases hrun
    obtain ⟨hreplayed, trace, round, hnoted, hshown, hunfolds⟩ :=
      h.shows_forM named books (List.cons_ne_nil _ _) fuel _ htargets _ hturned _ _ hreplay
    obtain ⟨hin, rounds, hnoted', hlength, hrounds⟩ :=
      ih (index + 1) replayed ⟨index, hreplayed⟩ others ended hothers
    have hquiet : Noted run { run with state := s } [] := .same rfl rfl
    refine ⟨hin, round :: rounds, hquiet.trans (hnoted.trans hnoted'),
      congrArg Nat.succ hlength, fun i round' hround => ?_⟩
    cases i with
    | zero =>
      obtain rfl := Option.some.inj hround
      exact ⟨trace, hunfolds, hshown⟩
    | succ i =>
      have := hrounds i round' hround
      rwa [Nat.add_assoc, Nat.add_comm 1 i] at this

/-- A loop that has come to an answer for some items has had a round for each of them. -/
theorem Steady.rounds_replayAll (h : plan.Steady ids) (named : plan.Named) (books : plan.KeepsBooks)
    (fuel : Nat) {node : Node} (htargets : plan.graph.targets node.id ⊆ ids) {items : List Value}
    {run ended : Run} {reply : Reply}
    (hrun : (node.replayAll plan (fun id => plan.walk fuel [id]) items).run run =
      (some (.ok reply), ended)) :
    ended.state.frames = run.state.frames ∧
      ∃ rounds : List (List Mark), Noted run ended rounds.flatten ∧
        rounds.length = items.length ∧ ∀ i round, rounds[i]? = some round →
          plan.Round node.id items run.state.previous run.state.frames i round := by
  rw [Node.replayAll] at hrun
  obtain ⟨itemName, r, hname, hrun⟩ := run_bind_ok hrun
  rw [run_ofAttempt] at hname
  obtain ⟨_, rfl⟩ := Prod.mk.inj hname
  obtain ⟨indexName, r, hname, hrun⟩ := run_bind_ok hrun
  rw [run_ofAttempt] at hname
  obtain ⟨_, rfl⟩ := Prod.mk.inj hname
  obtain ⟨_, r, hnote, hrun⟩ := run_bind_ok hrun
  rw [run_note] at hnote
  obtain ⟨_, rfl⟩ := Prod.mk.inj hnote
  obtain ⟨reports, r, hbetween, hrun⟩ := run_bind_ok hrun
  obtain ⟨left, hreplay, rfl⟩ := Node.run_between_ok hbetween
  cases hrun
  let began : Event := .loopBegan node.id items.length (plan.graph.targets node.id)
  let entered : Run :=
    { run with state := run.state.enterLoop node.id items, world := run.world.note began }
  have hbegan : Noted run entered [] :=
    .quiet [⟨run.world.tag, began⟩] (List.forall_mem_singleton.2 rfl) rfl rfl
  obtain ⟨⟨_, hplace⟩, rounds, hnoted, hlength, hrounds⟩ :=
    h.rounds_items named books fuel htargets items 0 entered ⟨0, rfl⟩ reports left hreplay
  let done := left.state.leaveLoop.markExecuted (plan.graph.body node.id ++ [node.id])
  have hleft : Noted left { left with state := done } [] := .same rfl rfl
  refine ⟨RunState.leaveLoop_frames hplace, rounds, ?_, hlength, fun i round hround => ?_⟩
  · simpa using hbegan.trans (hnoted.trans hleft)
  · simpa using hrounds i round hround

/-- A loop that comes to an answer has had a round for each of its items, and answers with them. -/
theorem Steady.rounds_runLoop (h : plan.Steady ids) (named : plan.Named) (books : plan.KeepsBooks)
    (fuel : Nat) {node : Node} (htargets : plan.graph.targets node.id ⊆ ids) {run ended : Run}
    {reply : Reply} (hrun : (node.runLoop plan fun id => plan.walk fuel [id]).run run =
      (some (.ok reply), ended)) :
    ended.state.frames = run.state.frames ∧
      ∃ items, (node.loopItems.runOn run.toBench).1 = .ok items ∧ reply = .plain (loopOutput items) ∧
        ∃ rounds : List (List Mark), Noted run ended rounds.flatten ∧
          rounds.length = items.length ∧ ∀ i round, rounds[i]? = some round →
            plan.Round node.id items run.state.previous run.state.frames i round := by
  rw [Node.runLoop_eq] at hrun
  obtain ⟨items, r, hact, hrun⟩ := run_bind_ok hrun
  rw [run_ofAct] at hact
  obtain ⟨hgiven, rfl⟩ := Prod.mk.inj hact
  have hstill : run.toBench.Still Event.isComment (node.loopItems.runOn run.toBench).2 :=
    Node.loopItems_still node run.toBench
  generalize (node.loopItems.runOn run.toBench).2 = bench at hstill hrun
  have hasked : Noted run (run.onBench bench) [] := .comments rfl hstill.world.journal
  have hstate : bench.state = run.state := hstill.state
  obtain ⟨hframes, rounds, hnoted, hlength, hrounds⟩ :=
    h.rounds_replayAll named books fuel htargets hrun
  dsimp only at hframes hrounds
  rw [hstate] at hframes hrounds
  exact ⟨hframes, items, Option.some.inj hgiven, Node.replayAll_answer hrun, rounds,
    hasked.trans hnoted, hlength, hrounds⟩

end Plan

/-! ## An invocation of a loop -/

/-- The results among some marks. -/
def resultsOf (marks : List Mark) : List NodeResult := marks.filterMap Mark.result?

theorem resultsOf_flatten (rounds : List (List Mark)) :
    resultsOf rounds.flatten = (rounds.map resultsOf).flatten := List.filterMap_flatten

/-- Where every round has the same number of results of a node, that is times the number of rounds.
-/
theorem countP_resultsOf_flatten {rounds : List (List Mark)} {id : Key} {n : Nat}
    (h : ∀ round ∈ rounds, (resultsOf round).countP (·.node == id) = n) :
    (resultsOf rounds.flatten).countP (·.node == id) = rounds.length * n := by
  have hcounts : (rounds.map resultsOf).map (List.countP (·.node == id)) =
      List.replicate rounds.length n := by
    rw [List.map_map, List.eq_replicate_iff]
    refine ⟨List.length_map _, fun m hm => ?_⟩
    obtain ⟨round, hround, rfl⟩ := List.mem_map.1 hm
    exact h round hround
  rw [resultsOf_flatten, List.countP_flatten, hcounts, List.sum_replicate_nat]

/-- What an invocation of a loop records that is replayed for some items: a round for each item, one
after another, and then the result of the loop, which lists the items. -/
structure LoopWork (graph : Graph) (loop : Key) (run ended : Run) (items : List Value)
    (rounds : List (List Mark)) (result : NodeResult) : Prop where
  noted : ∃ s s', Noted run ended (.invoked loop s :: (rounds.flatten ++ [.kept result s']))
  results : ended.results = run.results ++ ((rounds.map resultsOf).flatten ++ [result])
  node : result.node = loop
  outcome : result.outcome = .ok ((Plan.loopOutput items).madeBy (.visit (run.state.time + 1) 0))
  count : rounds.length = items.length
  /-- Whatever is noted in a round is noted in the replay of its item. -/
  framed : ∀ (i : Nat) round, rounds[i]? = some round → ∀ mark ∈ round,
    mark.shown.2.2.frames = ⟨loop, items, i, run.state.previous⟩ :: run.state.frames
  succeeded : ∀ round ∈ rounds, ∀ r ∈ resultsOf round,
    r.succeeded = true ∧ r.node ∈ graph.body loop
  /-- A round has a result of a node for each way to it. -/
  ways : ∀ round ∈ rounds, ∀ id, (resultsOf round).countP (·.node == id) =
    {places | places ≠ [] ∧ graph.Way loop places id}.ncard
  total : ∀ id ∈ graph.body loop, (ended.results.drop run.results.length).countP (·.node == id) =
    items.length * {places | places ≠ [] ∧ graph.Way loop places id}.ncard

/-- The work of a loop is told by what is noted, if each of its rounds unfolds the body. -/
theorem LoopWork.of_noted {plan : Plan} {loop : Key} {run ended : Run} {items : List Value}
    {rounds : List (List Mark)} {result : NodeResult} {s s' : RunState}
    (circleless : plan.graph.Circleless loop)
    (noted : Noted run ended (.invoked loop s :: (rounds.flatten ++ [.kept result s'])))
    (node : result.node = loop)
    (outcome : result.outcome = .ok ((Plan.loopOutput items).madeBy
      (.visit (run.state.time + 1) 0)))
    (count : rounds.length = items.length)
    (unfolded : ∀ (i : Nat) round, rounds[i]? = some round →
      plan.Round loop items run.state.previous run.state.frames i round) :
    LoopWork plan.graph loop run ended items rounds result := by
  have hround : ∀ round ∈ rounds, ∃ i : Nat,
      plan.Round loop items run.state.previous run.state.frames i round := by
    intro round hmem
    obtain ⟨i, hi⟩ := List.mem_iff_getElem?.1 hmem
    exact ⟨i, unfolded i round hi⟩
  have hways : ∀ round ∈ rounds, ∀ id, (resultsOf round).countP (·.node == id) =
      {places | places ≠ [] ∧ plan.graph.Way loop places id}.ncard := by
    intro round hmem id
    obtain ⟨_, trace, hunfolds, hshown⟩ := hround round hmem
    rw [resultsOf, hshown.countP_node, (circleless.unfolds hunfolds).2 id, circleless.ncard_way]
  have hresults : ended.results = run.results ++ (resultsOf rounds.flatten ++ [result]) := by
    rw [noted.results, List.filterMap_cons_none rfl, List.filterMap_append]
    rfl
  refine ⟨⟨s, s', noted⟩, ?_, node, outcome, count, ?_, ?_, hways, fun id hid => ?_⟩
  · rw [hresults, resultsOf_flatten]
  · intro i round hi
    obtain ⟨trace, _, hshown⟩ := unfolded i round hi
    exact hshown.all_frames
  · intro round hmem r hr
    obtain ⟨_, trace, hunfolds, hshown⟩ := hround round hmem
    refine ⟨hshown.all_succeeded r hr, (circleless.unfolds hunfolds).1 ?_⟩
    rw [← hshown.map_node]
    exact List.mem_map_of_mem hr
  · -- the result of the loop itself is of no node of its body
    have hother : result.node ≠ id := by
      rintro rfl
      rw [node] at hid
      exact plan.graph.not_mem_body loop hid
    rw [hresults, List.drop_left, List.countP_append, List.countP_singleton,
      countP_resultsOf_flatten fun round hmem => hways round hmem id, count, beq_false_of_ne hother]
    rfl

/-- **An invocation of a loop that succeeds does the work of its items one after another.** The body
of the loop has no circle, and its nodes are no loops, wait for nothing and choose no branch; the
invocation may be made in any state of a run. Each round has as many results of a node as there are
ways of edges to it from the loop, so the invocation has that number times the number of items. -/
theorem Departure.Of.execute_work {registry : Registry} {budget : Option Int} {workflow : Value}
    {departure : Departure} (prepared : departure.Of registry budget workflow)
    (books : registry.KeepsBooks) (fuel : Nat) {loop : Node}
    (kind : loop.cls.kind = .loop) (circleless : departure.plan.graph.Circleless loop.id)
    (steady : ∀ id ∈ departure.plan.graph.body loop.id, departure.plan.graph.Steady registry id)
    (run : Run) :
    let executed :=
      (departure.plan.execute (fun id => departure.plan.walk fuel [id]) loop).run run.visited
    executed.1.map Except.isOk = some true →
    ∃ tag items, (loop.loopItems.runOn (Invocation.begun loop tag run).toBench).1 = .ok items ∧
      ∃ rounds result, LoopWork departure.plan.graph loop.id run executed.2 items rounds result := by
  intro executed hended
  obtain ⟨branch, ended, succeeded⟩ : ∃ branch ended, executed = (some (.ok branch), ended) := by
    generalize executed = res at hended
    obtain ⟨_ | f | branch, ended⟩ := res
    · cases hended
    · cases hended
    · exact ⟨branch, ended, rfl⟩
  rw [succeeded]
  have hbody := prepared.steady circleless steady
  have htargets : departure.plan.graph.targets loop.id ⊆ departure.plan.graph.body loop.id :=
    fun target htarget => circleless.mem_body (.single htarget)
  obtain ⟨tag, reply, r, hinvoke, _, rfl⟩ := Plan.execute_ok succeeded
  unfold Node.invoke at hinvoke
  obtain ⟨_, _, hget, hinvoke⟩ := run_bind_ok hinvoke
  obtain ⟨_, rfl⟩ := Prod.mk.inj hget
  obtain ⟨_, _, hvalid, hinvoke⟩ := run_bind_ok hinvoke
  rw [run_ofAttempt] at hvalid
  obtain ⟨_, rfl⟩ := Prod.mk.inj hvalid
  rw [Node.act_loop _ _ kind] at hinvoke
  obtain ⟨_, items, hitems, rfl, rounds, hnoted, hcount, hrounds⟩ :=
    hbody.rounds_runLoop prepared.named (prepared.keepsBooks books) fuel htargets hinvoke
  let call : Invocation := ⟨loop, run.world.clock, run.state.previous⟩
  let output := (Plan.loopOutput items).madeBy (.visit (run.state.time + 1) 0)
  exact ⟨tag, items, hitems, rounds, call.result r.world.clock (.ok output),
    .of_noted circleless ((Plan.noted_begun loop tag run).trans
      (hnoted.trans (Plan.noted_succeeded call .null output r run.world.tag))) rfl rfl hcount hrounds⟩

/-- `meetingWays` as it is ready to be walked. -/
def meetingWaysReady : Departure :=
  match ((prepare .builtin none meetingWays.toValue).run { world := {}, state := {} }).1 with
  | some (.ok departure) => departure
  | _ => ⟨{ graph := meetingWays, nodes := [] }, .text "t"⟩

theorem meetingWaysReady_of : meetingWaysReady.Of .builtin none meetingWays.toValue := by
  have hprepare : (prepare .builtin none meetingWays.toValue).run { world := {}, state := {} } =
      (some (.ok meetingWaysReady),
        ((prepare .builtin none meetingWays.toValue).run { world := {}, state := {} }).2) := by rfl
  exact prepare_of hprepare

/-- The loop of `meetingWays`. -/
def meetingWaysLoop : Node := ((meetingWaysReady.plan.nodes.lookup (.text "l")).get (by rfl))

/-- Two items make four results of the third node, to which there are two ways. -/
theorem execute_work_meetingWays :
    let plan := meetingWaysReady.plan
    let loop := meetingWaysLoop
    let run : Run := { world := {}, state := {} }
    let executed := (plan.execute (fun id => plan.walk 20 [id]) loop).run run.visited
    meetingWaysReady.Of .builtin none meetingWays.toValue ∧ Registry.builtin.KeepsBooks ∧
      plan.nodes.lookup loop.id = some loop ∧ loop.cls.kind = .loop ∧
      plan.graph.Circleless loop.id ∧
      (∀ id ∈ plan.graph.body loop.id, plan.graph.Steady .builtin id) ∧
      executed.1.map Except.isOk = some true ∧
      (executed.2.results.countP (·.node == .text "c") = 4 ∧
        plan.graph.arrivals loop.id (.text "c") = 2) ∧
      ∃ tag items, (loop.loopItems.runOn (Invocation.begun loop tag run).toBench).1 = .ok items ∧
        ∃ rounds result, LoopWork plan.graph loop.id run executed.2 items rounds result := by
  intro plan loop run executed
  have hgraph : plan.graph = meetingWays := by rfl
  have hid : loop.id = .text "l" := by rfl
  have hknown : plan.nodes.lookup loop.id = some loop := by rfl
  have hkind : loop.cls.kind = .loop := by rfl
  have hcircleless : plan.graph.Circleless loop.id := hid ▸ hgraph ▸ meetingWays_circleless
  have hsteady : ∀ id ∈ plan.graph.body loop.id, plan.graph.Steady .builtin id := by
    rw [hid, hgraph]
    exact meetingWays_steady
  have hended : executed.1.map Except.isOk = some true := by decide +kernel
  exact ⟨meetingWaysReady_of, Registry.builtin_keepsBooks, hknown, hkind, hcircleless, hsteady,
    hended, ⟨by decide +kernel, by decide⟩, meetingWaysReady_of.execute_work
      Registry.builtin_keepsBooks 20 hkind hcircleless hsteady run hended⟩

end WorkflowEngine
