import WorkflowEngine.Proofs.Run.Advance

/-!
# What a run reaches

Without loops, and without merges that wait, a run that ends has executed the trigger and whatever
can be reached from it along the edges that are followed, each node once and nothing else
(`courseOf_reached`). The edges that are followed are those of the executed nodes on the branches
that they chose, which the journal shows. A node that is passed over has been executed, and the
targets of an executed node are all on the stack of what is left to visit; so no followed edge is
ever lost (`Plan.Visited.covered`).
-/

namespace WorkflowEngine

open Walk

/-! ## Graphs without loops and waiting merges -/

/-- The plan has no loops, and no merges that wait. -/
structure Plan.Plain (plan : Plan) : Prop where
  loopless : plan.Loopless
  eager : ∀ id node, plan.nodes.lookup id = some node → ¬ node.Waits

namespace Departure.Of

variable {registry : Registry} {budget : Option Int} {workflow : Value} {departure : Departure}

theorem plain (h : departure.Of registry budget workflow)
    (loopless : ∀ id, ¬ departure.plan.graph.IsLoop registry id)
    (eager : ∀ id, ¬ departure.plan.graph.Waits registry id) : departure.plan.Plain where
  loopless := h.loopless loopless
  eager id _ hlookup hwaits := eager id ((h.waits_iff hlookup).2 hwaits)

end Departure.Of

/-! ## A whole walk -/

namespace Plan

variable {plan : Plan} {run run' : Run}

/-- What a walk from a stack has done: it has executed what can be reached from the stack along the
edges that are followed, and nothing else. -/
structure Covered (plan : Plan) (stack : List Key) (after : Run) (made : List NodeResult)
    (news : List Entry) : Prop where
  sound : ∀ id ∈ made.map NodeResult.node, ∃ root ∈ stack,
    Relation.ReflTransGen (plan.graph.Follows (choices news)) root id
  entered : ∀ id ∈ stack, ∀ node, plan.nodes.lookup id = some node → id ∈ after.state.executed
  closed : ∀ id target, plan.graph.Follows (choices news) id target → target ∈ after.state.executed

/-- A walk goes on from a visit with what the node leads to on top of the stack. -/
theorem Visited.covered {id : Key} {next rest : List Key} {between after : Run}
    {made : List NodeResult} {news : List Entry} (plain : plan.Plain)
    (complete : ∀ id, plan.graph.contains id = true → ∃ node, plan.nodes.lookup id = some node)
    (hvisit : plan.Visited id run between next) (hadvance : Advance between after made news)
    (hcovered : plan.Covered (next ++ rest) after made news) :
    ∃ made news, Advance run after made news ∧ plan.Covered (id :: rest) after made news := by
  have hrest : ∀ id ∈ rest, ∀ node, plan.nodes.lookup id = some node → id ∈ after.state.executed :=
    fun id hid => hcovered.entered id (List.mem_append_right _ hid)
  cases hvisit with
  | deferred advance nothing noted known waits => exact absurd waits (plain.eager _ _ known)
  | @passed earlier advance nothing undeferred known last =>
    subst last
    have hchoices : choices (news ++ earlier) = choices news := by
      rw [choices_append, nothing, List.nil_append]
    refine ⟨_, _, advance.trans hadvance,
      ⟨fun id' hid' => ?_, fun id' hid' node hnode => ?_, ?_⟩⟩
    · obtain ⟨root, hroot, hpath⟩ := hcovered.sound id' hid'
      exact ⟨root, List.mem_cons_of_mem _ hroot, hchoices ▸ hpath⟩
    · rcases List.mem_cons.1 hid' with rfl | hid'
      · exact hadvance.executed_subset (known node hnode)
      · exact hrest id' hid' node hnode
    · rw [hchoices]
      exact hcovered.closed
  | @executed r earlier branch advance node known chosen undeferred targets =>
    subst targets
    have hchoices : choices (news ++ earlier) = [(id, branch)] ++ choices news := by
      rw [choices_append, chosen]
    refine ⟨_, _, advance.trans hadvance, ⟨fun id' hid' => ?_, fun id' hid' node hnode => ?_,
      fun id' target hfollows => ?_⟩⟩
    · rw [hchoices]
      rw [List.map_append, List.mem_append] at hid'
      rcases hid' with hid' | hid'
      · exact ⟨id, List.mem_cons_self, by simp_all [Relation.ReflTransGen.refl]⟩
      obtain ⟨root, hroot, hpath⟩ := hcovered.sound id' hid'
      -- what is reached from a target is reached from the visited node by one more edge
      have hpath' := Relation.ReflTransGen.mono
        (fun _ _ h => Graph.Follows.mono h (List.subset_append_right [(id, branch)] _)) _ _ hpath
      rcases List.mem_append.1 hroot with hroot | hroot
      · have hfirst := Graph.mem_targets.1 hroot
        exact ⟨id, List.mem_cons_self, .head (hfirst.mono (List.subset_append_left _ _)) hpath'⟩
      · exact ⟨root, List.mem_cons_of_mem _ hroot, hpath'⟩
    · rcases List.mem_cons.1 hid' with rfl | hid'
      · exact hadvance.executed_subset ((advance.executed id').2 (.inr (by simp [node])))
      · exact hrest id' hid' node hnode
    · rw [hchoices] at hfollows
      rcases Graph.follows_append.1 hfollows with hfollows | hfollows
      · -- the edge leaves the node that was visited, so its target was on the stack
        obtain ⟨found, hfound⟩ := complete target hfollows.known
        obtain rfl : id' = id := by simpa using hfollows.mem_chosen
        have htarget := Graph.mem_targets.2 hfollows
        exact hcovered.entered target (List.mem_append_left _ htarget) found hfound
      · exact hcovered.closed id' target hfollows

/-- **A walk outside loops executes what can be reached from its stack, and nothing else.** -/
theorem walk_covered (named : plan.Named) (plain : plan.Plain) (books : plan.KeepsBooks)
    (complete : ∀ id, plan.graph.contains id = true → ∃ node, plan.nodes.lookup id = some node)
    (fuel : Nat) : ∀ (stack : List Key) (run run' : Run), run.state.frames = [] →
      (plan.walk fuel stack).run run = (some (.ok ()), run') →
      ∃ made news, Advance run run' made news ∧ plan.Covered stack run' made news := by
  induction fuel with
  | zero =>
    intro stack run run' _ h
    cases h
  | succ fuel ih =>
    intro stack run run' frames h
    cases stack with
    | nil =>
      cases h
      refine ⟨[], [], .of_remarks [] (by simp) rfl rfl ⟨rfl, rfl, rfl⟩, by simp, by simp, ?_⟩
      rintro id target ⟨_, hchosen, _⟩
      cases hchosen
    | cons id rest =>
      obtain ⟨next, between, hvisit, hwalk⟩ := run_bind_ok h
      have hvisited := visit_ok named plain.loopless books frames hvisit
      obtain ⟨made, news, hadvance, hcovered⟩ :=
        ih (next ++ rest) between run' (hvisited.frames.trans frames) hwalk
      exact hvisited.covered plain complete hadvance hcovered

/-- A walk from one known node, before which nothing is executed, executes what can be reached from
that node along the edges that are followed. -/
theorem Covered.mem_iff {start : Key} {after : Run} {made : List NodeResult} {news : List Entry}
    (hcovered : plan.Covered [start] after made news) (hadvance : Advance run after made news)
    (unexecuted : run.state.executed = []) (known : ∃ node, plan.nodes.lookup start = some node)
    (id : Key) : id ∈ made.map NodeResult.node ↔
      Relation.ReflTransGen (plan.graph.Follows (choices news)) start id := by
  have hexecuted : ∀ id, id ∈ after.state.executed → id ∈ made.map NodeResult.node := fun id hid =>
    ((hadvance.executed id).1 hid).resolve_left (by simp [unexecuted])
  constructor
  · intro hid
    obtain ⟨root, hroot, hpath⟩ := hcovered.sound id hid
    exact List.mem_singleton.1 hroot ▸ hpath
  · intro hpath
    induction hpath with
    | refl =>
      obtain ⟨node, hnode⟩ := known
      exact hexecuted start (hcovered.entered start List.mem_cons_self node hnode)
    | tail _ hfollows _ => exact hexecuted _ (hcovered.closed _ _ hfollows)

end Plan

/-! ## A whole run -/

/-- The node that is found is one of the graph. -/
theorem Graph.findOfType_mem {graph : Graph} {types : List Key} {d : Definition}
    (h : graph.findOfType types = .ok (some d)) : d ∈ graph.nodes := by
  unfold findOfType at h
  generalize graph.nodes = ds at h
  induction ds with
  | nil => cases h
  | cons d' rest ih =>
    obtain ⟨_, _, h⟩ := Attempt.bind_ok h
    obtain ⟨_, _, h⟩ := Attempt.bind_ok h
    split at h
    · cases h
      exact List.mem_cons_self
    · exact List.mem_cons_of_mem _ (ih h)

/-- A run that ends without a failure has walked from its trigger, with nothing but comments before
and after. -/
theorem courseOf_ok {registry : Registry} {budget : Option Int} {fuel : Nat} {workflow : Value}
    {run run' : Run}
    (h : (courseOf registry budget fuel workflow).run run = (some (.ok ()), run')) :
    ∃ (departure : Departure) (ready walked : Run) (closing opening : List Entry),
      departure.Of registry budget workflow ∧ run.state.SameBooks ready.state ∧
      (departure.plan.walk fuel [departure.start]).run ready = (some (.ok ()), walked) ∧
      (∀ e ∈ closing, e.event.isComment = true) ∧ (∀ e ∈ opening, e.event.isComment = true) ∧
      ∀ made news, Advance ready walked made news →
        Advance run run' made (closing ++ (news ++ opening)) := by
  obtain ⟨o, bench, hprepare, hspares⟩ := prepare_calm registry budget workflow run.opened
  cases o with
  | error f =>
    rw [courseOf_error hprepare] at h
    cases h
  | ok departure =>
    rw [courseOf_walk fuel hprepare] at h
    generalize hwalk : (departure.plan.walk fuel [departure.start]).run _ = res at h
    obtain ⟨_ | o, walked⟩ := res
    · cases h
    · cases h
      obtain ⟨opening, hopening, hcomments⟩ := hspares.world.journal
      have hbooks : run.state.SameBooks (run.opened.onBench bench).state :=
        ⟨hspares.state.sameBooks.executed, hspares.state.sameBooks.frames,
          hspares.state.sameBooks.outputs⟩
      have hfirst : Advance run (run.opened.onBench bench) [] opening :=
        .of_remarks opening (fun e he => Event.isRemark_of_isComment (hcomments e he)) rfl hopening
          hbooks
      let ended : Entry := ⟨walked.world.tag, .runEnded departure.plan.graph.name
        walked.results.length (walked.world.seconds - run.world.seconds)⟩
      have hlast : Advance walked (departure.closed run.world.seconds walked) [] [ended] :=
        .of_remarks _ (List.forall_mem_singleton.2 rfl) rfl rfl ⟨rfl, rfl, rfl⟩
      refine ⟨departure, run.opened.onBench bench, walked, [ended], opening, prepare_of hprepare,
        hbooks, hwalk, List.forall_mem_singleton.2 rfl, hcomments, fun made news hadvance => ?_⟩
      have hall := (hfirst.trans hadvance).trans hlast
      rwa [List.nil_append, List.append_nil] at hall

/-- Comments choose no branches. -/
theorem choices_between {closing opening : List Entry}
    (hclosing : ∀ e ∈ closing, e.event.isComment = true)
    (hopening : ∀ e ∈ opening, e.event.isComment = true) (news : List Entry) :
    choices (closing ++ (news ++ opening)) = choices news := by
  rw [choices_append, choices_append,
    choices_of_remarks fun e he => Event.isRemark_of_isComment (hclosing e he),
    choices_of_remarks fun e he => Event.isRemark_of_isComment (hopening e he), List.append_nil,
    List.nil_append]

/-- The trigger is a node of the plan. -/
theorem Departure.Of.start_known {registry : Registry} {budget : Option Int} {workflow : Value}
    {departure : Departure} (h : departure.Of registry budget workflow) :
    ∃ node, departure.plan.nodes.lookup departure.start = some node := by
  obtain ⟨trigger, hfind, hstart⟩ := h.start
  refine h.complete _ (List.any_eq_true.2 ⟨trigger, Graph.findOfType_mem hfind, ?_⟩)
  rw [hstart, beq_self_eq_true]

/-- A run that has ended without a failure has the outcome of one. -/
theorem run_ok_of_isOk {part : Walk Unit} {run : Run}
    (ended : (part.run run).1.map Except.isOk = some true) :
    ∃ run', part.run run = (some (.ok ()), run') := by
  rcases hrun : part.run run with ⟨_ | _ | _, run'⟩
  · simp [hrun] at ended
  · simp [hrun, Except.isOk, Except.toBool] at ended
  · exact ⟨run', rfl⟩

/-- **Without loops, and without merges that wait, a run that ends has executed what can be reached
from its trigger along the edges that are followed, each node once and nothing else.** The edges
that are followed leave the executed nodes on the branches that they chose in this run. -/
theorem courseOf_reached {registry : Registry} (books : registry.KeepsBooks) (budget : Option Int)
    (fuel : Nat) {workflow : Value} {graph : Graph} {run : Run}
    (read : Graph.ofValue workflow = .ok graph) (loopless : ∀ id, ¬ graph.IsLoop registry id)
    (eager : ∀ id, ¬ graph.Waits registry id) (unexecuted : run.state.executed = [])
    (outside : run.state.frames = [])
    (ended : ((courseOf registry budget fuel workflow).run run).1.map Except.isOk = some true) :
    let run' := ((courseOf registry budget fuel workflow).run run).2
    ∃ made news trigger, run'.results = run.results ++ made ∧
      run'.world.journal = news ++ run.world.journal ∧
      graph.findOfType (registry.triggerTypes.map Key.text) = .ok (some trigger) ∧
      (made.map NodeResult.node).Nodup ∧
      made.map NodeResult.node = (choices news).map Prod.fst ∧
      ∀ id, id ∈ made.map NodeResult.node ↔
        Relation.ReflTransGen (graph.Follows (choices news)) trigger.id id := by
  obtain ⟨run', hrun⟩ := run_ok_of_isOk ended
  obtain ⟨departure, ready, walked, closing, opening, hof, hbooks, hwalk, hclosing, hopening,
    hcourse⟩ := courseOf_ok hrun
  obtain ⟨trigger, hfind, hstart⟩ := hof.start
  obtain rfl : departure.plan.graph = graph := Except.ok.inj (hof.graph.symm.trans read)
  obtain ⟨made, news, hadvance, hcovered⟩ := Plan.walk_covered hof.named
    (hof.plain loopless eager) (hof.keepsBooks books) hof.complete fuel [departure.start] ready
    walked (hbooks.frames.trans outside) hwalk
  have hall := hcourse made news hadvance
  have hmem := hcovered.mem_iff hadvance (hbooks.executed.trans unexecuted) hof.start_known
  rw [← hstart, ← choices_between hclosing hopening news] at hmem
  rw [hrun]
  exact ⟨made, _, trigger, hall.results, hall.journal, hfind, hall.once, hall.answered, hmem⟩

/-- A node that is a loop, or a merge that its own settings have wait. -/
def Node.loopsOrWaits (node : Node) : Bool :=
  match node.cls.kind with
  | .loop => true
  | .merge => match node.setting "waitForAll" with
    | .ok setting => setting.holds
    | .error _ => false
  | _ => false

/-- Definitions of which none is made a loop or a merge that waits make no graph with one. -/
theorem Graph.plain_of_nodes {registry : Registry} {graph : Graph}
    (h : graph.nodes.all fun d => (registry.makeNode d.body).toOption.all fun made =>
      !made.loopsOrWaits) (id : Key) : ¬ graph.IsLoop registry id ∧ ¬ graph.Waits registry id := by
  have hnode : ∀ d made, graph.node? id = some d → registry.makeNode d.body = .ok made →
      made.loopsOrWaits = false := fun d made hd hmade => by
    have := List.all_eq_true.1 h d (Graph.node?_some hd).1
    simpa [hmade, Except.toOption] using this
  constructor
  · rintro ⟨node, ⟨_, d, made, settings, hd, hmade, rfl⟩, hkind⟩
    have := hnode d made hd hmade
    change made.cls.kind = .loop at hkind
    simp [Node.loopsOrWaits, hkind] at this
  · rintro ⟨d, made, setting, hd, hmade, hkind, hset, hholds⟩
    have := hnode d made hd hmade
    simp [Node.loopsOrWaits, hkind, hset, hholds] at this

/-- A trigger and a condition, which leads back to the trigger and to a merge on one branch and to
another merge on the other. The merge leads to a node that is not there, and back again. -/
def branchingCycle : Graph where
  id := .text "unknown"
  name := .text "unknown"
  nodes := [
    ⟨.text "t", .object [("id", .text "t"), ("type", .text "manual-trigger")]⟩,
    ⟨.text "c", .object [("id", .text "c"), ("type", .text "condition"),
      ("data", .object [("config",
        .object [("field", .text "x"), ("operator", .text "is_empty")])])]⟩,
    ⟨.text "yes", .object [("id", .text "yes"), ("type", .text "merge")]⟩,
    ⟨.text "no", .object [("id", .text "no"), ("type", .text "merge")]⟩]
  edges := [⟨.text "t", .text "c", .null⟩, ⟨.text "c", .text "t", .text "true"⟩,
    ⟨.text "c", .text "yes", .text "true"⟩, ⟨.text "c", .text "no", .text "false"⟩,
    ⟨.text "yes", .text "gone", .null⟩, ⟨.text "yes", .text "c", .null⟩]

theorem branchingCycle_read : Graph.ofValue branchingCycle.toValue = .ok branchingCycle := by rfl

theorem branchingCycle_plain (id : Key) :
    ¬ branchingCycle.IsLoop .builtin id ∧ ¬ branchingCycle.Waits .builtin id :=
  Graph.plain_of_nodes (by decide +kernel) id

/-- The cycle is walked once, and the branch that is not chosen is left out. -/
theorem courseOf_reached_branchingCycle :
    let run : Run := { world := {}, state := {} }
    let run' := ((courseOf .builtin none 20 branchingCycle.toValue).run run).2
    Registry.builtin.KeepsBooks ∧ Graph.ofValue branchingCycle.toValue = .ok branchingCycle ∧
      (∀ id, ¬ branchingCycle.IsLoop .builtin id) ∧ (∀ id, ¬ branchingCycle.Waits .builtin id) ∧
      run.state.executed = [] ∧ run.state.frames = [] ∧
      ((courseOf .builtin none 20 branchingCycle.toValue).run run).1.map Except.isOk = some true ∧
      run'.results.map NodeResult.node = [.text "t", .text "c", .text "yes"] ∧
      ∃ made news trigger, run'.results = run.results ++ made ∧
        run'.world.journal = news ++ run.world.journal ∧
        branchingCycle.findOfType (Registry.builtin.triggerTypes.map Key.text) =
          .ok (some trigger) ∧
        (made.map NodeResult.node).Nodup ∧
        made.map NodeResult.node = (choices news).map Prod.fst ∧
        ∀ id, id ∈ made.map NodeResult.node ↔
          Relation.ReflTransGen (branchingCycle.Follows (choices news)) trigger.id id :=
  ⟨Registry.builtin_keepsBooks, branchingCycle_read, fun id => (branchingCycle_plain id).1,
    fun id => (branchingCycle_plain id).2, rfl, rfl, by decide +kernel, by decide +kernel,
    courseOf_reached Registry.builtin_keepsBooks none 20 branchingCycle_read
      (fun id => (branchingCycle_plain id).1) (fun id => (branchingCycle_plain id).2) rfl rfl
      (by decide +kernel)⟩

end WorkflowEngine
