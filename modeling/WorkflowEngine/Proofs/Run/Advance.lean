import WorkflowEngine.Proofs.Run.Books

/-!
# Visits outside loops

What a visit outside loops does that comes to an end without a failure (`Plan.visit_ok`): it
executes its node, which goes on to its targets on the branch that it chose; or it passes over a
node that is executed or unknown; or it leaves a merge that waits, because an output of its sources
is missing. `Advance` tells how far such visits have come, from the results and the journal alone.
-/

namespace WorkflowEngine

open Walk

/-- The node that an event shows to have succeeded, and the branch that it chose. -/
def Event.choice? : Event → Option (Key × Value)
  | .succeeded id _ _ branch _ _ => some (id, branch)
  | _ => none

/-- The nodes that some entries show to have succeeded, in order, with the branches they chose. -/
def choices (entries : List Entry) : List (Key × Value) :=
  entries.reverse.filterMap fun e => e.event.choice?

theorem choices_append (later earlier : List Entry) :
    choices (later ++ earlier) = choices earlier ++ choices later := by
  rw [choices, List.reverse_append, List.filterMap_append]
  rfl

theorem choices_cons (e : Entry) (earlier : List Entry) :
    choices (e :: earlier) = choices earlier ++ choices [e] :=
  choices_append [e] earlier

theorem choices_of_remarks {entries : List Entry} (h : ∀ e ∈ entries, e.event.isRemark = true) :
    choices entries = [] := by
  refine List.filterMap_eq_nil_iff.2 fun e he => ?_
  have hremark := h e (List.mem_reverse.1 he)
  obtain ⟨tag, event⟩ := e
  cases event <;> first | rfl | cases hremark

/-- A target of a node on the branch that it chose: a known node to which an edge leads from the
node, any edge if the branch does not count as true, and otherwise one whose handle equals it. -/
def Graph.Follows (graph : Graph) (chosen : List (Key × Value)) (id target : Key) : Prop :=
  ∃ branch, (id, branch) ∈ chosen ∧ ∃ e ∈ graph.edges, e.source = id ∧ e.target = target ∧
    graph.contains target = true ∧ (branch.holds = true → e.handle.equal branch = true)

theorem Graph.Follows.mono {graph : Graph} {chosen chosen' : List (Key × Value)} {id target : Key}
    (h : graph.Follows chosen id target) (hsub : chosen ⊆ chosen') :
    graph.Follows chosen' id target := by
  obtain ⟨branch, hchosen, hedge⟩ := h
  exact ⟨branch, hsub hchosen, hedge⟩

theorem Graph.follows_append {graph : Graph} {chosen others : List (Key × Value)}
    {id target : Key} : graph.Follows (chosen ++ others) id target ↔
      graph.Follows chosen id target ∨ graph.Follows others id target := by
  simp only [Follows, List.mem_append, or_and_right, exists_or]

theorem Graph.Follows.known {graph : Graph} {chosen : List (Key × Value)} {id target : Key}
    (h : graph.Follows chosen id target) : graph.contains target = true := by
  obtain ⟨_, _, _, _, _, _, hknown, _⟩ := h
  exact hknown

theorem Graph.Follows.mem_chosen {graph : Graph} {chosen : List (Key × Value)} {id target : Key}
    (h : graph.Follows chosen id target) : id ∈ chosen.map Prod.fst := by
  obtain ⟨branch, hchosen, _⟩ := h
  exact List.mem_map_of_mem (f := Prod.fst) hchosen

/-- The targets of a node on a branch are those that are followed if it chose that branch. -/
theorem Graph.mem_targets {graph : Graph} {id target : Key} {branch : Value} :
    target ∈ graph.targets id branch ↔ graph.Follows [(id, branch)] id target := by
  simp only [targets, takes, Follows, List.mem_map, List.mem_filter, Bool.and_eq_true, beq_iff_eq,
    Bool.or_eq_true, Bool.not_eq_true', List.mem_singleton, Prod.mk.injEq, true_and, exists_eq_left]
  constructor
  · rintro ⟨e, ⟨hmem, ⟨hsource, htakes⟩, hknown⟩, rfl⟩
    refine ⟨e, hmem, hsource, rfl, hknown, fun hholds => ?_⟩
    exact htakes.resolve_left (by simp [hholds])
  · rintro ⟨e, hmem, hsource, rfl, hknown, htakes⟩
    refine ⟨e, ⟨hmem, ⟨hsource, ?_⟩, hknown⟩, rfl⟩
    cases hholds : branch.holds with
    | false => exact .inl rfl
    | true => exact .inr (htakes hholds)

/-- The node that an event shows to be left until more of its inputs are there. -/
def Event.deferred? : Event → Option Key
  | .deferred id _ => some id
  | _ => none

/-- The nodes that some entries show to be left, in order. -/
def deferrals (entries : List Entry) : List Key :=
  entries.reverse.filterMap fun e => e.event.deferred?

theorem deferrals_append (later earlier : List Entry) :
    deferrals (later ++ earlier) = deferrals earlier ++ deferrals later := by
  rw [deferrals, List.reverse_append, List.filterMap_append]
  rfl

theorem mem_deferrals {entries : List Entry} {id : Key} :
    id ∈ deferrals entries ↔ ∃ e ∈ entries, e.event.deferred? = some id := by
  simp [deferrals]

/-- Comments leave no node. -/
theorem deferrals_of_comments {entries : List Entry}
    (h : ∀ e ∈ entries, e.event.isComment = true) : deferrals entries = [] := by
  refine List.filterMap_eq_nil_iff.2 fun e he => ?_
  have hcomment := h e (List.mem_reverse.1 he)
  obtain ⟨tag, event⟩ := e
  cases event <;> first | rfl | cases hcomment

/-! ## How far a part of a walk has come -/

/-- What has been executed between two points of a walk outside loops. -/
structure Advance (before after : Run) (made : List NodeResult) (news : List Entry) : Prop where
  results : after.results = before.results ++ made
  journal : after.world.journal = news ++ before.world.journal
  succeeded : ∀ r ∈ made, r.succeeded = true
  answered : made.map NodeResult.node = (choices news).map Prod.fst
  executed : ∀ id, id ∈ after.state.executed ↔
    id ∈ before.state.executed ∨ id ∈ made.map NodeResult.node
  once : (made.map NodeResult.node).Nodup
  fresh : ∀ id ∈ made.map NodeResult.node, id ∉ before.state.executed
  frames : after.state.frames = before.state.frames
  outputs : ∀ id, Entries.contains id after.state.outputs = true ↔
    Entries.contains id before.state.outputs = true ∨ id ∈ made.map NodeResult.node

namespace Advance

variable {before between after : Run} {made others : List NodeResult} {news later : List Entry}

/-- Leaving remarks, and executing nothing. -/
theorem of_remarks (entries : List Entry) (remarks : ∀ e ∈ entries, e.event.isRemark = true)
    (results : after.results = before.results)
    (journal : after.world.journal = entries ++ before.world.journal)
    (books : before.state.SameBooks after.state) : Advance before after [] entries where
  results := by rw [results, List.append_nil]
  journal := journal
  succeeded := by simp
  answered := by rw [choices_of_remarks remarks]; rfl
  executed := by simp [books.executed]
  once := List.nodup_nil
  fresh := by simp
  frames := books.frames
  outputs := by simp [books.outputs]

theorem trans (h : Advance before between made news) (h' : Advance between after others later) :
    Advance before after (made ++ others) (later ++ news) where
  results := by rw [h'.results, h.results, List.append_assoc]
  journal := by rw [h'.journal, h.journal, List.append_assoc]
  succeeded r hr := (List.mem_append.1 hr).elim (h.succeeded r) (h'.succeeded r)
  answered := by rw [List.map_append, choices_append, List.map_append, h.answered, h'.answered]
  executed id := by rw [h'.executed, h.executed, List.map_append, List.mem_append, or_assoc]
  once := by
    rw [List.map_append]
    refine List.nodup_append.2 ⟨h.once, h'.once, fun id hid id' hid' heq => ?_⟩
    exact h'.fresh id' hid' ((h.executed id').2 (.inr (heq ▸ hid)))
  fresh id hid hold := by
    rw [List.map_append, List.mem_append] at hid
    rcases hid with hid | hid
    · exact h.fresh id hid hold
    · exact h'.fresh id hid ((h.executed id).2 (.inl hold))
  frames := h'.frames.trans h.frames
  outputs id := by rw [h'.outputs, h.outputs, List.map_append, List.mem_append, or_assoc]

/-- What has been executed stays executed. -/
theorem executed_subset (h : Advance before after made news) {id : Key}
    (hid : id ∈ before.state.executed) : id ∈ after.state.executed :=
  (h.executed id).2 (.inl hid)

/-- Keeping an answer, after nothing but what chooses no branch. -/
theorem of_succeeded (call : Invocation) (branch output : Value) {entries : List Entry}
    (fresh : call.node.id ∉ before.state.executed) (frames : before.state.frames = [])
    (results : between.results = before.results) (books : before.state.SameBooks between.state)
    (journal : between.world.journal = entries ++ before.world.journal)
    (quiet : choices entries = []) :
    Advance before (call.succeeded branch output between)
      [call.result between.world.clock (.ok output)]
      (⟨between.world.tag, .succeeded call.node.id call.node.type
        (call.result between.world.clock (.ok output)).duration branch output
        (between.state.record call.node.id output)⟩ :: entries) where
  results := congrArg (· ++ [_]) results
  journal := congrArg (_ :: ·) journal
  succeeded := by simp [Invocation.result, NodeResult.succeeded, Except.isOk, Except.toBool]
  answered := by
    rw [choices_cons, quiet]
    rfl
  executed id := by
    have hframes : between.state.frames = [] := books.frames.trans frames
    refine (RunState.mem_record_executed _ _ _ id).trans ?_
    simp [books.executed, hframes, Invocation.result]
  once := by simp
  fresh := by simpa [Invocation.result] using fresh
  frames := (RunState.record_frames _ _ _).trans books.frames
  outputs id := by
    refine (congrArg (Entries.contains id · = true) (RunState.record_outputs _ _ _)).to_iff.trans ?_
    rw [Entries.contains_put, books.outputs]
    simp [Invocation.result, or_comm]

end Advance

/-! ## One visit -/

/-- A node leaves the books to the engine, if all functions from outside do so. -/
theorem Node.execute_sameBooks {node : Node}
    (books : ∀ executor branching, node.cls.kind = .custom executor branching → executor.KeepsBooks)
    (bench : Bench) : bench.state.SameBooks (node.execute.runOn bench).2.state ∧
      bench.world.Adds Event.isComment (node.execute.runOn bench).2.world := by
  by_cases hcustom : ∃ executor branching, node.cls.kind = .custom executor branching
  · obtain ⟨executor, branching, hkind⟩ := hcustom
    have hact : node.execute = node.runCustom executor branching := by
      simp only [Node.execute, hkind]
    rw [hact, Node.runCustom_runOn]
    exact ⟨books executor branching hkind node.settings bench.state, World.Adds.of_eq rfl⟩
  · have hspares : bench.Spares Event.isComment (node.execute.runOn bench).2 :=
      Node.execute_modest node (fun executor branching h => hcustom ⟨executor, branching, h⟩) bench
    exact ⟨hspares.state.sameBooks, hspares.world.journal⟩

namespace Plan

variable {plan : Plan} {replay : Key → Walk Unit} {run run' : Run}

variable (plan) in
/-- The invocation of a node that is no loop checks its settings and lets it act. It always comes to
an outcome, and leaves the books to the engine. -/
theorem invoke_plain {node : Node} (kind : node.cls.kind ≠ .loop)
    (books : ∀ executor branching, node.cls.kind = .custom executor branching → executor.KeepsBooks)
    (replay : Key → Walk Unit) (run : Run) :
    ∃ o bench, (node.invoke plan replay).run run = (some o, run.onBench bench) ∧
      run.state.SameBooks bench.state ∧ run.world.Adds Event.isComment bench.world ∧
      ∀ reply, o = .ok reply → (node.execute.runOn run.toBench).1 = .ok reply := by
  unfold Node.invoke
  simp only [run_bind, run_get, run_ofAttempt]
  cases hvalid : node.validate run.world.settings with
  | error f =>
    exact ⟨.error f, run.toBench, rfl, ⟨rfl, rfl, rfl⟩, .of_eq rfl, fun reply h => by cases h⟩
  | ok _ =>
    obtain ⟨hbooks, hadds⟩ := Node.execute_sameBooks books run.toBench
    simp only [Node.act_plain plan replay kind, run_ofAct]
    exact ⟨_, _, rfl, hbooks, hadds, fun _ h => h⟩

/-- **Executing a node that is no loop answers once for it**, and chooses the branch that comes of
it. -/
theorem execute_advance {node : Node} {branch : Value} (kind : node.cls.kind ≠ .loop)
    (books : ∀ executor branching, node.cls.kind = .custom executor branching → executor.KeepsBooks)
    (frames : run.state.frames = []) (fresh : node.id ∉ run.state.executed)
    (h : (plan.execute replay node).run run.visited = (some (.ok branch), run')) :
    ∃ r news, Advance run run' [r] news ∧ r.node = node.id ∧
      choices news = [(node.id, branch)] ∧ deferrals news = [] := by
  have hcase := execute_cases plan replay node run
  rw [h] at hcase
  cases hcase with
  | @answered tag _ reply call output same invoked =>
    obtain ⟨o, bench, hplain, hbooks, ⟨entries, hjournal, hcomments⟩, _⟩ :=
      invoke_plain plan kind books replay (Invocation.begun node tag run)
    obtain ⟨_, rfl⟩ := Prod.mk.inj (hplain.symm.trans invoked)
    -- from the invocation to the answer nothing but comments is noted
    let began : Entry := ⟨tag, .invoked node.id node.label node.type
      { run.state with time := run.state.time + 1 }⟩
    have hquiet : choices (entries ++ [began]) = [] := by
      rw [choices_append,
        choices_of_remarks fun e he => Event.isRemark_of_isComment (hcomments e he)]
      rfl
    have hundeferred : deferrals (entries ++ [began]) = [] := by
      rw [deferrals_append, deferrals_of_comments hcomments]
      rfl
    have hjournal' : bench.world.journal = (entries ++ [began]) ++ run.world.journal := by
      rw [hjournal, List.append_assoc]
      rfl
    have hadvance : Advance run
        (call.succeeded reply.branch output ((Invocation.begun node tag run).onBench bench)) _ _ :=
      .of_succeeded call reply.branch output (same ▸ fresh) frames rfl
        ⟨hbooks.executed, hbooks.frames, hbooks.outputs⟩ hjournal' hquiet
    refine ⟨_, _, ⟨hadvance.results, hadvance.journal, hadvance.succeeded, hadvance.answered,
      hadvance.executed, hadvance.once, hadvance.fresh, hadvance.frames, hadvance.outputs⟩,
      congrArg Node.id same, ?_, ?_⟩
    · rw [← same, choices_cons, hquiet]
      rfl
    · rw [← List.singleton_append, deferrals_append, hundeferred]
      rfl

/-- What a visit has done: it has executed the node, which goes on to its targets on the branch that
it chose; or it has passed over a node that is unknown or has been executed before; or it has left a
merge that waits. -/
inductive Visited (plan : Plan) (id : Key) (run run' : Run) (next : List Key) : Prop where
  | executed {r : NodeResult} {news : List Entry} {branch : Value}
      (advance : Advance run run' [r] news) (node : r.node = id)
      (known : ∃ node, plan.nodes.lookup id = some node)
      (chosen : choices news = [(id, branch)]) (undeferred : deferrals news = [])
      (targets : next = plan.graph.targets id branch)
  | passed {news : List Entry} (advance : Advance run run' [] news) (nothing : choices news = [])
      (undeferred : deferrals news = [])
      (known : ∀ node, plan.nodes.lookup id = some node → id ∈ run'.state.executed)
      (last : next = [])
  | deferred {news : List Entry} {node : Node} (advance : Advance run run' [] news)
      (nothing : choices news = []) (noted : deferrals news = [id])
      (known : plan.nodes.lookup id = some node) (waits : node.Waits)
      (missing : (node.missingSources run.state).isEmpty = false) (last : next = [])

theorem Visited.frames {id : Key} {next : List Key} (h : plan.Visited id run run' next) :
    run'.state.frames = run.state.frames := by
  cases h with
  | executed advance | passed advance | deferred advance => exact advance.frames

/-- **A visit outside loops executes its node, passes over it, or leaves it.** -/
theorem visit_ok (named : plan.Named) (loopless : plan.Loopless) (books : plan.KeepsBooks)
    {id : Key} {next : List Key} (frames : run.state.frames = [])
    (h : (plan.visit replay id).run run = (some (.ok next), run')) :
    plan.Visited id run run' next := by
  -- outside loops a node is passed over exactly if it has been executed
  have hinLoop : run.state.inLoop = false := RunState.inLoop_eq_false.2 frames
  have hcase := visit_cases named replay id run
  generalize (plan.visit replay id).run run = res at hcase h
  cases hcase with
  | unknown unknown =>
    cases h
    exact .passed (.of_remarks [] (by simp) rfl rfl ⟨rfl, rfl, rfl⟩) rfl rfl
      (fun node hnode => by rw [unknown] at hnode; cases hnode) rfl
  | skipped known skipped =>
    cases h
    have hold : id ∈ run.state.executed := by simpa [RunState.shouldSkip, hinLoop] using skipped
    exact .passed (.of_remarks [⟨run.world.tag, .skipped id⟩]
      (by simp [Event.isRemark]) rfl rfl ⟨rfl, rfl, rfl⟩) rfl rfl (fun _ _ => hold) rfl
  | unready => cases h
  | @deferred node bench known due waits spares =>
    cases h
    obtain ⟨hwaits, hmissing⟩ := Node.isReady_false node (congrArg Prod.fst waits)
    obtain ⟨entries, hjournal, hcomments⟩ := spares.world.journal
    have hremarks := fun e he => Event.isRemark_of_isComment (hcomments e he)
    have hbooks := spares.state.sameBooks
    have hnews : ∀ e ∈ (⟨bench.world.tag, .deferred id node.type⟩ :: entries : List Entry),
        e.event.isRemark = true := List.forall_mem_cons.2 ⟨rfl, hremarks⟩
    have hleft : deferrals (⟨bench.world.tag, .deferred id node.type⟩ :: entries) = [id] := by
      rw [← List.singleton_append, deferrals_append, deferrals_of_comments hcomments]
      rfl
    have hbooks' : run.state.SameBooks (run.onBench bench).state :=
      ⟨hbooks.executed, hbooks.frames, hbooks.outputs⟩
    exact .deferred (.of_remarks _ hnews rfl (congrArg (_ :: ·) hjournal) hbooks')
      (choices_of_remarks hnews) hleft known hwaits hmissing rfl
  | exceeded => cases h
  | @executed node bench known same due ready spares allowed =>
    obtain ⟨branch, r, hexecute, hnext⟩ := run_bind_ok h
    cases hnext
    obtain ⟨entries, hjournal, hcomments⟩ := spares.world.journal
    have hremarks := fun e he => Event.isRemark_of_isComment (hcomments e he)
    have hbooks := spares.state.sameBooks
    have hasked : Advance run (run.onBench bench) [] entries :=
      .of_remarks entries hremarks rfl hjournal ⟨hbooks.executed, hbooks.frames, hbooks.outputs⟩
    have hfresh : node.id ∉ (run.onBench bench).state.executed := by
      rw [same]
      exact hbooks.executed ▸ (by simpa [RunState.shouldSkip, hinLoop] using due)
    obtain ⟨result, news, hadvance, hnode, hchoices, hundeferred⟩ :=
      execute_advance (loopless node.id node known)
        (fun executor branching => books node.id node executor branching known)
        (hasked.frames.trans frames) hfresh hexecute
    have hchosen : choices (news ++ entries) = [(id, branch)] := by
      rw [choices_append, choices_of_remarks hremarks, hchoices, same]
      rfl
    have hnone : deferrals (news ++ entries) = [] := by
      rw [deferrals_append, deferrals_of_comments hcomments, hundeferred]
      rfl
    have htargets : plan.leadsTo node branch = plan.graph.targets id branch := by
      rw [leadsTo_of_kind (loopless node.id node known), same]
    exact .executed (hasked.trans hadvance) (hnode.trans same) ⟨node, same ▸ known⟩ hchosen hnone
      htargets

end Plan

end WorkflowEngine
