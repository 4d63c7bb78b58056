import WorkflowEngine.Proofs.Run.Books

/-!
# What a run records

A run from a fresh state keeps its outputs, its executed nodes and its results in step, at every point
and however it ends (`courseOf_record`): an output is that of the last success of its node, and a node
is executed if it has succeeded outside loops, or belongs to a loop that has succeeded anywhere. A
node that has only failed has no output, and yet it counts as executed in the body of such a loop.
-/

namespace WorkflowEngine

/-- The node and the output of a result that is a success. -/
def NodeResult.success? (r : NodeResult) : Option (Key × Value) :=
  r.outcome.toOption.map fun output => (r.node, output)

/-- The node and the output of an event that is a success. -/
def Event.success? : Event → Option (Key × Value)
  | .succeeded id _ _ _ output _ => some (id, output)
  | _ => none

/-- The output of the last success of a node among some results. -/
def lastOutput (results : List NodeResult) (id : Key) : Option Value :=
  results.reverse.findSome? fun r => if r.node = id then r.outcome.toOption else none

/-- Whether a node has a success among some results. -/
def HasSuccess (results : List NodeResult) (id : Key) : Prop :=
  ∃ r ∈ results, r.node = id ∧ r.succeeded = true

/-- The nodes that some entries show to have succeeded outside loops. -/
def succeededOutside (entries : List Entry) : List Key :=
  entries.filterMap fun e => e.event.succeededOutside

/-- A node that counts as executed for a loop that has succeeded: the loop itself, or a node of its
body. -/
def Graph.Looped (graph : Graph) (isLoop : Key → Prop) (results : List NodeResult) (id : Key) :
    Prop :=
  ∃ loop, isLoop loop ∧ HasSuccess results loop ∧ id ∈ graph.body loop ++ [loop]

theorem lastOutput_append (results others : List NodeResult) (id : Key) :
    lastOutput (results ++ others) id = (lastOutput others id).or (lastOutput results id) := by
  rw [lastOutput, List.reverse_append, List.findSome?_append]
  rfl

/-- A node has an output exactly if it has a success. -/
theorem lastOutput_isSome (results : List NodeResult) (id : Key) :
    (lastOutput results id).isSome = true ↔ HasSuccess results id := by
  rw [lastOutput, List.findSome?_isSome_iff]
  constructor
  · rintro ⟨r, hr, hsome⟩
    split at hsome
    · rename_i hnode
      refine ⟨r, List.mem_reverse.1 hr, hnode, ?_⟩
      unfold NodeResult.succeeded
      cases hout : r.outcome with
      | ok output => rfl
      | error f =>
        rw [hout] at hsome
        cases hsome
    · cases hsome
  · rintro ⟨r, hr, hnode, hsucceeded⟩
    refine ⟨r, List.mem_reverse.2 hr, ?_⟩
    rw [if_pos hnode]
    unfold NodeResult.succeeded at hsucceeded
    cases hout : r.outcome with
    | ok output => rfl
    | error f =>
      rw [hout] at hsucceeded
      cases hsucceeded

theorem hasSuccess_append (results others : List NodeResult) (id : Key) :
    HasSuccess (results ++ others) id ↔ HasSuccess results id ∨ HasSuccess others id := by
  simp only [HasSuccess, List.mem_append, or_and_right, exists_or]

/-- One more success adds what counts as executed for its node, if that is a loop. -/
theorem Graph.looped_append {graph : Graph} {isLoop : Key → Prop} {results : List NodeResult}
    {r : NodeResult} (hr : r.succeeded = true) (id : Key) :
    graph.Looped isLoop (results ++ [r]) id ↔
      graph.Looped isLoop results id ∨ (isLoop r.node ∧ id ∈ graph.body r.node ++ [r.node]) := by
  constructor
  · rintro ⟨loop, hloop, hsuccess, hid⟩
    rcases (hasSuccess_append results [r] loop).1 hsuccess with hsuccess | ⟨r', hr', hnode, _⟩
    · exact .inl ⟨loop, hloop, hsuccess, hid⟩
    · rw [List.mem_singleton.1 hr'] at hnode
      subst hnode
      exact .inr ⟨hloop, hid⟩
  · rintro (⟨loop, hloop, hsuccess, hid⟩ | ⟨hloop, hid⟩)
    · exact ⟨loop, hloop, (hasSuccess_append results [r] loop).2 (.inl hsuccess), hid⟩
    · exact ⟨r.node, hloop, ⟨r, by simp, rfl, hr⟩, hid⟩

/-- Failures give no node a success. -/
theorem not_hasSuccess {failed : List NodeResult} (h : ∀ r ∈ failed, ∃ f, r.outcome = .error f)
    (id : Key) : ¬ HasSuccess failed id := by
  rintro ⟨r, hr, _, hsucceeded⟩
  obtain ⟨f, hf⟩ := h r hr
  rw [NodeResult.succeeded, hf] at hsucceeded
  cases hsucceeded

theorem Event.succeededOutside_of_success? {event : Event} (h : event.success? = none) :
    event.succeededOutside = none := by
  cases event <;> first | rfl | cases h

theorem Event.success?_of_isRemark {event : Event} (h : event.isRemark = true) :
    event.success? = none := by
  cases event <;> first | rfl | cases h

namespace Plan

variable {plan : Plan} {isLoop : Key → Prop} {before : Run} {s t : Stage}

/-- A node that counts as executed for a loop whose success has not been kept yet. -/
def Pending (plan : Plan) (p : Place) (id : Key) : Prop :=
  ∃ call, p.phase = .answered call ∧ call.node.cls.kind = .loop ∧
    id ∈ plan.graph.body call.node.id ++ [call.node.id]

theorem not_pending {p : Place} (h : ∀ call, p.phase ≠ .answered call) (id : Key) :
    ¬ plan.Pending p id :=
  fun ⟨call, hphase, _⟩ => h call hphase

/-- What a run has recorded since it was another run, from a fresh state. -/
structure Recorded (plan : Plan) (isLoop : Key → Prop) (before : Run) (s : Stage) where
  made : List NodeResult
  news : List Entry
  results : s.run.results = before.results ++ made
  journal : s.run.world.journal = news ++ before.world.journal
  /-- The successes among the results are those that the journal shows, in the same order. -/
  matched : made.filterMap NodeResult.success? = news.reverse.filterMap fun e => e.event.success?
  outputs : ∀ id, s.run.state.outputs.lookup id = lastOutput made id
  executed : ∀ id, id ∈ s.run.state.executed ↔
    id ∈ succeededOutside news ∨ plan.graph.Looped isLoop made id ∨ plan.Pending s.place id

/-- A move without a success that leaves the books leaves what is recorded. At most a failure is
kept. -/
def Recorded.keep (h : plan.Recorded isLoop before s) (entries : List Entry)
    (failed : List NodeResult) (entries_none : ∀ e ∈ entries, e.event.success? = none)
    (failed_error : ∀ r ∈ failed, ∃ f, r.outcome = .error f)
    (results : t.run.results = s.run.results ++ failed)
    (journal : t.run.world.journal = entries ++ s.run.world.journal)
    (outputs : t.run.state.outputs = s.run.state.outputs)
    (executed : t.run.state.executed = s.run.state.executed)
    (pending : ∀ id, plan.Pending t.place id ↔ plan.Pending s.place id) :
    plan.Recorded isLoop before t where
  made := h.made ++ failed
  news := entries ++ h.news
  results := by rw [results, h.results, List.append_assoc]
  journal := by rw [journal, h.journal, List.append_assoc]
  matched := by
    have hfailed : failed.filterMap NodeResult.success? = [] := by
      refine List.filterMap_eq_nil_iff.2 fun r hr => ?_
      obtain ⟨f, hf⟩ := failed_error r hr
      rw [NodeResult.success?, hf]
      rfl
    have hentries : entries.reverse.filterMap (fun e => e.event.success?) = [] :=
      List.filterMap_eq_nil_iff.2 fun e he => entries_none e (List.mem_reverse.1 he)
    rw [List.filterMap_append, hfailed, List.reverse_append, List.filterMap_append, hentries,
      h.matched]
  outputs id := by
    have hnone : lastOutput failed id = none := by
      have := mt (lastOutput_isSome failed id).1 (not_hasSuccess failed_error id)
      simpa using this
    rw [outputs, h.outputs, lastOutput_append, hnone, Option.none_or]
  executed id := by
    have hentries : succeededOutside (entries ++ h.news) = succeededOutside h.news := by
      have hnone : entries.filterMap (fun e => e.event.succeededOutside) = [] :=
        List.filterMap_eq_nil_iff.2 fun e he =>
          Event.succeededOutside_of_success? (entries_none e he)
      rw [succeededOutside, List.filterMap_append, hnone, List.nil_append]
      rfl
    have hsuccess : ∀ loop, HasSuccess (h.made ++ failed) loop ↔ HasSuccess h.made loop := by
      intro loop
      rw [hasSuccess_append]
      exact or_iff_left (not_hasSuccess failed_error loop)
    rw [executed, h.executed, hentries, pending]
    simp only [Graph.Looped, hsuccess]

/-- A success outside loops is executed, and the loop whose success is kept is pending no more. -/
def Recorded.succeed {run : Run} {call : Invocation} {replays : List Invocation}
    (h : plan.Recorded isLoop before ⟨run, ⟨.answered call, replays⟩, none⟩) (branch output : Value)
    (hloop : isLoop call.node.id ↔ call.node.cls.kind = .loop) :
    plan.Recorded isLoop before ⟨call.succeeded branch output run, ⟨.walking, replays⟩, none⟩ where
  made := h.made ++ [call.result run.world.clock (.ok output)]
  news := ⟨run.world.tag, .succeeded call.node.id call.node.type _ branch output _⟩ :: h.news
  results := by
    rw [← List.append_assoc, ← h.results]
    rfl
  journal := by
    rw [List.cons_append, ← h.journal]
    rfl
  matched := by
    rw [List.filterMap_append, h.matched, List.reverse_cons, List.filterMap_append]
    rfl
  outputs id := by
    have hlast : lastOutput [call.result run.world.clock (.ok output)] id =
        if call.node.id = id then some output else none := by
      simp [lastOutput, Invocation.result, Except.toOption]
    rw [Invocation.succeeded, RunState.record_outputs, Entries.lookup_put, lastOutput_append, hlast,
      ← h.outputs]
    by_cases hid : id = call.node.id
    · simp [hid]
    · have hid' : ¬ call.node.id = id := fun heq => hid heq.symm
      simp [hid, hid']
  executed id := by
    have hpending : plan.Pending ⟨.answered call, replays⟩ id ↔ isLoop call.node.id ∧
        id ∈ plan.graph.body call.node.id ++ [call.node.id] := by
      rw [hloop]
      constructor
      · rintro ⟨other, hphase, hkind, hid⟩
        cases hphase
        exact ⟨hkind, hid⟩
      · exact fun ⟨hkind, hid⟩ => ⟨call, rfl, hkind, hid⟩
    have hwalking : ¬ plan.Pending ⟨.walking, replays⟩ id := not_pending (by simp) id
    have hout : ∀ tag milliseconds, id ∈ succeededOutside (⟨tag, .succeeded call.node.id
        call.node.type milliseconds branch output (run.state.record call.node.id output)⟩ :: h.news) ↔
          id ∈ succeededOutside h.news ∨ (run.state.frames = [] ∧ id = call.node.id) := by
      intro tag milliseconds
      -- the event shows the state after the record, which has the same frames
      by_cases hframes : run.state.frames = []
      · have hin : (run.state.record call.node.id output).inLoop = false := by
          rw [RunState.inLoop_eq_false, RunState.record_frames, hframes]
        simp [succeededOutside, Event.succeededOutside, hin, hframes, or_comm]
      · have hin : (run.state.record call.node.id output).inLoop = true := by
          simpa [RunState.inLoop] using hframes
        simp [succeededOutside, Event.succeededOutside, hin, hframes]
    have hlooped : plan.graph.Looped isLoop (h.made ++ [call.result run.world.clock (.ok output)])
        id ↔ plan.graph.Looped isLoop h.made id ∨
          (isLoop call.node.id ∧ id ∈ plan.graph.body call.node.id ++ [call.node.id]) :=
      Graph.looped_append rfl id
    rw [Invocation.succeeded, RunState.mem_record_executed, h.executed, hpending, hout, hlooped]
    constructor
    · rintro ((hid | hid | hid) | hid)
      · exact .inl (.inl hid)
      · exact .inr (.inl (.inl hid))
      · exact .inr (.inl (.inr hid))
      · exact .inl (.inr hid)
    · rintro ((hid | hid) | (hid | hid) | hid)
      · exact .inl (.inl hid)
      · exact .inr hid
      · exact .inl (.inr (.inl hid))
      · exact .inl (.inr (.inr hid))
      · exact absurd hid hwalking

/-- A loop that has its answer is pending, with its body. -/
def Recorded.mark {run : Run} {call : Invocation} {replays : List Invocation}
    (h : plan.Recorded isLoop before ⟨run, ⟨.acting call, replays⟩, none⟩)
    (kind : call.node.cls.kind = .loop) :
    plan.Recorded isLoop before
      ⟨run.withState fun s => s.markExecuted (plan.graph.body call.node.id ++ [call.node.id]),
        ⟨.answered call, replays⟩, none⟩ where
  made := h.made
  news := h.news
  results := h.results
  journal := h.journal
  matched := h.matched
  outputs := h.outputs
  executed id := by
    have hacting : ¬ plan.Pending ⟨.acting call, replays⟩ id := not_pending (by simp) id
    have hanswered : plan.Pending ⟨.answered call, replays⟩ id ↔
        id ∈ plan.graph.body call.node.id ++ [call.node.id] := by
      constructor
      · rintro ⟨other, hphase, _, hid⟩
        cases hphase
        exact hid
      · exact fun hid => ⟨call, rfl, kind, hid⟩
    rw [Run.withState, RunState.mem_markExecuted, h.executed, hanswered, or_iff_left hacting, or_assoc]

/-- A move that leaves results, journal and books leaves what is recorded. -/
def Recorded.stay (h : plan.Recorded isLoop before s) (results : t.run.results = s.run.results)
    (journal : t.run.world.journal = s.run.world.journal)
    (outputs : t.run.state.outputs = s.run.state.outputs)
    (executed : t.run.state.executed = s.run.state.executed)
    (pending : ∀ id, plan.Pending t.place id ↔ plan.Pending s.place id) :
    plan.Recorded isLoop before t :=
  h.keep [] [] (by simp) (by simp) (by rw [results, List.append_nil]) journal outputs executed pending

/-- **Every move keeps what is recorded in step.** -/
theorem Recorded.move (h : Nonempty (plan.Recorded isLoop before s)) (books : plan.KeepsBooks)
    (sound : plan.Sound s.place)
    (hloop : ∀ id node, plan.nodes.lookup id = some node → (isLoop id ↔ node.cls.kind = .loop))
    (hmove : plan.Move s t) : Nonempty (plan.Recorded isLoop before t) := by
  obtain ⟨h⟩ := h
  have hidle : ∀ {p q : Place}, (∀ call, p.phase ≠ .answered call) →
      (∀ call, q.phase ≠ .answered call) → ∀ id, plan.Pending q id ↔ plan.Pending p id :=
    fun hp hq id => iff_of_false (not_pending hq id) (not_pending hp id)
  cases hmove with
  | quiet spared =>
    obtain ⟨entries, hjournal, hremarks⟩ := spared.world.journal
    have hbooks := spared.state.sameBooks
    exact ⟨h.keep entries [] (fun e he => Event.success?_of_isRemark (hremarks e he)) (by simp)
      (List.append_nil _).symm hjournal hbooks.outputs hbooks.executed fun _ => Iff.rfl⟩
  | begin tag known due allowed =>
    exact ⟨h.keep [⟨tag, _⟩] [] (List.forall_mem_singleton.2 rfl) (by simp) (List.append_nil _).symm
      rfl rfl rfl (hidle (by simp) (by simp))⟩
  | @enter run call replays items kind =>
    exact ⟨h.keep [⟨run.world.tag, _⟩] [] (List.forall_mem_singleton.2 rfl) (by simp)
      (List.append_nil _).symm rfl rfl rfl (hidle (by simp) (by simp))⟩
  | @foreign run call replays executor branching kind =>
    have hbooks := sound.sameBooks run books kind
    exact ⟨h.stay rfl rfl hbooks.outputs hbooks.executed fun _ => Iff.rfl⟩
  | turn index =>
    exact ⟨h.stay rfl rfl (RunState.setIndex_outputs _ _) (RunState.setIndex_executed _ _)
      fun _ => Iff.rfl⟩
  | leave =>
    exact ⟨h.stay rfl rfl (RunState.leaveLoop_outputs _) (RunState.leaveLoop_executed _)
      (hidle (by simp) (by simp))⟩
  | mark kind => exact ⟨h.mark kind⟩
  | @answer run call replays kind =>
    refine ⟨h.stay rfl rfl rfl rfl fun id => ?_⟩
    refine iff_of_false ?_ (not_pending (by simp) id)
    rintro ⟨other, hphase, hkind, _⟩
    cases hphase
    exact kind hkind
  | @succeed run call replays branch output =>
    exact ⟨h.succeed branch output (hloop call.node.id call.node (sound.known call List.mem_cons_self))⟩
  | @fail run call replays f recordable =>
    exact ⟨h.keep [⟨run.world.tag, _⟩] [call.result run.world.clock (.error f)]
      (List.forall_mem_singleton.2 rfl) (List.forall_mem_singleton.2 ⟨f, rfl⟩) rfl rfl rfl rfl
      (hidle (by simp) (by simp))⟩
  | exceed | unready | offer | spoil | raise =>
    exact ⟨h.stay rfl rfl rfl rfl fun _ => Iff.rfl⟩
  | abandon => exact ⟨h.stay rfl rfl rfl rfl (hidle (by simp) (by simp))⟩

/-- A node that the journal shows to have succeeded has a success among the results. -/
theorem Recorded.hasSuccess (h : plan.Recorded isLoop before s) {id : Key}
    (hid : id ∈ succeededOutside h.news) : HasSuccess h.made id := by
  obtain ⟨e, he, hevent⟩ := List.mem_filterMap.1 hid
  have hsuccess : ∃ output, e.event.success? = some (id, output) := by
    obtain ⟨tag, event⟩ := e
    cases event with
    | succeeded node type milliseconds branch output state =>
      simp only [Event.succeededOutside] at hevent
      split at hevent
      · cases hevent
      · cases hevent
        exact ⟨output, rfl⟩
    | _ => cases hevent
  obtain ⟨output, hsuccess⟩ := hsuccess
  have hmem : (id, output) ∈ h.made.filterMap NodeResult.success? := by
    rw [h.matched]
    exact List.mem_filterMap.2 ⟨e, List.mem_reverse.2 he, hsuccess⟩
  obtain ⟨r, hr, hresult⟩ := List.mem_filterMap.1 hmem
  unfold NodeResult.success? at hresult
  cases hout : r.outcome with
  | error f =>
    rw [hout] at hresult
    cases hresult
  | ok value =>
    rw [hout] at hresult
    cases hresult
    exact ⟨r, hr, rfl, by rw [NodeResult.succeeded, hout]; rfl⟩

/-- What is recorded holds at every stage that a run comes to. -/
theorem Reaches.recorded (h : plan.Reaches s t) (books : plan.KeepsBooks)
    (hloop : ∀ id node, plan.nodes.lookup id = some node → (isLoop id ↔ node.cls.kind = .loop))
    (sound : plan.Sound s.place) (hs : Nonempty (plan.Recorded isLoop before s)) :
    Nonempty (plan.Recorded isLoop before t) :=
  h.keeps_sound (fun _ _ sound hmove hs => Recorded.move hs books sound hloop hmove) sound hs

end Plan

/-- What a run of a workflow has recorded since it was another run, from a fresh state. -/
structure RunRecord (registry : Registry) (workflow : Value) (before after : Run) where
  made : List NodeResult
  news : List Entry
  results : after.results = before.results ++ made
  journal : after.world.journal = news ++ before.world.journal
  /-- The successes among the results are those that the journal shows, in the same order. -/
  matched : made.filterMap NodeResult.success? = news.reverse.filterMap fun e => e.event.success?
  keys : ∀ id, id ∈ after.state.outputs.map Prod.fst ↔ HasSuccess made id
  outputs : ∀ id, after.state.outputs.lookup id = lastOutput made id
  executed : ∀ id, id ∈ after.state.executed ↔ id ∈ succeededOutside news ∨
    ∃ graph, Graph.ofValue workflow = .ok graph ∧
      graph.Looped (graph.IsLoop registry) made id
  /-- A node without a success has no output, and is executed in the body of a loop at most. -/
  unsuccessful : ∀ id, ¬ HasSuccess made id →
    id ∉ after.state.outputs.map Prod.fst ∧
      (id ∈ after.state.executed → ∃ graph loop, Graph.ofValue workflow = .ok graph ∧
        graph.IsLoop registry loop ∧ HasSuccess made loop ∧ id ∈ graph.body loop)

/-- Where a run has come to by moves, its record is in step with the graph of its plan. -/
def Plan.Recorded.runRecord {registry : Registry} {budget : Option Int} {workflow : Value}
    {departure : Departure} {before run : Run} {replays : List Invocation} {cause : Option Failure}
    (h : departure.plan.Recorded (departure.plan.graph.IsLoop registry) before
      ⟨run, ⟨.walking, replays⟩, cause⟩) (hof : departure.Of registry budget workflow) :
    RunRecord registry workflow before run :=
  have hkeys : ∀ id, id ∈ run.state.outputs.map Prod.fst ↔ HasSuccess h.made id := fun id => by
    rw [Entries.mem_keys_iff, h.outputs id]
    exact lastOutput_isSome h.made id
  have hexecuted : ∀ id, id ∈ run.state.executed ↔ id ∈ succeededOutside h.news ∨
      departure.plan.graph.Looped (departure.plan.graph.IsLoop registry) h.made id := fun id => by
    -- nothing is pending where a run has come to, since no answer waits
    have hwalking : ¬ departure.plan.Pending ⟨.walking, replays⟩ id := Plan.not_pending (by simp) id
    rw [h.executed id, or_iff_left hwalking]
  { made := h.made
    news := h.news
    results := h.results
    journal := h.journal
    matched := h.matched
    keys := hkeys
    outputs := h.outputs
    executed := by
      intro id
      rw [hexecuted id]
      refine or_congr_right ⟨fun hid => ⟨departure.plan.graph, hof.graph, hid⟩, ?_⟩
      rintro ⟨graph, hgraph, hid⟩
      rw [hof.graph] at hgraph
      cases hgraph
      exact hid
    unsuccessful := by
      intro id hnone
      refine ⟨fun hkey => hnone ((hkeys id).1 hkey), fun hid => ?_⟩
      -- a success outside loops would be one, and so would that of the loop itself
      rcases (hexecuted id).1 hid with hout | ⟨loop, hloop, hsuccess, hbody⟩
      · exact absurd (h.hasSuccess hout) hnone
      · rcases List.mem_append.1 hbody with hbody | hself
        · exact ⟨departure.plan.graph, loop, hof.graph, hloop, hsuccess, hbody⟩
        · rw [List.mem_singleton.1 hself] at hnone
          exact absurd hsuccess hnone }

/-- A run that leaves remarks and nothing else has recorded nothing. -/
def RunRecord.nothing {registry : Registry} {workflow : Value} {before after : Run}
    {news : List Entry} (results : after.results = before.results)
    (journal : after.world.journal = news ++ before.world.journal)
    (remarks : ∀ e ∈ news, e.event.isRemark = true) (outputs : after.state.outputs = [])
    (executed : after.state.executed = []) : RunRecord registry workflow before after :=
  have hnone : ∀ e ∈ news, e.event.success? = none := fun e he =>
    Event.success?_of_isRemark (remarks e he)
  have hout : succeededOutside news = [] :=
    List.filterMap_eq_nil_iff.2 fun e he => Event.succeededOutside_of_success? (hnone e he)
  { made := []
    news := news
    results := by rw [results, List.append_nil]
    journal := journal
    matched :=
      (List.filterMap_eq_nil_iff.2 fun e he => hnone e (List.mem_reverse.1 he)).symm
    keys := by simp [outputs, HasSuccess]
    outputs := by simp [outputs, lastOutput]
    executed := by simp [executed, hout, Graph.Looped, HasSuccess]
    unsuccessful := by simp [outputs, executed] }

/-- **The outputs, the executed nodes and the results of a run from a fresh state are in step**,
however far the run gets and however it ends. The outputs are those of the last successes; executed
are the nodes that have succeeded outside loops and those of a loop that has succeeded, with its body.
A node without a success has no output, and is executed in the body of such a loop at most. -/
theorem courseOf_record (registry : Registry) (budget : Option Int) (fuel : Nat) (workflow : Value)
    (run : Run) (books : registry.KeepsBooks) (outputs : run.state.outputs = [])
    (executed : run.state.executed = []) :
    Nonempty (RunRecord registry workflow run
      ((courseOf registry budget fuel workflow).run run).2) := by
  rcases courseOf_reaches registry budget fuel workflow run with
    ⟨bench, hrun, hspared⟩ | ⟨departure, hof, replays, cause, hreaches⟩
  · obtain ⟨news, hjournal, hremarks⟩ := hspared.world.journal
    have hbooks := hspared.state.sameBooks
    have hrecord : RunRecord registry workflow run (run.opened.onBench bench) :=
      .nothing rfl hjournal hremarks (hbooks.outputs.trans outputs) (hbooks.executed.trans executed)
    rw [hrun]
    exact ⟨hrecord⟩
  · have hstart : Nonempty (departure.plan.Recorded (departure.plan.graph.IsLoop registry) run
        ⟨run.opened, ⟨.walking, []⟩, none⟩) :=
      ⟨{ made := [], news := [], results := (List.append_nil _).symm, journal := rfl, matched := rfl
         outputs := by simp [Run.opened, outputs, lastOutput]
         executed := by simp [Run.opened, executed, succeededOutside, Graph.Looped, HasSuccess,
           Plan.Pending] }⟩
    obtain ⟨h⟩ := hreaches.recorded (hof.keepsBooks books) (fun id node => hof.isLoop_iff)
      departure.plan.sound_start hstart
    exact ⟨h.runRecord hof⟩

/-- A trigger that leads to a counter and to a loop. The loop leads to one without items and to a
filter without a field, which is the body of the loop without items as well. -/
def emptyInnerLoop : Value := .object [
  ("nodes", .list [
    .object [("id", .text "t"), ("type", .text "manual-trigger")],
    .object [("id", .text "c"), ("type", .text "x-count")],
    .object [("id", .text "outer"), ("type", .text "loop"),
      ("data", .object [("config", .object [("items", .list [.int 1])])])],
    .object [("id", .text "inner"), ("type", .text "loop"),
      ("data", .object [("config", .object [("items", .list [])])])],
    .object [("id", .text "x"), ("type", .text "filter")]]),
  ("edges", .list [
    .object [("source", .text "t"), ("target", .text "c")],
    .object [("source", .text "t"), ("target", .text "outer")],
    .object [("source", .text "outer"), ("target", .text "inner")],
    .object [("source", .text "outer"), ("target", .text "x")],
    .object [("source", .text "inner"), ("target", .text "x")]])]

theorem courseOf_record_emptyInnerLoop :
    Registry.counting.KeepsBooks ∧ ({ world := {}, state := {} } : Run).state.outputs = [] ∧
      ({ world := {}, state := {} } : Run).state.executed = [] ∧
      Nonempty (RunRecord .counting emptyInnerLoop { world := {}, state := {} }
        ((courseOf .counting none 20 emptyInnerLoop).run { world := {}, state := {} }).2) :=
  ⟨Registry.counting_keepsBooks, rfl, rfl,
    courseOf_record .counting none 20 emptyInnerLoop { world := {}, state := {} }
      Registry.counting_keepsBooks rfl rfl⟩

/-- The filter only fails, and counts as executed all the same: the loop without items has succeeded
before, and has marked its body. -/
theorem emptyInnerLoop_executed :
    (((courseOf .counting none 20 emptyInnerLoop).run { world := {}, state := {} }).2.results.map
        fun r => (r.node, r.succeeded)) =
          [(.text "t", true), (.text "c", true), (.text "inner", true), (.text "x", false),
            (.text "outer", false)] ∧
      Key.text "x" ∈
        ((courseOf .counting none 20 emptyInnerLoop).run
          { world := {}, state := {} }).2.state.executed := by
  decide +kernel

end WorkflowEngine
