import Mathlib.Data.List.Infix
import WorkflowEngine.Proofs.Run.Record

/-!
# What merges join

A merge that waits is invoked when all its sources have outputs, and the output of a node is that of
its latest success in the whole run. So in a replay a merge may join what a source has put out for
an earlier item; a source that had no output when the replay of the item began has succeeded since
(`courseOf_joined`). The journal shows in which replays an invocation began or was settled, and so
where the replay of an item began (`sinceItem`).
-/

namespace WorkflowEngine

/-- The state that an event shows a run to be in. -/
def Event.state? : Event → Option RunState
  | .invoked _ _ _ s | .failed _ _ _ s | .succeeded _ _ _ _ _ s => some s
  | _ => none

/-- Whether an event shows no state in which the replay below so many others is at another item than
a frame tells, or over, or has not begun. -/
def Event.within (depth : Nat) (frame : Frame) (event : Event) : Bool :=
  event.state?.all fun s =>
    s.frames.reverse[depth]?.any fun f => f.node == frame.node && f.index == frame.index

/-- Of some entries, the latest first, those since a replay has turned to its item. -/
def sinceItem (depth : Nat) (frame : Frame) (entries : List Entry) : List Entry :=
  entries.takeWhile fun e => e.event.within depth frame

/-- Of some entries, the latest first, those before a replay has turned to its item. -/
def beforeItem (depth : Nat) (frame : Frame) (entries : List Entry) : List Entry :=
  entries.dropWhile fun e => e.event.within depth frame

/-- The output of a node that an event shows to have succeeded. -/
def Event.outputOf? (id : Key) (event : Event) : Option Value :=
  event.success?.bind fun success => if success.1 = id then some success.2 else none

/-- The output of the latest success of a node that some entries show, the latest first. -/
def latestOutput (entries : List Entry) (id : Key) : Option Value :=
  entries.findSome? fun e => e.event.outputOf? id

/-- The output of a node once a run has gone on by some entries. -/
def outputAfter (before : Run) (entries : List Entry) (id : Key) : Option Value :=
  (latestOutput entries id).or (before.state.outputs.lookup id)

theorem latestOutput_append (later earlier : List Entry) (id : Key) :
    latestOutput (later ++ earlier) id = (latestOutput later id).or (latestOutput earlier id) :=
  List.findSome?_append

theorem latestOutput_of_none {entries : List Entry}
    (h : ∀ e ∈ entries, e.event.success? = none) (id : Key) : latestOutput entries id = none :=
  List.findSome?_eq_none_iff.2 fun e he => by
    rw [Event.outputOf?, h e he]
    rfl

/-- An output is that of a success. -/
theorem exists_of_latestOutput {entries : List Entry} {id : Key} {output : Value}
    (h : latestOutput entries id = some output) :
    ∃ e ∈ entries, e.event.success? = some (id, output) := by
  obtain ⟨e, he, hsome⟩ := List.exists_of_findSome?_eq_some h
  obtain ⟨⟨node, output'⟩, hsuccess, hsame⟩ := Option.bind_eq_some_iff.1 hsome
  obtain ⟨rfl, houtput⟩ := Option.ite_none_right_eq_some.1 hsame
  obtain rfl := Option.some.inj houtput
  exact ⟨e, he, hsuccess⟩

/-- A node that has an output in the end, and had none before some entries, has succeeded in them.
-/
theorem exists_of_outputAfter {before : Run} {later earlier : List Entry} {id : Key}
    {output : Value} (hnone : outputAfter before earlier id = none)
    (h : outputAfter before (later ++ earlier) id = some output) :
    ∃ e ∈ later, e.event.success? = some (id, output) := by
  have hsplit : outputAfter before (later ++ earlier) id =
      (latestOutput later id).or (outputAfter before earlier id) := by
    rw [outputAfter, latestOutput_append, Option.or_assoc, outputAfter]
  rw [hsplit, hnone, Option.or_none] at h
  exact exists_of_latestOutput h

namespace Plan

variable {plan : Plan} {before : Run} {s t : Stage}

/-- What the journal shows of the outputs since a run was another run: every invocation began with
those of the latest successes, and so the run goes on. -/
structure Informed (plan : Plan) (before : Run) (s : Stage) where
  made : List NodeResult
  news : List Entry
  results : s.run.results = before.results ++ made
  journal : s.run.world.journal = news ++ before.world.journal
  /-- The successes among the results are those that the journal shows, in the same order. -/
  matched : made.filterMap NodeResult.success? = news.reverse.filterMap fun e => e.event.success?
  outputs : ∀ id, s.run.state.outputs.lookup id = outputAfter before news id
  /-- A node that waits was invoked with the outputs of all its sources. -/
  informed : ∀ later e earlier id label type state, news = later ++ e :: earlier →
    e.event = .invoked id label type state →
    (∀ id', state.outputs.lookup id' = outputAfter before earlier id') ∧
      ∃ node, plan.nodes.lookup id = some node ∧
        (node.Waits → (node.missingSources state).isEmpty = true)

/-- A move without an invocation or a success that leaves the outputs leaves what is known. At most
a failure is kept. -/
def Informed.keep (h : plan.Informed before s) (entries : List Entry) (failed : List NodeResult)
    (silent : ∀ e ∈ entries, e.event.success? = none ∧
      ∀ id label type state, e.event ≠ .invoked id label type state)
    (failures : ∀ r ∈ failed, r.success? = none)
    (results : t.run.results = s.run.results ++ failed)
    (journal : t.run.world.journal = entries ++ s.run.world.journal)
    (outputs : t.run.state.outputs = s.run.state.outputs) : plan.Informed before t where
  made := h.made ++ failed
  news := entries ++ h.news
  results := by rw [results, h.results, List.append_assoc]
  journal := by rw [journal, h.journal, List.append_assoc]
  matched := by
    have hfailed : failed.filterMap NodeResult.success? = [] := List.filterMap_eq_nil_iff.2 failures
    have hentries : entries.reverse.filterMap (fun e => e.event.success?) = [] :=
      List.filterMap_eq_nil_iff.2 fun e he => (silent e (List.mem_reverse.1 he)).1
    rw [List.filterMap_append, hfailed, List.reverse_append, List.filterMap_append, hentries,
      h.matched]
  outputs id := by
    have hnone := latestOutput_of_none (fun e he => (silent e he).1) id
    rw [outputs, h.outputs, outputAfter, outputAfter, latestOutput_append, hnone, Option.none_or]
  informed later e earlier id label type state hsplit hevent := by
    rcases split_append hsplit with ⟨rest, hentries, _⟩ | ⟨rest, _, hnews⟩
    · exact absurd hevent ((silent e (by rw [hentries]; simp)).2 id label type state)
    · exact h.informed rest e earlier id label type state hnews hevent

/-- A move that leaves results, journal and outputs leaves what is known. -/
theorem Informed.stay (h : plan.Informed before s) (results : t.run.results = s.run.results)
    (journal : t.run.world.journal = s.run.world.journal)
    (outputs : t.run.state.outputs = s.run.state.outputs) : Nonempty (plan.Informed before t) := by
  have hsame : t.run.results = s.run.results ++ [] := by rw [results, List.append_nil]
  exact ⟨h.keep [] [] (by simp) (by simp) hsame journal outputs⟩

/-- A node is invoked with the outputs of the latest successes, and if it waits with those of all
its sources. -/
def Informed.begin {run : Run} {replays : List Invocation} {node : Node}
    (h : plan.Informed before ⟨run, ⟨.walking, replays⟩, none⟩) (tag : Tag)
    (known : plan.nodes.lookup node.id = some node)
    (ready : node.Waits → (node.missingSources run.state).isEmpty = true) :
    plan.Informed before ⟨Invocation.begun node tag run,
      ⟨.acting ⟨node, run.world.clock, run.state.previous⟩, replays⟩, none⟩ where
  made := h.made
  news := ⟨tag, .invoked node.id node.label node.type
    { run.state with time := run.state.time + 1 }⟩ :: h.news
  results := h.results
  journal := by
    rw [List.cons_append, ← h.journal]
    rfl
  matched := by
    rw [List.reverse_cons, List.filterMap_append, ← h.matched]
    exact (List.append_nil _).symm
  outputs := h.outputs
  informed later e earlier id label type state hsplit hevent := by
    cases later with
    | nil =>
      -- this very invocation: the outputs are those that are known so far
      obtain ⟨rfl, rfl⟩ := List.cons.inj hsplit
      cases hevent
      exact ⟨h.outputs, node, known, ready⟩
    | cons e' later =>
      obtain ⟨_, hnews⟩ := List.cons.inj hsplit
      exact h.informed later e earlier id label type state hnews hevent

/-- A success puts out what is known of its node from then on. -/
def Informed.succeed {run : Run} {call : Invocation} {replays : List Invocation}
    (h : plan.Informed before ⟨run, ⟨.answered call, replays⟩, none⟩) (branch output : Value) :
    plan.Informed before ⟨call.succeeded branch output run, ⟨.walking, replays⟩, none⟩ where
  made := h.made ++ [call.result run.world.clock (.ok output)]
  news := ⟨run.world.tag, .succeeded call.node.id call.node.type _ branch output _⟩ :: h.news
  results := by
    rw [← List.append_assoc, ← h.results]
    rfl
  journal := by
    rw [List.cons_append, ← h.journal]
    rfl
  matched := by
    rw [List.filterMap_append, h.matched, List.reverse_cons, List.filterMap_append]
    rfl
  outputs id := by
    have hlast : ∀ tag milliseconds state, latestOutput [⟨tag, .succeeded call.node.id
        call.node.type milliseconds branch output state⟩] id =
          if call.node.id = id then some output else none := by
      intro tag milliseconds state
      simp [latestOutput, Event.outputOf?, Event.success?]
    rw [Invocation.succeeded, RunState.record_outputs, Entries.lookup_put, h.outputs, outputAfter,
      outputAfter, ← List.singleton_append, latestOutput_append, hlast]
    by_cases hid : id = call.node.id
    · simp [hid]
    · have hid' : ¬ call.node.id = id := fun heq => hid heq.symm
      simp [hid, hid']
  informed later e earlier id label type state hsplit hevent := by
    cases later with
    | nil =>
      obtain ⟨rfl, _⟩ := List.cons.inj hsplit
      cases hevent
    | cons e' later =>
      obtain ⟨_, hnews⟩ := List.cons.inj hsplit
      exact h.informed later e earlier id label type state hnews hevent

/-- **Every move keeps to what the journal shows of the outputs.** -/
theorem Informed.move (h : Nonempty (plan.Informed before s)) (books : plan.KeepsBooks)
    (sound : plan.Sound s.place) (hmove : plan.Move s t) : Nonempty (plan.Informed before t) := by
  obtain ⟨h⟩ := h
  cases hmove with
  | quiet spared =>
    obtain ⟨entries, hjournal, hremarks⟩ := spared.world.journal
    refine ⟨h.keep entries [] (fun e he => ⟨Event.success?_of_isRemark (hremarks e he), ?_⟩)
      (by simp) (List.append_nil _).symm hjournal spared.state.sameBooks.outputs⟩
    rintro id label type state hevent
    have hremark := hremarks e he
    rw [hevent] at hremark
    cases hremark
  | begin tag known due allowed ready => exact ⟨h.begin tag known ready⟩
  | @enter run call replays items kind =>
    exact ⟨h.keep [⟨run.world.tag, _⟩] [] (List.forall_mem_singleton.2 ⟨rfl, by simp⟩) (by simp)
      (List.append_nil _).symm rfl rfl⟩
  | @foreign run call replays executor branching kind =>
    exact h.stay rfl rfl (sound.sameBooks run books kind).outputs
  | turn index => exact h.stay rfl rfl (RunState.setIndex_outputs _ _)
  | leave => exact h.stay rfl rfl (RunState.leaveLoop_outputs _)
  | succeed branch output => exact ⟨h.succeed branch output⟩
  | @fail run call replays f recordable =>
    exact ⟨h.keep [⟨run.world.tag, _⟩] [call.result run.world.clock (.error f)]
      (List.forall_mem_singleton.2 ⟨rfl, by simp⟩) (List.forall_mem_singleton.2 rfl) rfl rfl rfl⟩
  | exceed | unready | offer | spoil | mark | answer | raise | abandon => exact h.stay rfl rfl rfl

/-- What the journal shows of the outputs holds at every stage that a run comes to. -/
theorem Reaches.informed (h : plan.Reaches s t) (books : plan.KeepsBooks)
    (sound : plan.Sound s.place) (hs : Nonempty (plan.Informed before s)) :
    Nonempty (plan.Informed before t) :=
  h.keeps_sound (fun _ _ sound hmove hs => Informed.move hs books sound hmove) sound hs

end Plan

/-! ## A whole run -/

/-- The nodes of the plan that wait lack no output of their sources exactly if all are there. -/
theorem Node.missingSources_isEmpty {node : Node} {s : RunState} :
    (node.missingSources s).isEmpty = true ↔ ∀ source ∈ node.sources, ∃ output,
      s.outputs.lookup source = some output := by
  simp only [missingSources, List.isEmpty_iff, List.filter_eq_nil_iff, Bool.not_eq_true',
    Bool.not_eq_false, Entries.contains_iff, Option.isSome_iff_exists]

/-- The journal of a whole run shows its successes, and with which outputs its nodes are invoked. -/
theorem courseOf_informed {registry : Registry} (books : registry.KeepsBooks) (budget : Option Int)
    (fuel : Nat) (workflow : Value) (run : Run) :
    let run' := ((courseOf registry budget fuel workflow).run run).2
    ∃ made news, run'.results = run.results ++ made ∧
      run'.world.journal = news ++ run.world.journal ∧
      made.filterMap NodeResult.success? = news.reverse.filterMap (fun e => e.event.success?) ∧
      ∀ later e earlier id label type state, news = later ++ e :: earlier →
        e.event = .invoked id label type state →
        (∀ id', state.outputs.lookup id' = outputAfter run earlier id') ∧
        ∃ departure node, Departure.Of registry budget workflow departure ∧
          departure.plan.nodes.lookup id = some node ∧
          (node.Waits → (node.missingSources state).isEmpty = true) := by
  rcases courseOf_reaches registry budget fuel workflow run with
    ⟨bench, hrun, hspared⟩ | ⟨departure, hof, replays, cause, hreaches⟩
  · -- a run that is not made ready invokes nothing
    obtain ⟨news, hjournal, hremarks⟩ := hspared.world.journal
    refine ⟨[], news, ?_, ?_, ?_, ?_⟩
    · rw [List.append_nil, hrun]
      rfl
    · rw [hrun]
      exact hjournal
    · exact (List.filterMap_eq_nil_iff.2 fun e he =>
        Event.success?_of_isRemark (hremarks e (List.mem_reverse.1 he))).symm
    · intro later e earlier id label type state hsplit hevent
      have hremark := hremarks e (by rw [hsplit]; simp)
      rw [hevent] at hremark
      cases hremark
  · have hstart : Nonempty (departure.plan.Informed run ⟨run.opened, ⟨.walking, []⟩, none⟩) :=
      ⟨{ made := [], news := [], results := (List.append_nil _).symm, journal := rfl, matched := rfl
         outputs := fun _ => rfl
         informed := fun later e earlier id label type state hsplit => by simp at hsplit }⟩
    obtain ⟨h⟩ := hreaches.informed (hof.keepsBooks books) departure.plan.sound_start hstart
    refine ⟨h.made, h.news, h.results, h.journal, h.matched, ?_⟩
    intro later e earlier id label type state hsplit hevent
    obtain ⟨houtputs, node, hlookup, hready⟩ :=
      h.informed later e earlier id label type state hsplit hevent
    exact ⟨houtputs, departure, node, hof, hlookup, hready⟩

/-- **A merge that waits joins the output of the latest success of each of its sources**, or what
was there before the run. In the replay of an item, a source that had no output when the replay
turned to the item has succeeded since, and that is what is joined; any other may stand from an
earlier item. -/
theorem courseOf_joined (registry : Registry) (budget : Option Int) (fuel : Nat) (workflow : Value)
    (run : Run) (books : registry.KeepsBooks) :
    let run' := ((courseOf registry budget fuel workflow).run run).2
    ∃ made news, run'.results = run.results ++ made ∧
      run'.world.journal = news ++ run.world.journal ∧
      made.filterMap NodeResult.success? = news.reverse.filterMap (fun e => e.event.success?) ∧
      ∀ graph later e earlier merge label type state, Graph.ofValue workflow = .ok graph →
        news = later ++ e :: earlier → e.event = .invoked merge label type state →
        graph.Waits registry merge → ∀ source ∈ graph.sources merge,
          ∃ output, state.outputs.lookup source = some output ∧
            outputAfter run earlier source = some output ∧
            ∀ depth frame, state.frames.reverse[depth]? = some frame →
              outputAfter run (beforeItem depth frame earlier) source = none →
              ∃ e' ∈ sinceItem depth frame earlier, e'.event.success? = some (source, output) := by
  obtain ⟨made, news, hresults, hjournal, hmatched, hinformed⟩ :=
    courseOf_informed books budget fuel workflow run
  refine ⟨made, news, hresults, hjournal, hmatched, ?_⟩
  intro graph later e earlier merge label type state hgraph hsplit hevent hwaits source hsource
  obtain ⟨houtputs, departure, node, hof, hlookup, hready⟩ :=
    hinformed later e earlier merge label type state hsplit hevent
  obtain rfl : departure.plan.graph = graph := Except.ok.inj (hof.graph.symm.trans hgraph)
  have hmem : source ∈ node.sources := by
    rw [hof.sourced merge node hlookup]
    exact List.mem_eraseDups.2 hsource
  have hall := hready ((hof.waits_iff hlookup).1 hwaits)
  obtain ⟨output, houtput⟩ := Node.missingSources_isEmpty.1 hall source hmem
  have hlatest : outputAfter run earlier source = some output :=
    (houtputs source).symm.trans houtput
  refine ⟨output, houtput, hlatest, fun depth frame _ hnone => ?_⟩
  refine exists_of_outputAfter hnone ?_
  rw [sinceItem, beforeItem, List.takeWhile_append_dropWhile]
  exact hlatest

/-- A trigger that leads to a loop over two items. Its body is two nodes that pass their input on,
and a merge that waits for both. -/
def crossedItems : Graph where
  id := .text "unknown"
  name := .text "unknown"
  nodes := [
    ⟨.text "t", .object [("id", .text "t"), ("type", .text "manual-trigger")]⟩,
    ⟨.text "l", .object [("id", .text "l"), ("type", .text "loop"),
      ("data", .object [("config", .object [("items", .list [.int 1, .int 2])])])]⟩,
    ⟨.text "a", .object [("id", .text "a"), ("type", .text "pass")]⟩,
    ⟨.text "b", .object [("id", .text "b"), ("type", .text "pass")]⟩,
    ⟨.text "m", .object [("id", .text "m"), ("type", .text "merge"),
      ("data", .object [("config",
        .object [("waitForAll", .bool true), ("mode", .text "multiplex")])])]⟩]
  edges := [⟨.text "t", .text "l", .null⟩, ⟨.text "l", .text "a", .null⟩,
    ⟨.text "l", .text "b", .null⟩, ⟨.text "a", .text "m", .null⟩, ⟨.text "b", .text "m", .null⟩]

theorem crossedItems_read : Graph.ofValue crossedItems.toValue = .ok crossedItems := by rfl

theorem crossedItems_waits : crossedItems.Waits .builtin (.text "m") :=
  ⟨_, _, _, rfl, rfl, rfl, rfl, rfl⟩

/-- The run over two items goes to its end, and what it joins is as told. -/
theorem courseOf_joined_crossedItems :
    let run : Run := { world := {}, state := {} }
    let run' := ((courseOf .builtin none 40 crossedItems.toValue).run run).2
    Registry.builtin.KeepsBooks ∧ Graph.ofValue crossedItems.toValue = .ok crossedItems ∧
      ((courseOf .builtin none 40 crossedItems.toValue).run run).1.map Except.isOk = some true ∧
      run'.results.map NodeResult.node = [.text "t", .text "a", .text "b", .text "m", .text "a",
        .text "m", .text "b", .text "m", .text "l"] ∧
      ∃ made news, run'.results = run.results ++ made ∧
        run'.world.journal = news ++ run.world.journal ∧
        made.filterMap NodeResult.success? = news.reverse.filterMap (fun e => e.event.success?) ∧
        ∀ graph later e earlier merge label type state,
          Graph.ofValue crossedItems.toValue = .ok graph →
          news = later ++ e :: earlier → e.event = .invoked merge label type state →
          graph.Waits .builtin merge → ∀ source ∈ graph.sources merge,
            ∃ output, state.outputs.lookup source = some output ∧
              outputAfter run earlier source = some output ∧
              ∀ depth frame, state.frames.reverse[depth]? = some frame →
                outputAfter run (beforeItem depth frame earlier) source = none →
                ∃ e' ∈ sinceItem depth frame earlier, e'.event.success? = some (source, output) :=
  ⟨Registry.builtin_keepsBooks, crossedItems_read, by decide +kernel, by decide +kernel,
    courseOf_joined .builtin none 40 crossedItems.toValue { world := {}, state := {} }
      Registry.builtin_keepsBooks⟩

/-- Whether an entry shows an invocation of a merge in the replay of a loop and in no other, with no
success of a source since that replay has turned to its item. -/
def Entry.isStale (loop merge source : Key) (e : Entry) (earlier : List Entry) : Bool :=
  match e.event with
  | .invoked id _ _ state => match state.frames with
    | [frame] => id == merge && frame.node == loop &&
        (sinceItem 0 frame earlier).all fun e' => (e'.event.outputOf? source).isNone
    | _ => false
  | _ => false

theorem Entry.exists_of_isStale {loop merge source : Key} {e : Entry} {earlier : List Entry}
    (h : e.isStale loop merge source earlier = true) : ∃ label type state frame,
      e.event = .invoked merge label type state ∧ state.frames = [frame] ∧ frame.node = loop ∧
        ∀ e' ∈ sinceItem 0 frame earlier, ∀ output, e'.event.success? ≠ some (source, output) := by
  unfold isStale at h
  split at h
  · rename_i id label type state hevent
    split at h
    · rename_i frame hframes
      simp only [Bool.and_eq_true, beq_iff_eq, List.all_eq_true] at h
      obtain ⟨⟨rfl, hnode⟩, hnone⟩ := h
      refine ⟨label, type, state, frame, hevent, hframes, hnode, fun e' he' output hsuccess => ?_⟩
      have houtput : e'.event.outputOf? source = some output := by
        rw [Event.outputOf?, hsuccess]
        exact if_pos rfl
      have hnone := hnone e' he'
      rw [houtput] at hnone
      cases hnone
    · cases h
  · cases h

/-- Some entries, the latest first, are split before an entry that meets a test. -/
theorem exists_split_of_any {test : Entry → List Entry → Bool} {entries : List Entry}
    (h : (entries.tails.any fun
      | e :: earlier => test e earlier
      | [] => false) = true) :
    ∃ later e earlier, entries = later ++ e :: earlier ∧ test e earlier = true := by
  obtain ⟨tail, htail, htest⟩ := List.any_eq_true.1 h
  obtain ⟨later, rfl⟩ := (List.mem_tails _ _).1 htail
  cases tail with
  | nil => cases htest
  | cons e earlier => exact ⟨later, e, earlier, rfl, htest⟩

/-- When the loop is at its second item, the merge is invoked once before its second source is: it
joins what that source has put out for the first item. -/
theorem crossedItems_stale :
    let run : Run := { world := {}, state := {} }
    let run' := ((courseOf .builtin none 40 crossedItems.toValue).run run).2
    Graph.ofValue crossedItems.toValue = .ok crossedItems ∧
      crossedItems.Waits .builtin (.text "m") ∧ .text "b" ∈ crossedItems.sources (.text "m") ∧
      .text "m" ∈ crossedItems.body (.text "l") ∧ .text "b" ∈ crossedItems.body (.text "l") ∧
      ∃ later e earlier label type state frame, run'.world.journal = later ++ e :: earlier ∧
        e.event = .invoked (.text "m") label type state ∧ state.frames = [frame] ∧
        frame.node = .text "l" ∧
        ∀ e' ∈ sinceItem 0 frame earlier, ∀ output,
          e'.event.success? ≠ some (.text "b", output) := by
  intro run run'
  obtain ⟨later, e, earlier, hsplit, hstale⟩ :
      ∃ later e earlier, run'.world.journal = later ++ e :: earlier ∧
        e.isStale (.text "l") (.text "m") (.text "b") earlier = true :=
    exists_split_of_any (by decide +kernel)
  obtain ⟨label, type, state, frame, h⟩ := Entry.exists_of_isStale hstale
  exact ⟨crossedItems_read, crossedItems_waits, by decide, by decide, by decide,
    later, e, earlier, label, type, state, frame, hsplit, h⟩

end WorkflowEngine
