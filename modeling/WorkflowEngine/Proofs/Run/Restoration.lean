import WorkflowEngine.Proofs.Run.Books

/-!
# What a run gives back

A loop puts a frame on those that are there and takes the output before it along; however its replay
ends, both are given back. So a run that ends, done or given up at whatever depth, leaves the frames
that it found, and as the output before it leaves that of its last success outside its own loops
(`courseOf_restores`). What carries this is that the frame of the outermost replay holds that output
for as long as the replay lasts (`Restored.held`).
-/

namespace WorkflowEngine

/-- Where the run is, and what the node before has put out, is the same. -/
structure RunState.SamePlace (s s' : RunState) : Prop where
  frames : s'.frames = s.frames
  previous : s'.previous = s.previous

theorem RunState.Revised.samePlace {s s' : RunState} (h : s.Revised s') : s.SamePlace s' := by
  obtain ⟨vars, rfl⟩ := h
  exact ⟨rfl, rfl⟩

/-- A function from outside leaves the frames and the output before as they are. -/
def Executor.KeepsPlace (run : Executor) : Prop :=
  ∀ (settings : Value) (s : RunState), s.SamePlace (run.after settings s)

/-- The functions from outside among the nodes of a graph leave the frames and the output before as
they are. In a graph of built-in nodes there is no such function at all. -/
def Graph.KeepsPlace (registry : Registry) (graph : Graph) : Prop :=
  ∀ id node run branching, graph.Makes registry id node → node.cls.kind = .custom run branching →
    run.KeepsPlace

theorem Graph.keepsPlace_builtin (graph : Graph) : graph.KeepsPlace .builtin := by
  rintro id node run branching ⟨_, d, made, settings, _, hmake, rfl⟩ hkind
  exact absurd hkind (Registry.makeNode_builtin hmake run branching)

/-- The output that stands before once some frames are left, from the innermost on. -/
def outputBelow (previous : Value) : List Frame → Value
  | [] => previous
  | frame :: rest => outputBelow frame.saved rest

/-! ## Results and the states in which they are kept -/

/-- What an event shows to be kept of an invocation: its node, its outcome, and the state in which it
is kept. -/
def Event.kept? : Event → Option (Key × Attempt Value × RunState)
  | .succeeded id _ _ _ output s => some (id, .ok output, s)
  | .failed id _ f s => some (id, .error f, s)
  | _ => none

theorem Event.kept?_of_isRemark {event : Event} (h : event.isRemark = true) :
    event.kept? = none := by
  cases event <;> first | rfl | cases h

/-- The output of a success that was kept with so many frames. -/
def outputAt (depth : Nat) (e : NodeResult × RunState) : Option Value :=
  if e.2.frames.length = depth then e.1.outcome.toOption else none

/-- The output of the last success among some results that was kept with so many frames. -/
def lastOutputAt (depth : Nat) (kept : List (NodeResult × RunState)) : Option Value :=
  kept.reverse.findSome? (outputAt depth)

theorem lastOutputAt_concat (depth : Nat) (kept : List (NodeResult × RunState))
    (e : NodeResult × RunState) :
    lastOutputAt depth (kept ++ [e]) = (outputAt depth e).or (lastOutputAt depth kept) := by
  rw [lastOutputAt, List.reverse_concat, List.findSome?_cons]
  cases outputAt depth e <;> rfl

namespace Plan

/-- What a run has kept since it was another run, and the output that it goes back to. -/
structure Restored (before : Run) (s : Stage) where
  kept : List (NodeResult × RunState)
  news : List Entry
  /-- The frames of the replays under way. -/
  own : List Frame
  results : s.run.results = before.results ++ kept.map Prod.fst
  journal : s.run.world.journal = news ++ before.world.journal
  /-- The journal shows every result with the state in which it was kept, in the same order. -/
  shown : kept.map (fun e => (e.1.node, e.1.outcome, e.2)) =
    news.reverse.filterMap fun e => e.event.kept?
  frames : s.run.state.frames = own ++ before.state.frames
  nodes : own.map Frame.node = s.place.replays.map Invocation.id
  /-- Once the replays under way are left, the output of the last success outside them stands before
  again. -/
  held : outputBelow s.run.state.previous own =
    (lastOutputAt before.state.frames.length kept).getD before.state.previous

variable {plan : Plan} {before : Run} {s t : Stage}

/-- A move that keeps no result leaves what was kept. -/
def Restored.keep (h : Restored before s) (own : List Frame) (entries : List Entry)
    (entries_none : ∀ e ∈ entries, e.event.kept? = none)
    (results : t.run.results = s.run.results)
    (journal : t.run.world.journal = entries ++ s.run.world.journal)
    (frames : t.run.state.frames = own ++ before.state.frames)
    (nodes : own.map Frame.node = t.place.replays.map Invocation.id)
    (held : outputBelow t.run.state.previous own = outputBelow s.run.state.previous h.own) :
    Restored before t where
  kept := h.kept
  news := entries ++ h.news
  own := own
  results := results.trans h.results
  journal := by rw [journal, h.journal, List.append_assoc]
  shown := by
    have hentries : entries.reverse.filterMap (fun e => e.event.kept?) = [] :=
      List.filterMap_eq_nil_iff.2 fun e he => entries_none e (List.mem_reverse.1 he)
    rw [List.reverse_append, List.filterMap_append, hentries, List.append_nil, h.shown]
  frames := frames
  nodes := nodes
  held := held.trans h.held

/-- A move that leaves the frames and the output before keeps no result, and notes at most a
remark. -/
def Restored.stay (h : Restored before s) (entries : List Entry)
    (entries_none : ∀ e ∈ entries, e.event.kept? = none)
    (results : t.run.results = s.run.results)
    (journal : t.run.world.journal = entries ++ s.run.world.journal)
    (place : s.run.state.SamePlace t.run.state) (replays : t.place.replays = s.place.replays) :
    Restored before t :=
  h.keep h.own entries entries_none results journal (by rw [place.frames, h.frames])
    (by rw [replays, h.nodes]) (by rw [place.previous])

/-- The innermost frame is that of the innermost replay. -/
theorem Restored.exists_frame {run : Run} {phase : Phase} {call : Invocation}
    {replays : List Invocation} {cause : Option Failure}
    (h : Restored before ⟨run, ⟨phase, call :: replays⟩, cause⟩) :
    ∃ frame own, h.own = frame :: own ∧ run.state.frames = frame :: (own ++ before.state.frames) ∧
      frame.node = call.id ∧ own.map Frame.node = replays.map Invocation.id := by
  have hnodes := h.nodes
  have hframes := h.frames
  cases hown : h.own with
  | nil =>
    rw [hown] at hnodes
    cases hnodes
  | cons frame own =>
    rw [hown] at hnodes hframes
    exact ⟨frame, own, rfl, hframes, List.cons.inj hnodes⟩

/-- A result that is kept is the last one. A success stands as the output before; it is one outside
the replays if there are none under way, and otherwise the output to go back to stays. -/
def Restored.add (h : Restored before s) (result : NodeResult) (state : RunState) (e : Entry)
    (shown : e.event.kept? = some (result.node, result.outcome, state))
    (results : t.run.results = s.run.results ++ [result])
    (journal : t.run.world.journal = e :: s.run.world.journal)
    (frames : t.run.state.frames = s.run.state.frames) (kept_in : state.frames = s.run.state.frames)
    (replays : t.place.replays = s.place.replays)
    (previous : t.run.state.previous = result.outcome.toOption.getD s.run.state.previous) :
    Restored before t where
  kept := h.kept ++ [(result, state)]
  news := e :: h.news
  own := h.own
  results := by
    rw [results, h.results, List.map_append, List.append_assoc]
    rfl
  journal := by rw [journal, h.journal, List.cons_append]
  shown := by
    rw [List.map_append, h.shown, List.reverse_cons, List.filterMap_append]
    simp [shown]
  frames := frames.trans h.frames
  nodes := by rw [replays, h.nodes]
  held := by
    have hheld := h.held
    have hlength : state.frames.length = h.own.length + before.state.frames.length := by
      rw [kept_in, h.frames, List.length_append]
    rw [lastOutputAt_concat, outputAt]
    cases hown : h.own with
    | nil =>
      rw [hown] at hheld hlength
      rw [if_pos (by simpa using hlength), outputBelow, previous]
      cases result.outcome.toOption with
      | none => exact hheld
      | some output => rfl
    | cons frame own =>
      rw [hown, List.length_cons] at hlength
      rw [hown] at hheld
      have hne : state.frames.length ≠ before.state.frames.length := by omega
      rw [if_neg hne]
      exact hheld

/-- **Every move keeps the output to go back to.** -/
theorem Restored.move (h : Nonempty (Restored before s)) (sound : plan.Sound s.place)
    (functions : ∀ id node run branching, plan.nodes.lookup id = some node →
      node.cls.kind = .custom run branching → run.KeepsPlace)
    (hmove : plan.Move s t) : Nonempty (Restored before t) := by
  obtain ⟨h⟩ := h
  cases hmove with
  | quiet spared =>
    obtain ⟨entries, hjournal, hremarks⟩ := spared.world.journal
    exact ⟨h.stay entries (fun e he => Event.kept?_of_isRemark (hremarks e he)) rfl hjournal
      spared.state.samePlace rfl⟩
  | begin tag known due allowed =>
    exact ⟨h.stay [⟨tag, _⟩] (List.forall_mem_singleton.2 rfl) rfl rfl ⟨rfl, rfl⟩ rfl⟩
  | @foreign run call replays executor branching kind =>
    have hplace : executor.KeepsPlace :=
      functions _ call.node executor branching (sound.known call List.mem_cons_self) kind
    exact ⟨h.stay [] (by simp) rfl rfl (hplace call.node.settings run.state) rfl⟩
  | @enter run call replays items kind =>
    -- the new frame takes the output before along
    exact ⟨h.keep (⟨call.node.id, items, 0, run.state.previous⟩ :: h.own) [⟨run.world.tag, _⟩]
      (List.forall_mem_singleton.2 rfl) rfl rfl (congrArg (_ :: ·) h.frames)
      (congrArg (call.id :: ·) h.nodes) rfl⟩
  | @turn run call replays index =>
    obtain ⟨frame, own, hown, hframes, hnode, hnodes⟩ := h.exists_frame
    refine ⟨h.keep ({ frame with index := index } :: own) [] (by simp) rfl rfl
      (RunState.setIndex_frames index hframes) ?_ ?_⟩
    · rw [List.map_cons, hnode, hnodes]
      rfl
    · rw [hown]
      rfl
  | offer item =>
    obtain ⟨frame, own, hown, _⟩ := h.exists_frame
    refine ⟨h.keep h.own [] (by simp) rfl rfl h.frames h.nodes ?_⟩
    rw [hown]
    rfl
  | @leave run call replays cause =>
    obtain ⟨frame, own, hown, hframes, hnode, hnodes⟩ := h.exists_frame
    have hprevious : (run.withState RunState.leaveLoop).state.previous = frame.saved :=
      RunState.leaveLoop_previous hframes
    refine ⟨h.keep own [] (by simp) rfl rfl (RunState.leaveLoop_frames hframes) hnodes ?_⟩
    rw [hprevious, hown]
    rfl
  | @succeed run call replays branch output =>
    exact ⟨h.add (call.result run.world.clock (.ok output)) (run.state.record call.node.id output)
      ⟨run.world.tag, _⟩ rfl rfl rfl (RunState.record_frames _ _ _) (RunState.record_frames _ _ _)
      rfl (RunState.record_previous _ _ _)⟩
  | @fail run call replays f recordable =>
    exact ⟨h.add (call.result run.world.clock (.error f)) run.state ⟨run.world.tag, _⟩ rfl rfl rfl
      rfl rfl rfl rfl⟩
  | exceed | unready | spoil | mark | answer | raise | abandon =>
    exact ⟨h.stay [] (by simp) rfl rfl ⟨rfl, rfl⟩ rfl⟩

/-- Where a run has come to by moves, it can go back to what it began with. -/
theorem Reaches.restored (h : plan.Reaches s t)
    (functions : ∀ id node run branching, plan.nodes.lookup id = some node →
      node.cls.kind = .custom run branching → run.KeepsPlace)
    (sound : plan.Sound s.place) (hs : Nonempty (Restored before s)) :
    Nonempty (Restored before t) :=
  h.keeps_sound (fun _ _ sound hmove hs => Restored.move hs sound functions hmove) sound hs

end Plan

/-- What a run has kept since it was another run, with the states in which it was kept, and what it
has given back. -/
structure Restoration (before after : Run) where
  kept : List (NodeResult × RunState)
  news : List Entry
  results : after.results = before.results ++ kept.map Prod.fst
  journal : after.world.journal = news ++ before.world.journal
  /-- The journal shows every result with the state in which it was kept, in the same order. -/
  shown : kept.map (fun e => (e.1.node, e.1.outcome, e.2)) =
    news.reverse.filterMap fun e => e.event.kept?
  /-- The replays that were under way before are under way, and no others. -/
  frames : after.state.frames = before.state.frames
  /-- The output before is that of the last success that was kept with no further replay under way,
  or the one that stood there at the beginning. -/
  previous : after.state.previous =
    (lastOutputAt before.state.frames.length kept).getD before.state.previous

/-- **A run that ends gives back what it found**, whether it is done or given up, by whatever failure
and at whatever depth of replays: the frames are those that were there before, and the output before
is that of the last success outside its own replays. -/
theorem courseOf_restores (registry : Registry) (budget : Option Int) (fuel : Nat) (workflow : Value)
    (run : Run)
    (functions : ∀ graph, Graph.ofValue workflow = .ok graph → graph.KeepsPlace registry)
    (ended : ((courseOf registry budget fuel workflow).run run).1.isSome = true) :
    Nonempty (Restoration run ((courseOf registry budget fuel workflow).run run).2) := by
  rcases hcourse : (courseOf registry budget fuel workflow).run run with ⟨_ | o, run'⟩
  · rw [hcourse] at ended
    cases ended
  dsimp only
  rcases courseOf_ended hcourse with ⟨bench, rfl, hspared⟩ | ⟨departure, hof, cause, hreaches⟩
  · obtain ⟨news, hjournal, hremarks⟩ := hspared.world.journal
    have hplace := hspared.state.samePlace
    have hnone : news.reverse.filterMap (fun e => e.event.kept?) = [] :=
      List.filterMap_eq_nil_iff.2 fun e he =>
        Event.kept?_of_isRemark (hremarks e (List.mem_reverse.1 he))
    exact ⟨{ kept := [], news := news, results := (List.append_nil _).symm, journal := hjournal,
             shown := hnone.symm, frames := hplace.frames, previous := hplace.previous }⟩
  · have hstart : Nonempty (Plan.Restored run ⟨run.opened, ⟨.walking, []⟩, none⟩) :=
      ⟨{ kept := [], news := [], own := [], results := (List.append_nil _).symm, journal := rfl,
         shown := rfl, frames := rfl, nodes := rfl, held := rfl }⟩
    have hfunctions := fun id node run branching
        (hlookup : departure.plan.nodes.lookup id = some node) =>
      functions _ hof.graph id node run branching (hof.nodes id node hlookup)
    obtain ⟨h⟩ := hreaches.restored hfunctions departure.plan.sound_start hstart
    -- outside replays the run has no frames of its own any more
    have hown : h.own = [] := List.map_eq_nil_iff.1 h.nodes
    have hframes := h.frames
    have hheld := h.held
    rw [hown] at hframes hheld
    exact ⟨{ kept := h.kept, news := h.news, results := h.results, journal := h.journal,
             shown := h.shown, frames := hframes, previous := hheld }⟩

/-- A trigger that leads to a loop over two items. Its body is a loop over one, the body of which is a
condition without a field. -/
def failingInnerLoop : Value := .object [
  ("nodes", .list [
    .object [("id", .text "t"), ("type", .text "manual-trigger")],
    .object [("id", .text "outer"), ("type", .text "loop"),
      ("data", .object [("config", .object [("items", .list [.int 1, .int 2])])])],
    .object [("id", .text "inner"), ("type", .text "loop"),
      ("data", .object [("config", .object [("items", .list [.int 3])])])],
    .object [("id", .text "c"), ("type", .text "condition")]]),
  ("edges", .list [
    .object [("source", .text "t"), ("target", .text "outer")],
    .object [("source", .text "outer"), ("target", .text "inner")],
    .object [("source", .text "inner"), ("target", .text "c")]])]

/-- The failure passes two replays, and what the trigger was given stands as the output before. -/
theorem courseOf_restores_failingInnerLoop :
    (∀ graph, Graph.ofValue failingInnerLoop = .ok graph → graph.KeepsPlace .builtin) ∧
      ((courseOf .builtin none 20 failingInnerLoop).run
          { world := {}, state := { previous := .int 5 } }).1.map Except.isOk = some false ∧
      ((courseOf .builtin none 20 failingInnerLoop).run
          { world := {}, state := { previous := .int 5 } }).1.isSome = true ∧
      Nonempty (Restoration { world := {}, state := { previous := .int 5 } }
        ((courseOf .builtin none 20 failingInnerLoop).run
          { world := {}, state := { previous := .int 5 } }).2) :=
  ⟨fun graph _ => graph.keepsPlace_builtin, by decide +kernel, by decide +kernel,
    courseOf_restores .builtin none 20 failingInnerLoop
      { world := {}, state := { previous := .int 5 } } (fun graph _ => graph.keepsPlace_builtin)
      (by decide +kernel)⟩

end WorkflowEngine
