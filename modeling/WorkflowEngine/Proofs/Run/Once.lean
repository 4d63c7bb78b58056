import WorkflowEngine.Proofs.Run.Books

/-!
# Once outside loops

Outside loops a run invokes no node that was executed before it, and none twice; and once a loop has
succeeded there, neither the loop nor any node of its body is invoked there again, whatever edges lead
to it (`courseOf_once`). What carries this is that a node that was invoked outside loops is executed
by the time the run walks there again (`Outside.settled`).
-/

namespace WorkflowEngine

/-- The nodes that some entries show to be invoked outside loops. -/
def invokedOutside (entries : List Entry) : List Key :=
  entries.filterMap fun e => e.event.invokedOutside

/-- What a later entry of a journal does not invoke any more after an earlier one: outside loops, a
loop that has succeeded there, or a node of its body. -/
def Graph.NotAgain (graph : Graph) (isLoop : Key → Prop) (later earlier : Entry) : Prop :=
  ∀ loop id, earlier.event.succeededOutside = some loop → isLoop loop →
    later.event.invokedOutside = some id → id ∉ graph.body loop ++ [loop]

namespace Plan

/-- What a run has invoked outside loops since it was another run, and what follows for the nodes
that are executed. -/
structure Outside (plan : Plan) (isLoop : Key → Prop) (before : Run) (s : Stage) where
  news : List Entry
  journal : s.run.world.journal = news ++ before.world.journal
  grown : before.state.executed ⊆ s.run.state.executed
  /-- A node that was invoked outside loops is executed, or its invocation is still under way, below
  all others; or the run fails. -/
  settled : s.cause = none → ∀ id ∈ invokedOutside news,
    id ∈ s.run.state.executed ∨ s.place.calls.getLast?.map Invocation.id = some id
  once : (invokedOutside news).Nodup
  fresh : ∀ id ∈ invokedOutside news, id ∉ before.state.executed
  looped : ∀ e ∈ news, ∀ loop, e.event.succeededOutside = some loop → isLoop loop →
    ∀ id ∈ plan.graph.body loop ++ [loop], id ∈ s.run.state.executed
  never : news.Pairwise (plan.graph.NotAgain isLoop)

variable {plan : Plan} {isLoop : Key → Prop} {before : Run} {s t : Stage}

/-- The entries neither invoke a node outside loops nor show a success there. -/
def Aside (entries : List Entry) : Prop :=
  ∀ e ∈ entries, e.event.invokedOutside = none ∧ e.event.succeededOutside = none

theorem Aside.of_remarks {entries : List Entry} (h : ∀ e ∈ entries, e.event.isRemark = true) :
    Aside entries := fun e he =>
  ⟨Event.invokedOutside_of_isRemark (h e he), Event.succeededOutside_of_isRemark (h e he)⟩

theorem Aside.single {e : Entry} (hinvoked : e.event.invokedOutside = none)
    (hsucceeded : e.event.succeededOutside = none) : Aside [e] :=
  List.forall_mem_singleton.2 ⟨hinvoked, hsucceeded⟩

theorem Aside.invokedOutside_eq {entries : List Entry} (h : Aside entries) :
    invokedOutside entries = [] :=
  List.filterMap_eq_nil_iff.2 fun e he => (h e he).1

theorem Aside.invokedOutside_append {entries news : List Entry} (h : Aside entries) :
    invokedOutside (entries ++ news) = invokedOutside news := by
  rw [invokedOutside, List.filterMap_append, ← invokedOutside, h.invokedOutside_eq, List.nil_append]
  rfl

theorem Aside.notAgain {entries : List Entry} (h : Aside entries) (graph : Graph)
    (isLoop : Key → Prop) {e : Entry} (he : e ∈ entries) (e' : Entry) :
    graph.NotAgain isLoop e e' := by
  intro loop id _ _ hinvoked
  rw [(h e he).1] at hinvoked
  cases hinvoked

/-- A move that is made aside changes nothing, if the lowest invocation stays or the run fails. -/
def Outside.keep (h : plan.Outside isLoop before s) (entries : List Entry) (aside : Aside entries)
    (journal : t.run.world.journal = entries ++ s.run.world.journal)
    (executed : s.run.state.executed ⊆ t.run.state.executed)
    (last : t.cause = none → s.cause = none ∧ t.place.calls.getLast? = s.place.calls.getLast?) :
    plan.Outside isLoop before t where
  news := entries ++ h.news
  journal := by rw [journal, h.journal, List.append_assoc]
  grown := List.Subset.trans h.grown executed
  settled hcause id hid := by
    obtain ⟨hcause', hlast⟩ := last hcause
    rw [aside.invokedOutside_append] at hid
    rw [hlast]
    exact (h.settled hcause' id hid).imp_left fun hmem => executed hmem
  once := by
    rw [aside.invokedOutside_append]
    exact h.once
  fresh id hid := by
    rw [aside.invokedOutside_append] at hid
    exact h.fresh id hid
  looped e he loop hloop hkind id hid := by
    rcases List.mem_append.1 he with he | he
    · rw [(aside e he).2] at hloop
      cases hloop
    · exact executed (h.looped e he loop hloop hkind id hid)
  never := by
    have hlate := fun e (he : e ∈ entries) => aside.notAgain plan.graph isLoop he
    exact List.pairwise_append.2 ⟨List.pairwise_of_forall_mem_list fun e he e' _ => hlate e he e',
      h.never, fun e he e' _ => hlate e he e'⟩

/-- A node that is due outside loops has not been executed. -/
theorem not_mem_of_due {s : RunState} {id : Key} (due : s.shouldSkip id = false)
    (outside : s.frames = []) : id ∉ s.executed := by
  have hin : s.inLoop = false := RunState.inLoop_eq_false.2 outside
  simpa [RunState.shouldSkip, hin] using due

/-- A node that is invoked outside loops has not been invoked there before, and is in the body of no
loop that has succeeded there, since all those are executed. -/
def Outside.begin {run : Run} {node : Node}
    (h : plan.Outside isLoop before ⟨run, ⟨.walking, []⟩, none⟩) (tag : Tag)
    (due : run.state.shouldSkip node.id = false) (outside : run.state.frames = []) :
    plan.Outside isLoop before ⟨Invocation.begun node tag run,
      ⟨.acting ⟨node, run.world.clock, run.state.previous⟩, []⟩, none⟩ :=
  have hnew : node.id ∉ run.state.executed := not_mem_of_due due outside
  -- no invocation is under way below a walk outside loops
  have hold : ∀ id ∈ invokedOutside h.news, id ∈ run.state.executed := fun id hid =>
    (h.settled rfl id hid).resolve_right (by simp [Place.calls])
  have hevent : (Event.invoked node.id node.label node.type
      { run.state with time := run.state.time + 1 }).invokedOutside = some node.id := by
    simp [Event.invokedOutside, RunState.inLoop, outside]
  have hinvoked : ∀ world : World, invokedOutside (⟨world.tag, .invoked node.id node.label node.type
      { run.state with time := run.state.time + 1 }⟩ :: h.news) =
        node.id :: invokedOutside h.news := fun world => by
    rw [invokedOutside, List.filterMap_cons, hevent]
    rfl
  { news := ⟨tag, .invoked node.id node.label node.type
      { run.state with time := run.state.time + 1 }⟩ :: h.news
    journal := by
      rw [List.cons_append, ← h.journal]
      rfl
    grown := h.grown
    settled := by
      intro _ id hid
      rw [hinvoked { tag := tag }] at hid
      rcases List.mem_cons.1 hid with rfl | hid
      · exact .inr rfl
      · exact .inl (hold id hid)
    once := by
      rw [hinvoked { tag := tag }]
      exact List.nodup_cons.2 ⟨fun hmem => hnew (hold _ hmem), h.once⟩
    fresh := by
      intro id hid
      rw [hinvoked { tag := tag }] at hid
      rcases List.mem_cons.1 hid with rfl | hid
      · exact fun hmem => hnew (h.grown hmem)
      · exact h.fresh id hid
    looped := by
      intro e he loop hloop hkind id hid
      rcases List.mem_cons.1 he with rfl | he
      · cases hloop
      · exact h.looped e he loop hloop hkind id hid
    never := by
      refine List.pairwise_cons.2 ⟨?_, h.never⟩
      intro e he loop id hloop hkind hid hmem
      rw [hevent] at hid
      cases hid
      exact hnew (h.looped e he loop hloop hkind _ hmem) }

/-- A node that succeeds outside loops is executed, and so is the body of a loop. -/
def Outside.succeed {run : Run} {call : Invocation}
    (h : plan.Outside isLoop before ⟨run, ⟨.answered call, []⟩, none⟩) (branch output : Value)
    (outside : run.state.frames = [])
    (marked : isLoop call.node.id →
      ∀ id ∈ plan.graph.body call.node.id ++ [call.node.id], id ∈ run.state.executed) :
    plan.Outside isLoop before ⟨call.succeeded branch output run, ⟨.walking, []⟩, none⟩ where
  news := ⟨run.world.tag, .succeeded call.node.id call.node.type _ branch output _⟩ :: h.news
  journal := by
    rw [List.cons_append, ← h.journal]
    rfl
  grown := List.Subset.trans h.grown fun id hid =>
    (RunState.mem_record_executed _ _ _ id).2 (.inl hid)
  settled := by
    intro _ id hid
    refine .inl ((RunState.mem_record_executed _ _ _ id).2 ?_)
    rcases h.settled rfl id hid with hmem | hlast
    · exact .inl hmem
    · exact .inr ⟨outside, (Option.some.inj hlast).symm⟩
  once := h.once
  fresh := h.fresh
  looped := by
    intro e he loop hloop hkind id hid
    refine (RunState.mem_record_executed _ _ _ id).2 (.inl ?_)
    rcases List.mem_cons.1 he with rfl | he
    · have hin : (run.state.record call.node.id output).inLoop = false := by
        rw [RunState.inLoop_eq_false, RunState.record_frames, outside]
      simp only [Event.succeededOutside, hin, Bool.false_eq_true, if_false] at hloop
      cases hloop
      exact marked hkind id hid
    · exact h.looped e he loop hloop hkind id hid
  never := by
    refine List.pairwise_cons.2 ⟨?_, h.never⟩
    intro e he loop id _ _ hid
    cases hid

theorem Framed.frames_nil {run : Run} {phase : Phase} {cause : Option Failure}
    (h : Framed [] ⟨run, ⟨phase, []⟩, cause⟩) : run.state.frames = [] := by
  obtain ⟨own, hown, hnodes⟩ := h
  rw [List.map_eq_nil_iff.1 hnodes] at hown
  exact hown

theorem Framed.inLoop {run : Run} {phase : Phase} {call : Invocation} {replays : List Invocation}
    {cause : Option Failure} (h : Framed [] ⟨run, ⟨phase, call :: replays⟩, cause⟩) :
    run.state.inLoop = true := by
  obtain ⟨own, hown, hnodes⟩ := h
  cases own with
  | nil => cases hnodes
  | cons frame own =>
    rw [RunState.inLoop, hown]
    rfl

/-- **Every move keeps to what is invoked outside loops.** -/
theorem Outside.move (h : Nonempty (plan.Outside isLoop before s)) (books : plan.KeepsBooks)
    (sound : plan.Sound s.place) (framed : Framed [] s) (marked : plan.Marked s)
    (hloop : ∀ id node, plan.nodes.lookup id = some node → isLoop id → node.cls.kind = .loop)
    (hmove : plan.Move s t) : Nonempty (plan.Outside isLoop before t) := by
  obtain ⟨h⟩ := h
  have hsubset := hmove.executed_subset books sound
  have hnone : Aside [] := by simp [Aside]
  cases hmove with
  | quiet spared =>
    obtain ⟨entries, hjournal, hremarks⟩ := spared.world.journal
    exact ⟨h.keep entries (.of_remarks hremarks) hjournal hsubset fun hcause => ⟨hcause, rfl⟩⟩
  | @begin run replays node tag known due allowed =>
    -- the journal shows a loop exactly if there are replays
    cases replays with
    | nil => exact ⟨h.begin tag due framed.frames_nil⟩
    | cons call replays =>
      have hinvoked : (Event.invoked node.id node.label node.type
          { run.state with time := run.state.time + 1 }).invokedOutside = none :=
        if_pos framed.inLoop
      exact ⟨h.keep [⟨tag, _⟩] (.single hinvoked rfl) rfl hsubset fun hcause => ⟨hcause, rfl⟩⟩
  | @enter run call replays items kind =>
    exact ⟨h.keep [⟨run.world.tag, .loopBegan call.node.id items.length _⟩] (.single rfl rfl) rfl
      hsubset fun hcause => ⟨hcause, rfl⟩⟩
  | @succeed run call replays branch output =>
    cases replays with
    | nil =>
      refine ⟨h.succeed branch output framed.frames_nil fun hkind => ?_⟩
      exact marked call rfl (hloop call.node.id call.node (sound.known call List.mem_cons_self) hkind)
    | cons call' replays =>
      have hin : (run.state.record call.node.id output).inLoop = true := by
        rw [RunState.inLoop, RunState.record_frames]
        exact framed.inLoop
      exact ⟨h.keep [⟨run.world.tag, .succeeded call.node.id call.node.type _ branch output _⟩]
        (.single rfl (if_pos hin)) rfl hsubset fun hcause => ⟨hcause, rfl⟩⟩
  | @fail run call replays f recordable =>
    exact ⟨h.keep [⟨run.world.tag, .failed call.node.id call.node.type f run.state⟩]
      (.single rfl rfl) rfl hsubset fun hcause => by cases hcause⟩
  | leave => exact ⟨h.keep [] hnone rfl hsubset fun hcause => ⟨hcause, rfl⟩⟩
  | foreign | turn | offer | mark | answer =>
    exact ⟨h.keep [] hnone rfl hsubset fun _ => ⟨rfl, rfl⟩⟩
  | exceed | unready | spoil | raise | abandon =>
    exact ⟨h.keep [] hnone rfl hsubset fun hcause => by cases hcause⟩

/-- What is invoked outside loops holds at every stage that a run comes to. -/
theorem Reaches.outside (h : plan.Reaches s t) (books : plan.KeepsBooks)
    (hloop : ∀ id node, plan.nodes.lookup id = some node → isLoop id → node.cls.kind = .loop)
    (sound : plan.Sound s.place) (framed : Framed [] s) (marked : plan.Marked s)
    (hs : Nonempty (plan.Outside isLoop before s)) : Nonempty (plan.Outside isLoop before t) :=
  (h.keeps_sound (I := fun s => Framed [] s ∧ plan.Marked s ∧
      Nonempty (plan.Outside isLoop before s))
    (fun _ _ sound hmove ⟨framed, marked, hs⟩ => ⟨framed.move books sound hmove,
      marked.move books sound hmove, Outside.move hs books sound framed marked hloop hmove⟩)
    sound ⟨framed, marked, hs⟩).2.2

end Plan

/-- **Outside loops every node is invoked at most once**, whatever edges lead to it: none that was
executed before the run, none twice, and after a loop has succeeded there neither it nor a node of its
body. This holds however far the run gets and however it ends. -/
theorem courseOf_once (registry : Registry) (budget : Option Int) (fuel : Nat) (workflow : Value)
    (run : Run) (books : registry.KeepsBooks) (outside : run.state.frames = []) :
    ∃ news, ((courseOf registry budget fuel workflow).run run).2.world.journal =
        news ++ run.world.journal ∧
      (invokedOutside news).Nodup ∧ (∀ id ∈ invokedOutside news, id ∉ run.state.executed) ∧
      ∀ graph, Graph.ofValue workflow = .ok graph →
        news.Pairwise (graph.NotAgain (graph.IsLoop registry)) := by
  rcases courseOf_reaches registry budget fuel workflow run with
    ⟨bench, hrun, hspared⟩ | ⟨departure, hof, replays, cause, hreaches⟩
  · obtain ⟨news, hjournal, hremarks⟩ := hspared.world.journal
    have haside := Plan.Aside.of_remarks hremarks
    refine ⟨news, by rw [hrun]; exact hjournal, ?_, ?_, fun graph _ => ?_⟩
    · rw [haside.invokedOutside_eq]
      exact List.nodup_nil
    · rw [haside.invokedOutside_eq]
      simp
    · exact List.pairwise_of_forall_mem_list fun e he e' _ => haside.notAgain graph _ he e'
  · have hstart : Nonempty (departure.plan.Outside (departure.plan.graph.IsLoop registry) run
        ⟨run.opened, ⟨.walking, []⟩, none⟩) :=
      ⟨{ news := [], journal := rfl, grown := List.Subset.refl _, settled := by simp [invokedOutside],
         once := List.nodup_nil, fresh := by simp [invokedOutside], looped := by simp,
         never := List.Pairwise.nil }⟩
    obtain ⟨h⟩ := hreaches.outside (hof.keepsBooks books)
      (fun id node hlookup hkind => (hof.isLoop_iff hlookup).1 hkind) departure.plan.sound_start
      ⟨[], outside, rfl⟩ (fun call hphase => by cases hphase) hstart
    refine ⟨h.news, h.journal, h.once, h.fresh, fun graph hgraph => ?_⟩
    rw [hof.graph] at hgraph
    cases hgraph
    exact h.never

/-- A trigger that leads to a loop and to a counter, which is the body of the loop as well. -/
def sharedBody : Value := .object [
  ("nodes", .list [
    .object [("id", .text "t"), ("type", .text "manual-trigger")],
    .object [("id", .text "l"), ("type", .text "loop"),
      ("data", .object [("config", .object [("items", .list [.int 7, .int 8])])])],
    .object [("id", .text "c"), ("type", .text "x-count")]]),
  ("edges", .list [
    .object [("source", .text "t"), ("target", .text "l")],
    .object [("source", .text "t"), ("target", .text "c")],
    .object [("source", .text "l"), ("target", .text "c")]])]

/-- The counter is executed for each item, and not once more for the edge from the trigger. -/
theorem courseOf_once_sharedBody :
    Registry.counting.KeepsBooks ∧ ({ world := {}, state := {} } : Run).state.frames = [] ∧
      invokedOutside ((courseOf .counting none 20 sharedBody).run
        { world := {}, state := {} }).2.world.journal = [.text "l", .text "t"] ∧
      ∃ news, ((courseOf .counting none 20 sharedBody).run
          { world := {}, state := {} }).2.world.journal = news ++ [] ∧
        (invokedOutside news).Nodup ∧ (∀ id ∈ invokedOutside news, id ∉ []) ∧
        ∀ graph, Graph.ofValue sharedBody = .ok graph →
          news.Pairwise (graph.NotAgain (graph.IsLoop .counting)) :=
  ⟨Registry.counting_keepsBooks, rfl, by decide +kernel,
    courseOf_once .counting none 20 sharedBody { world := {}, state := {} }
      Registry.counting_keepsBooks rfl⟩

end WorkflowEngine
