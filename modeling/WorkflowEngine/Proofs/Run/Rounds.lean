import WorkflowEngine.Proofs.Run.Joined
import WorkflowEngine.Proofs.Run.Replays

/-!
# The rounds of a loop

Before a loop succeeds it has replayed all its items, and each item is a round that unfolds the body
(`Plan.Steady.execute_loop`). So in a run a node of the body is invoked for an item once for each
way on which edges lead to it from the loop, which is once only if there is a single way
(`courseOf_replays`).
-/

namespace WorkflowEngine

open Walk

/-! ## What a loop notes -/

/-- Some entries show the replays of so many items: a round for each, which unfolds what the loop
leads to, and in which every node that is invoked answers before the next. -/
def Graph.Rounds (graph : Graph) (loop : Key) (items : Nat) (entries : List Entry) : Prop :=
  ∃ rounds : List (List Key), rounds.length = items ∧ Traces entries rounds.flatten ∧
    ∀ round ∈ rounds, graph.Unfolds (graph.targets loop) round

/-- Some entries, the latest first, end with the beginning of the replays of a loop and with those
of all its items. -/
def Graph.Replayed (graph : Graph) (loop : Key) (entries : List Entry) : Prop :=
  ∃ items targets middle began before, entries = middle ++ began :: before ∧
    began.event = .loopBegan loop items targets ∧ graph.Rounds loop items middle

/-- Before each success of a loop some entries show the replays of its items. -/
def Graph.ShowsReplays (graph : Graph) (loop : Key) (entries : List Entry) : Prop :=
  ∀ later e earlier output, entries = later ++ e :: earlier →
    e.event.success? = some (loop, output) → graph.Replayed loop earlier

/-- Some entries show no success of a node. -/
def Unsuccessful (id : Key) (entries : List Entry) : Prop :=
  ∀ e ∈ entries, ∀ output, e.event.success? ≠ some (id, output)

theorem Unsuccessful.lasting (id : Key) : Lasting (Unsuccessful id) :=
  Lasting.of_forall fun e => ∀ output, e.event.success? ≠ some (id, output)

theorem About.unsuccessful {ids : List Key} {entries : List Entry} {id : Key}
    (h : About ids entries) (hid : id ∉ ids) : Unsuccessful id entries :=
  fun e he _ hsuccess => hid (h e he id (Event.subject?_of_success? hsuccess))

namespace Graph

variable {graph : Graph} {loop : Key}

theorem Replayed.append {entries : List Entry} (h : graph.Replayed loop entries)
    (others : List Entry) : graph.Replayed loop (entries ++ others) := by
  obtain ⟨items, targets, middle, began, before, rfl, hbegan, hrounds⟩ := h
  exact ⟨items, targets, middle, began, before ++ others, List.append_assoc _ _ _, hbegan, hrounds⟩

theorem ShowsReplays.of_unsuccessful {entries : List Entry} (h : Unsuccessful loop entries) :
    graph.ShowsReplays loop entries := by
  intro later e earlier output hsplit hsuccess
  exact absurd hsuccess (h e (by rw [hsplit]; simp) output)

theorem ShowsReplays.lasting (graph : Graph) (loop : Key) : Lasting (graph.ShowsReplays loop) where
  nil := .of_unsuccessful fun _ he => by cases he
  append hearlier hlater := by
    intro later e earlier output hsplit hsuccess
    rcases split_append hsplit with ⟨rest, hfront, rfl⟩ | ⟨rest, rfl, hback⟩
    · exact (hlater later e rest output hfront hsuccess).append _
    · exact hearlier rest e earlier output hback hsuccess

/-- The first success is shown with the replays before it. -/
theorem ShowsReplays.cons {e : Entry} {entries : List Entry} (h : graph.Replayed loop entries)
    (hnone : Unsuccessful loop entries) : graph.ShowsReplays loop (e :: entries) := by
  intro later e' earlier output hsplit hsuccess
  cases later with
  | nil =>
    obtain ⟨_, rfl⟩ := List.cons.inj hsplit
    exact h
  | cons _ later =>
    obtain ⟨_, rfl⟩ := List.cons.inj hsplit
    exact absurd hsuccess (hnone e' (by simp) output)

/-- **The rounds of a loop without circles invoke each node of the body as often as there are ways
to it.** Where there is one way to each, that makes one invocation for each item and node. -/
theorem Rounds.count_arrivals {items : Nat} {entries : List Entry}
    (h : graph.Rounds loop items entries) (circleless : graph.Circleless loop) :
    (∃ rounds : List (List Key), rounds.length = items ∧ invocations entries = rounds.flatten ∧
      (choices entries).map Prod.fst = rounds.flatten ∧
      ∀ round ∈ rounds, round ⊆ graph.body loop ∧
        ∀ id ∈ graph.body loop, 0 < graph.arrivals loop id ∧
          round.count id = graph.arrivals loop id) ∧
    ((∀ id ∈ graph.body loop, graph.arrivals loop id = 1) →
      (invocations entries).length = items * (graph.body loop).length) := by
  obtain ⟨rounds, hlength, htraces, hrounds⟩ := h
  refine ⟨⟨rounds, hlength, htraces.invoked, htraces.answered, fun round hround => ?_⟩,
    fun single => ?_⟩
  · obtain ⟨hsubset, hcount⟩ := circleless.unfolds (hrounds round hround)
    exact ⟨hsubset, fun id hid => ⟨circleless.arrivals_pos hid, hcount id⟩⟩
  · have hlengths : ∀ n ∈ rounds.map List.length, n = (graph.body loop).length := by
      intro n hn
      obtain ⟨round, hround, rfl⟩ := List.mem_map.1 hn
      exact (circleless.unfolds_perm (hrounds round hround) single).length_eq
    rw [htraces.invoked, List.length_flatten, List.eq_replicate_of_mem hlengths,
      List.sum_replicate_nat, List.length_map, hlength]

end Graph

namespace Plan

variable {plan : Plan} {ids : List Key}

/-- A loop that comes to an answer has replayed all its items, and has not succeeded until then. -/
theorem Steady.tells_runLoop (h : plan.Steady ids) (named : plan.Named) (books : plan.KeepsBooks)
    (fuel : Nat) {node : Node} (htargets : plan.graph.targets node.id ⊆ ids)
    (hout : node.id ∉ ids) : Tells (fun _ => True) (Unsuccessful node.id)
      (node.runLoop plan fun id => plan.walk fuel [id]) fun _ news =>
        plan.graph.Replayed node.id news := by
  have lasting := Unsuccessful.lasting node.id
  have hitems : Tells (fun _ => True) (Unsuccessful node.id) (ofAct node.loopItems)
      fun _ _ => True := by
    intro run _
    obtain ⟨entries, hjournal, hcomments⟩ := (Node.loopItems_still node run.toBench).world.journal
    rw [run_ofAct]
    refine ⟨entries, hjournal, fun e he output hsuccess => ?_, fun _ _ => ⟨trivial, trivial⟩⟩
    rw [Event.success?_of_isRemark (Event.isRemark_of_isComment (hcomments e he))] at hsuccess
    cases hsuccess
  refine hitems.bind lasting fun items before _ => ?_
  refine Tells.after lasting (.ofAttempt lasting _) fun itemName => ?_
  refine Tells.after lasting (.ofAttempt lasting _) fun indexName => ?_
  have hnote : Tells (fun _ => True) (Unsuccessful node.id)
      (note (.loopBegan node.id items.length (plan.graph.targets node.id))) _ :=
    .note fun tag e he output hsuccess => by
      rw [List.mem_singleton.1 he] at hsuccess
      cases hsuccess
  refine hnote.bind lasting ?_
  rintro _ _ ⟨tag, rfl⟩
  -- the replays tell of the body only, which the loop is no part of
  have hreplays := (h.replays_items named books fuel htargets itemName indexName items 0).imp
    fun _ habout => habout.unsuccessful hout
  have hbetween : Tells (fun _ => True) (Unsuccessful node.id)
      (between (changeState fun s => s.enterLoop node.id items) (changeState RunState.leaveLoop)
        (Node.replayItems (fun id => plan.walk fuel [id]) (plan.graph.targets node.id) itemName
          indexName 0 items)) _ :=
    .between (fun _ _ => rfl) (fun _ _ => trivial) hreplays
  refine hbetween.bind lasting ?_
  rintro reports middle ⟨_, htraces, rounds, hlength, rfl, hrounds⟩
  refine Tells.after lasting (.changeState lasting fun _ _ => trivial) fun _ => ?_
  let began : Entry := ⟨tag, .loopBegan node.id items.length (plan.graph.targets node.id)⟩
  have hsplit : [] ++ middle ++ [began] ++ before = middle ++ began :: before := by simp
  exact Tells.pure lasting ⟨items.length, plan.graph.targets node.id, middle, began, before, hsplit,
    rfl, rounds, hlength, htraces, hrounds⟩

/-- **The execution of a loop that succeeds shows the replays of all its items.** -/
theorem Steady.execute_loop (h : plan.Steady ids) (named : plan.Named) (books : plan.KeepsBooks)
    (fuel : Nat) {node : Node} (kind : node.cls.kind = .loop)
    (htargets : plan.graph.targets node.id ⊆ ids) (hout : node.id ∉ ids) (run : Run) :
    ∃ news, ((plan.execute (fun id => plan.walk fuel [id]) node).run run.visited).2.world.journal =
      news ++ run.world.journal ∧ plan.graph.ShowsReplays node.id news := by
  have lasting := Unsuccessful.lasting node.id
  have hinvoke : Tells (fun _ => True) (Unsuccessful node.id)
      (node.invoke plan fun id => plan.walk fuel [id]) fun _ news =>
        plan.graph.Replayed node.id news := by
    refine Tells.after lasting (.get lasting) fun _ => ?_
    refine Tells.after lasting (.ofAttempt lasting _) fun _ => ?_
    rw [Node.act_loop plan _ kind]
    exact h.tells_runLoop named books fuel htargets hout
  obtain ⟨tag, closing, hclosing, hjournal, _⟩ :=
    execute_closing plan (fun id => plan.walk fuel [id]) node run
  obtain ⟨news, hnews, hnone, hended⟩ := hinvoke (Invocation.begun node tag run) trivial
  let began : Entry := ⟨tag, .invoked node.id node.label node.type
    { run.state with time := run.state.time + 1 }⟩
  have hnone' : Unsuccessful node.id (news ++ [began]) :=
    lasting.append (fun e he output hsuccess => by
      rw [List.mem_singleton.1 he] at hsuccess
      cases hsuccess) hnone
  refine ⟨closing ++ (news ++ [began]), ?_, ?_⟩
  · rw [hjournal, List.append_assoc, List.append_assoc]
    exact congrArg (closing ++ ·) hnews
  · generalize (Walk.run _ run.visited).1 = o' at hclosing
    generalize (node.invoke plan fun id => plan.walk fuel [id]).run _ = res at hclosing hended
    obtain ⟨o, r⟩ := res
    -- only an answer of the loop puts a success of it in front of what it has noted
    cases hclosing with
    | stopped | abandoned => exact .of_unsuccessful hnone'
    | failed f tag' state =>
      refine .of_unsuccessful (lasting.append hnone' fun e he output hsuccess => ?_)
      rw [List.mem_singleton.1 he] at hsuccess
      cases hsuccess
    | answered reply => exact .cons ((hended reply rfl).2.append _) hnone'

/-- **A walk shows the replays of a loop before each of its successes**, however it ends, if the
plan has no other loop. -/
theorem Steady.tells_walk (h : plan.Steady ids) (named : plan.Named) (books : plan.KeepsBooks)
    {loop : Key} (only : ∀ id node, plan.nodes.lookup id = some node →
      (node.cls.kind = .loop ↔ id = loop))
    (htargets : plan.graph.targets loop ⊆ ids) (hout : loop ∉ ids) (fuel : Nat) :
    ∀ stack, Tells (fun _ => True) (plan.graph.ShowsReplays loop) (plan.walk fuel stack)
      fun _ _ => True := by
  have lasting := Graph.ShowsReplays.lasting plan.graph loop
  have hremarks : ∀ entries : List Entry, (∀ e ∈ entries, e.event.isRemark = true) →
      plan.graph.ShowsReplays loop entries := by
    intro entries hremarks
    have hnone : About [] entries := About.of_remarks hremarks
    exact .of_unsuccessful (hnone.unsuccessful List.not_mem_nil)
  induction fuel with
  | zero => exact fun _ => Tells.exhausted lasting
  | succ fuel ih =>
    intro stack
    cases stack with
    | nil => exact Tells.pure lasting trivial
    | cons id rest =>
      have hvisit : Tells (fun _ => True) (plan.graph.ShowsReplays loop)
          (plan.visit (fun target => plan.walk fuel [target]) id) fun _ _ => True := by
        refine tells_visit named lasting (fun _ _ _ _ => trivial) hremarks
          (fun _ _ _ _ => trivial) ?_
        intro node hlookup same _ run _
        by_cases hloop : id = loop
        · have hkind : node.cls.kind = .loop := (only id node hlookup).2 hloop
          obtain rfl : node.id = loop := same.trans hloop
          obtain ⟨news, hjournal, hshows⟩ := h.execute_loop named books fuel hkind htargets hout run
          exact ⟨news, hjournal, hshows, fun _ _ => ⟨trivial, fun _ _ => trivial⟩⟩
        · -- any other node is no loop, and tells of itself alone
          have hkind : node.cls.kind ≠ .loop := fun hkind => hloop ((only id node hlookup).1 hkind)
          obtain ⟨news, hjournal, hsubject, _⟩ := execute_plain plan hkind
            (fun executor branching => books id node executor branching hlookup)
            (fun target => plan.walk fuel [target]) run
          have habout : About [node.id] news := fun e he id hid =>
            List.mem_singleton.2 (hsubject e he id hid)
          have hother : loop ∉ [node.id] := fun hmem =>
            hloop (same.symm.trans (List.mem_singleton.1 hmem).symm)
          exact ⟨news, hjournal, .of_unsuccessful (habout.unsuccessful hother),
            fun _ _ => ⟨trivial, fun _ _ => trivial⟩⟩
      exact hvisit.bind lasting fun next _ _ => ih (next ++ rest)

end Plan

/-! ## A whole run -/

/-- What a run notes is comments, and what its walk notes if it comes to that. -/
theorem courseOf_tells {registry : Registry} {budget : Option Int} {fuel : Nat} {workflow : Value}
    {always : List Entry → Prop} (lasting : Lasting always)
    (comments : ∀ entries, (∀ e ∈ entries, e.event.isComment = true) → always entries)
    (walk : ∀ departure : Departure, departure.Of registry budget workflow →
      Tells (fun _ => True) always (departure.plan.walk fuel [departure.start]) fun _ _ => True)
    (run : Run) :
    ∃ news, ((courseOf registry budget fuel workflow).run run).2.world.journal =
      news ++ run.world.journal ∧ always news := by
  obtain ⟨o, bench, hprepare, hspares⟩ := prepare_calm registry budget workflow run.opened
  obtain ⟨opening, hopening, hcomments⟩ := hspares.world.journal
  cases o with
  | error f =>
    rw [courseOf_error hprepare]
    exact ⟨opening, hopening, comments opening hcomments⟩
  | ok departure =>
    obtain ⟨news, hjournal, halways, _⟩ :=
      walk departure (prepare_of hprepare) (run.opened.onBench bench) trivial
    have hall : always (news ++ opening) := lasting.append (comments opening hcomments) halways
    have hwalked : ((departure.plan.walk fuel [departure.start]).run
        (run.opened.onBench bench)).2.world.journal = (news ++ opening) ++ run.world.journal := by
      rw [hjournal, List.append_assoc]
      exact congrArg (news ++ ·) hopening
    rw [courseOf_walk fuel hprepare]
    generalize (departure.plan.walk fuel [departure.start]).run _ = res at hwalked
    obtain ⟨_ | o, walked⟩ := res
    · exact ⟨_, hwalked, hall⟩
    · let ended : Entry := ⟨walked.world.tag, .runEnded departure.plan.graph.name
        walked.results.length (walked.world.seconds - run.world.seconds)⟩
      have hended : always [ended] := comments [ended] (List.forall_mem_singleton.2 rfl)
      exact ⟨ended :: (news ++ opening), congrArg (ended :: ·) hwalked, lasting.append hall hended⟩

/-- The body of a loop without circles is one of the plan. -/
theorem Departure.Of.steady {registry : Registry} {budget : Option Int} {workflow : Value}
    {departure : Departure} (h : departure.Of registry budget workflow) {loop : Key}
    (circleless : departure.plan.graph.Circleless loop)
    (steady : ∀ id ∈ departure.plan.graph.body loop, departure.plan.graph.Steady registry id) :
    departure.plan.Steady (departure.plan.graph.body loop) where
  closed id hid target htarget :=
    circleless.mem_body ((Graph.mem_body_iff.1 hid).1.tail htarget)
  steady id hid := by
    obtain ⟨source, _, hleads⟩ := Relation.TransGen.tail'_iff.1 (Graph.mem_body_iff.1 hid).1
    obtain ⟨node, hlookup⟩ := h.complete id (Graph.mem_targets.1 hleads).known
    exact ⟨node, hlookup, steady id hid node (h.builds id node hlookup)⟩

/-- A run of a workflow with one loop, whose body has no circle and goes on along all its edges,
shows the replays of the loop before each of its successes. -/
theorem courseOf_showsReplays {registry : Registry} (books : registry.KeepsBooks)
    (budget : Option Int) (fuel : Nat) {workflow : Value} {graph : Graph} {loop : Key} (run : Run)
    (read : Graph.ofValue workflow = .ok graph)
    (only : ∀ id, graph.IsLoop registry id ↔ id = loop) (circleless : graph.Circleless loop)
    (steady : ∀ id ∈ graph.body loop, graph.Steady registry id) :
    ∃ news, ((courseOf registry budget fuel workflow).run run).2.world.journal =
      news ++ run.world.journal ∧ graph.ShowsReplays loop news := by
  refine courseOf_tells (Graph.ShowsReplays.lasting graph loop) (fun entries hcomments => ?_)
    (fun departure hof => ?_) run
  · have hnone : About [] entries :=
      About.of_remarks fun e he => Event.isRemark_of_isComment (hcomments e he)
    exact .of_unsuccessful (hnone.unsuccessful List.not_mem_nil)
  · obtain rfl : departure.plan.graph = graph := Except.ok.inj (hof.graph.symm.trans read)
    have hloops : ∀ id node, departure.plan.nodes.lookup id = some node →
        (node.cls.kind = .loop ↔ id = loop) :=
      fun id node hlookup => (hof.isLoop_iff hlookup).symm.trans (only id)
    exact (hof.steady circleless steady).tells_walk hof.named (hof.keepsBooks books) hloops
      (fun target htarget => circleless.mem_body (.single htarget)) (Graph.not_mem_body _ loop) fuel
      [departure.start]

/-- **A node of the body is invoked for an item once for each way on which edges lead to it from the
loop.** In a run of a workflow with one loop, whose body has no circle and goes on along all its
edges, the replays before a success of the loop are a round for each item; so each node of the body
is invoked once for an item where there is a single way to each, and more often where ways meet. -/
theorem courseOf_replays {registry : Registry} (books : registry.KeepsBooks) (budget : Option Int)
    (fuel : Nat) {workflow : Value} {graph : Graph} {loop : Key} (run : Run)
    (read : Graph.ofValue workflow = .ok graph)
    (only : ∀ id, graph.IsLoop registry id ↔ id = loop) (circleless : graph.Circleless loop)
    (steady : ∀ id ∈ graph.body loop, graph.Steady registry id) :
    let run' := ((courseOf registry budget fuel workflow).run run).2
    ∃ made news, run'.results = run.results ++ made ∧
      run'.world.journal = news ++ run.world.journal ∧
      made.filterMap NodeResult.success? = news.reverse.filterMap (fun e => e.event.success?) ∧
      ∀ later e earlier output, news = later ++ e :: earlier →
        e.event.success? = some (loop, output) → ∃ items targets middle began before,
          earlier = middle ++ began :: before ∧ began.event = .loopBegan loop items targets ∧
          (∃ rounds : List (List Key), rounds.length = items ∧ invocations middle = rounds.flatten ∧
            (choices middle).map Prod.fst = rounds.flatten ∧
            ∀ round ∈ rounds, round ⊆ graph.body loop ∧
              ∀ id ∈ graph.body loop, 0 < graph.arrivals loop id ∧
                round.count id = graph.arrivals loop id) ∧
          ((∀ id ∈ graph.body loop, graph.arrivals loop id = 1) →
            (invocations middle).length = items * (graph.body loop).length) := by
  obtain ⟨made, news, hresults, hjournal, hmatched, _⟩ :=
    courseOf_informed books budget fuel workflow run
  refine ⟨made, news, hresults, hjournal, hmatched, ?_⟩
  obtain ⟨news', hjournal', hshows⟩ :=
    courseOf_showsReplays books budget fuel run read only circleless steady
  obtain rfl : news' = news := List.append_cancel_right (hjournal'.symm.trans hjournal)
  intro later e earlier output hsplit hsuccess
  obtain ⟨items, targets, middle, began, before, hearlier, hbegan, hrounds⟩ :=
    hshows later e earlier output hsplit hsuccess
  exact ⟨items, targets, middle, began, before, hearlier, hbegan, hrounds.count_arrivals circleless⟩

/-- A node that passes its input on goes on along all its edges. -/
theorem Node.steady_of_passthrough {node : Node} (kind : node.cls.kind = .passthrough) :
    node.Steady where
  kind h := by
    rw [kind] at h
    cases h
  eager h := by
    obtain ⟨hmerge, _⟩ := h
    rw [kind] at hmerge
    cases hmerge
  straight bench reply hreply := by
    unfold Node.execute at hreply
    rw [kind] at hreply
    cases hreply
    rfl

/-- Definitions that make a loop of one node alone make a graph with no other loop. -/
theorem Graph.isLoop_of_nodes {registry : Registry} {graph : Graph} {loop : Key}
    (there : graph.IsLoop registry loop)
    (others : graph.nodes.all fun d => (registry.makeNode d.body).toOption.all fun made =>
      match made.cls.kind with
      | .loop => d.id == loop
      | _ => true) (id : Key) : graph.IsLoop registry id ↔ id = loop := by
  refine ⟨?_, fun heq => heq ▸ there⟩
  rintro ⟨node, ⟨_, d, made, settings, hd, hmade, rfl⟩, hkind⟩
  obtain ⟨hmem, hid⟩ := Graph.node?_some hd
  have hnode := List.all_eq_true.1 others d hmem
  change made.cls.kind = .loop at hkind
  rw [hmade] at hnode
  simp only [Except.toOption, Option.all_some, hkind, beq_iff_eq] at hnode
  exact hid.symm.trans hnode

/-- Definitions that make nodes of a body pass their input on make it steady. -/
theorem Graph.steady_of_nodes {registry : Registry} {graph : Graph} {ids : List Key}
    (h : ids.all fun id => (graph.node? id).all fun d =>
      (registry.makeNode d.body).toOption.all fun made =>
        match made.cls.kind with
        | .passthrough => true
        | _ => false) : ∀ id ∈ ids, graph.Steady registry id := by
  rintro id hid node ⟨_, d, made, time, hd, hmade, rfl⟩
  have hnode := List.all_eq_true.1 h id hid
  rw [hd, Option.all_some, hmade] at hnode
  have hkind : made.cls.kind = .passthrough := by
    simp only [Except.toOption, Option.all_some] at hnode
    split at hnode
    · assumption
    · cases hnode
  exact Node.steady_of_passthrough hkind

/-- A trigger that leads to a loop over two items. Its body is two nodes that both lead to a third.
-/
def meetingWays : Graph where
  id := .text "unknown"
  name := .text "unknown"
  nodes := [
    ⟨.text "t", .object [("id", .text "t"), ("type", .text "manual-trigger")]⟩,
    ⟨.text "l", .object [("id", .text "l"), ("type", .text "loop"),
      ("data", .object [("config", .object [("items", .list [.int 1, .int 2])])])]⟩,
    ⟨.text "a", .object [("id", .text "a"), ("type", .text "pass")]⟩,
    ⟨.text "b", .object [("id", .text "b"), ("type", .text "pass")]⟩,
    ⟨.text "c", .object [("id", .text "c"), ("type", .text "pass")]⟩]
  edges := [⟨.text "t", .text "l", .null⟩, ⟨.text "l", .text "a", .null⟩,
    ⟨.text "l", .text "b", .null⟩, ⟨.text "a", .text "c", .null⟩, ⟨.text "b", .text "c", .null⟩]

theorem meetingWays_read : Graph.ofValue meetingWays.toValue = .ok meetingWays := by rfl

theorem meetingWays_isLoop (id : Key) : meetingWays.IsLoop .builtin id ↔ id = .text "l" := by
  have hloop : meetingWays.IsLoop .builtin (.text "l") := by
    refine ⟨_, ⟨?_, _, _, .null, rfl, rfl, rfl⟩, ?_⟩
    · rfl
    · rfl
  exact Graph.isLoop_of_nodes hloop rfl id

theorem meetingWays_circleless : meetingWays.Circleless (.text "l") :=
  Graph.circleless_of_forward (by decide) _

theorem meetingWays_steady :
    ∀ id ∈ meetingWays.body (.text "l"), meetingWays.Steady .builtin id :=
  Graph.steady_of_nodes (by decide)

/-- The third node is invoked twice for each item: once on the way by the first node, and once more
on the way by the second. -/
theorem courseOf_replays_meetingWays :
    let run : Run := { world := {}, state := {} }
    let run' := ((courseOf .builtin none 40 meetingWays.toValue).run run).2
    let loop : Key := .text "l"
    Registry.builtin.KeepsBooks ∧ Graph.ofValue meetingWays.toValue = .ok meetingWays ∧
      (∀ id, meetingWays.IsLoop .builtin id ↔ id = loop) ∧ meetingWays.Circleless loop ∧
      (∀ id ∈ meetingWays.body loop, meetingWays.Steady .builtin id) ∧
      ((courseOf .builtin none 40 meetingWays.toValue).run run).1.map Except.isOk = some true ∧
      run'.results.map NodeResult.node = [.text "t", .text "a", .text "c", .text "b", .text "c",
        .text "a", .text "c", .text "b", .text "c", .text "l"] ∧
      meetingWays.arrivals loop (.text "c") = 2 ∧
      ∃ made news, run'.results = run.results ++ made ∧
        run'.world.journal = news ++ run.world.journal ∧
        made.filterMap NodeResult.success? = news.reverse.filterMap (fun e => e.event.success?) ∧
        ∀ later e earlier output, news = later ++ e :: earlier →
          e.event.success? = some (loop, output) → ∃ items targets middle began before,
            earlier = middle ++ began :: before ∧ began.event = .loopBegan loop items targets ∧
            (∃ rounds : List (List Key), rounds.length = items ∧
              invocations middle = rounds.flatten ∧
              (choices middle).map Prod.fst = rounds.flatten ∧
              ∀ round ∈ rounds, round ⊆ meetingWays.body loop ∧
                ∀ id ∈ meetingWays.body loop, 0 < meetingWays.arrivals loop id ∧
                  round.count id = meetingWays.arrivals loop id) ∧
            ((∀ id ∈ meetingWays.body loop, meetingWays.arrivals loop id = 1) →
              (invocations middle).length = items * (meetingWays.body loop).length) :=
  ⟨Registry.builtin_keepsBooks, meetingWays_read, meetingWays_isLoop, meetingWays_circleless,
    meetingWays_steady, by decide +kernel, by decide +kernel, by decide,
    courseOf_replays Registry.builtin_keepsBooks none 40 { world := {}, state := {} }
      meetingWays_read meetingWays_isLoop meetingWays_circleless meetingWays_steady⟩

end WorkflowEngine
