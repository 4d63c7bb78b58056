import Mathlib.Data.Finset.Card
import WorkflowEngine.Proofs.Graph.Body
import WorkflowEngine.Proofs.Run.Advance
import WorkflowEngine.Proofs.Run.Budget
import WorkflowEngine.Proofs.Run.Once

/-!
# Runs without a budget end

Inside a replay no node is passed over, so that a circle below a loop would be gone round for ever.
Where no way from a loop leads in a circle, a run ends without any budget (`courseOf_terminates`).
Below a loop the calls of the recursion lie no deeper than the body is large
(`Plan.descend_ends_below`), whatever items are replayed. Outside loops every execution leaves one
node less to be executed, since a loop that is done leaves the frames as they were
(`Plan.Leads.settles`); so circles outside loops are gone round once.
-/

namespace WorkflowEngine

open Walk

namespace Plan

variable {plan : Plan}

/-- The loops of the plan are on no circle and lead to none. -/
def Circleless (plan : Plan) : Prop :=
  ∀ id node, plan.nodes.lookup id = some node → node.cls.kind = .loop → plan.graph.Circleless id

/-! ## Inside loops -/

/-- **Where no way leads in a circle the visit of a node ends**, from every run and in whichever
replays: each call within another is for a node with a smaller body. -/
theorem descend_ends_below (named : plan.Named) (fuel : Nat) : ∀ id, plan.graph.Circleless id →
    (plan.graph.body id).length < fuel → EndsFrom 0 (plan.descend fuel id) := by
  induction fuel with
  | zero =>
    intro id _ hfuel
    omega
  | succ fuel ih =>
    intro id circleless hfuel r _
    rcases descend_succ_cases named fuel id r with
      ⟨o, r', hrun, _⟩ | ⟨node, bench, _, same, _, _, _, hrun⟩
    · exact ⟨o, r', hrun, Nat.zero_le _⟩
    · have htargets : ∀ target, plan.graph.Leads node.id target →
          EndsFrom 0 (plan.descend fuel target) := by
        intro target hleads
        rw [same] at hleads
        have hsmaller := circleless.length_body_lt hleads
        exact ih target (circleless.tail (.single hleads)) (by omega)
      have hexecute : EndsFrom 0 (plan.execute (plan.descend fuel) node) :=
        EndsFrom.closed.execute plan (f := fun _ => plan.descend fuel) htargets
      have hall := Ends.bind hexecute fun branch => EndsFrom.closed.forM
        (f := fun _ => plan.descend fuel) (plan.leadsTo node branch) fun target htarget =>
          htargets target (leadsTo_subset node branch htarget)
      obtain ⟨o, r', hends, _⟩ := hall _ (Nat.zero_le _)
      exact ⟨o, r', hrun.trans hends, Nat.zero_le _⟩

/-- The execution of a node ends: of a loop since its replays do, of any other node by itself. -/
theorem execute_ends (named : plan.Named) (books : plan.KeepsBooks) (circleless : plan.Circleless)
    {fuel : Nat} (enough : plan.graph.edges.length ≤ fuel) {node : Node}
    (known : plan.nodes.lookup node.id = some node) (r : Run) :
    ∃ o r', (plan.execute (plan.descend fuel) node).run r.visited = (some o, r') := by
  have hinvoke : ∀ r : Run, ∃ o r',
      (node.invoke plan (plan.descend fuel)).run r = (some o, r') := by
    intro r
    by_cases hkind : node.cls.kind = .loop
    · have hloop := circleless node.id node known hkind
      have htargets : ∀ target ∈ plan.graph.targets node.id,
          EndsFrom 0 (plan.descend fuel target) := by
        intro target htarget
        have hsmaller := hloop.length_body_lt htarget
        have hbody := plan.graph.length_body_le node.id
        exact descend_ends_below named fuel target (hloop.tail (.single htarget)) (by omega)
      obtain ⟨o, r', hrun, _⟩ :=
        EndsFrom.closed.invoke plan (f := fun _ => plan.descend fuel) htargets r (Nat.zero_le _)
      exact ⟨o, r', hrun⟩
    · obtain ⟨o, bench, hrun, _⟩ := invoke_plain plan hkind
        (fun executor branching => books node.id node executor branching known) _ r
      exact ⟨o, _, hrun⟩
  have hcase := execute_cases plan (plan.descend fuel) node r
  generalize (plan.execute (plan.descend fuel) node).run r.visited = res at hcase
  cases hcase with
  | @stopped tag _ invoked =>
    obtain ⟨o, r', hrun⟩ := hinvoke (Invocation.begun node tag r)
    rw [hrun] at invoked
    cases invoked
  | answered | failed | abandoned => exact ⟨_, _, rfl⟩

/-! ## Outside loops -/

/-- The visit by recursion goes from stage to stage by moves, and comes back to the replays in which
it began. -/
theorem leads_descend (named : plan.Named) (fuel : Nat) :
    ∀ (id : Key) (replays : List Invocation) (run : Run),
      plan.Leads ⟨run, ⟨.walking, replays⟩, none⟩ (plan.descend fuel id) run ⟨.walking, replays⟩
        ⟨.walking, replays⟩ := by
  induction fuel with
  | zero => exact fun _ replays _ => ⟨replays, .refl⟩
  | succ fuel ih =>
    intro id replays run
    rw [descend_succ]
    refine (leads_visit named (fun call id run => ih id (call :: replays) run) id run).bind ?_
    exact fun next run => Leads.forM (fun id run => ih id replays run) next run

/-- A part that begins and ends outside all replays leaves no frame, if there was none, and forgets
no executed node. -/
theorem Leads.settles {α : Type} {part : Walk α} {run r r' : Run} {o : Attempt α}
    {phase goal out : Phase}
    (h : plan.Leads ⟨run, ⟨phase, []⟩, none⟩ part r ⟨goal, []⟩ ⟨out, []⟩)
    (books : plan.KeepsBooks) (sound : plan.Sound ⟨phase, []⟩) (outside : run.state.frames = [])
    (hrun : part.run r = (some o, r')) :
    r'.state.frames = [] ∧ run.state.executed ⊆ r'.state.executed := by
  have hkeeps : ∀ phase' cause, plan.Reaches ⟨run, ⟨phase, []⟩, none⟩ ⟨r', ⟨phase', []⟩, cause⟩ →
      r'.state.frames = [] ∧ run.state.executed ⊆ r'.state.executed := by
    intro phase' cause hreaches
    obtain ⟨hframed, hgrown⟩ := hreaches.keeps_sound
      (I := fun s => Framed [] s ∧ run.state.executed ⊆ s.run.state.executed)
      (fun _ _ sound hmove ⟨framed, grown⟩ => ⟨framed.move books sound hmove,
        List.Subset.trans grown (hmove.executed_subset books sound)⟩)
      sound ⟨⟨[], outside, rfl⟩, List.Subset.refl _⟩
    exact ⟨hframed.frames_nil, hgrown⟩
  unfold Leads at h
  rw [hrun] at h
  cases o with
  | ok a => exact hkeeps goal none h
  | error f => exact hkeeps out (some f) h

/-- An execution with a value outside loops leaves its node executed. -/
theorem execute_settles (named : plan.Named) (books : plan.KeepsBooks) {fuel : Nat} {node : Node}
    (known : plan.nodes.lookup node.id = some node) {r r' : Run} {branch : Value}
    (outside : r.state.frames = [])
    (h : (plan.execute (plan.descend fuel) node).run r.visited = (some (.ok branch), r')) :
    r'.state.frames = [] ∧ r.state.executed ⊆ r'.state.executed ∧
      node.id ∈ r'.state.executed := by
  have hcase := execute_cases plan (plan.descend fuel) node r
  rw [h] at hcase
  cases hcase with
  | @answered tag between reply call output same invoked =>
    have hsound : plan.Sound ⟨.acting call, []⟩ := by
      refine ⟨fun call' hcall' => ?_, by simp⟩
      obtain rfl : call' = call := List.mem_singleton.1 hcall'
      rw [same]
      exact known
    have hleads : plan.Leads ⟨Invocation.begun node tag r, ⟨.acting call, []⟩, none⟩
        (call.node.invoke plan (plan.descend fuel)) (Invocation.begun node tag r)
        ⟨.answered call, []⟩ ⟨.acting call, []⟩ :=
      leads_invoke (fun id run => leads_descend named fuel id [call] run) _
    rw [same] at hleads
    obtain ⟨hframes, hgrown⟩ := hleads.settles books hsound outside invoked
    refine ⟨(RunState.record_frames _ _ _).trans hframes, fun id hid => ?_, ?_⟩
    · exact (RunState.mem_record_executed _ _ _ id).2 (.inl (hgrown hid))
    · exact (RunState.mem_record_executed _ _ _ _).2 (.inr ⟨hframes, same ▸ rfl⟩)

/-- The nodes of the plan that are still to be executed. -/
def pending (plan : Plan) (r : Run) : Finset Key :=
  (plan.nodes.map Prod.fst).toFinset \ r.state.executed.toFinset

theorem mem_pending {r : Run} {id : Key} :
    id ∈ plan.pending r ↔ id ∈ plan.nodes.map Prod.fst ∧ id ∉ r.state.executed := by
  rw [pending, Finset.mem_sdiff, List.mem_toFinset, List.mem_toFinset]

theorem pending_subset {r r' : Run} (h : r.state.executed ⊆ r'.state.executed) :
    plan.pending r' ⊆ plan.pending r := by
  intro id hid
  obtain ⟨hnode, hnew⟩ := mem_pending.1 hid
  exact mem_pending.2 ⟨hnode, fun hold => hnew (h hold)⟩

/-- A node that was pending and is executed is one less. -/
theorem card_pending_lt {r r' : Run} {id : Key} (h : r.state.executed ⊆ r'.state.executed)
    (hpending : id ∈ plan.pending r) (hexecuted : id ∈ r'.state.executed) :
    (plan.pending r').card < (plan.pending r).card := by
  refine Finset.card_lt_card ((Finset.ssubset_iff_of_subset (pending_subset h)).2 ?_)
  exact ⟨id, hpending, fun hid => (mem_pending.1 hid).2 hexecuted⟩

/-- A run outside loops in which no more than so many nodes are pending. -/
structure Leaves (plan : Plan) (left : Nat) (r : Run) : Prop where
  outside : r.state.frames = []
  pending : (plan.pending r).card ≤ left

namespace Leaves

variable {left : Nat} {r r' : Run}

/-- Wherever a visit comes to, it leaves no frame and no more pending nodes. -/
theorem visited (h : plan.Leaves left r) (named : plan.Named) (books : plan.KeepsBooks) {fuel : Nat}
    {id : Key} {o : Attempt Unit} (hrun : (plan.descend fuel id).run r = (some o, r')) :
    plan.Leaves left r' := by
  obtain ⟨hframes, hgrown⟩ :=
    (leads_descend named fuel id [] r).settles books plan.sound_start h.outside hrun
  exact ⟨hframes, (Finset.card_le_card (pending_subset hgrown)).trans h.pending⟩

/-- A node that is due is pending. -/
theorem mem_pending {node : Node} (h : plan.Leaves left r)
    (known : plan.nodes.lookup node.id = some node) (due : r.state.shouldSkip node.id = false) :
    node.id ∈ plan.pending r :=
  Plan.mem_pending.2 ⟨List.mem_map_of_mem (Entries.mem_of_lookup known),
    not_mem_of_due due h.outside⟩

/-- The execution of a node that is due leaves one pending node less. -/
theorem executed {node : Node} {bench : Bench} {fuel : Nat} {branch : Value}
    (h : plan.Leaves (left + 1) r) (named : plan.Named) (books : plan.KeepsBooks)
    (known : plan.nodes.lookup node.id = some node) (due : r.state.shouldSkip node.id = false)
    (same : r.state.SameBooks bench.state)
    (hexecute : (plan.execute (plan.descend fuel) node).run (r.onBench bench).visited =
      (some (.ok branch), r')) : plan.Leaves left r' := by
  obtain ⟨hframes, hgrown, hexecuted⟩ :=
    execute_settles named books known (same.frames.trans h.outside) hexecute
  have hgrown' : r.state.executed ⊆ r'.state.executed := by
    rw [← same.executed]
    exact hgrown
  have hless := card_pending_lt hgrown' (h.mem_pending known due) hexecuted
  exact ⟨hframes, Nat.le_of_lt_succ (Nat.lt_of_lt_of_le hless h.pending)⟩

end Leaves

/-- **Outside loops the visit of a node ends**, however the edges lead: each call within another is
made with one node less to be executed, and replays end on their own. -/
theorem descend_ends_outside (named : plan.Named) (books : plan.KeepsBooks)
    (circleless : plan.Circleless) (left : Nat) :
    ∀ id, Ends (plan.Leaves left) (plan.descend (plan.graph.edges.length + left + 1) id) := by
  induction left with
  | zero =>
    intro id r h
    rcases descend_succ_cases named _ id r with
      ⟨o, r', hrun, _⟩ | ⟨node, bench, known, rfl, due, _⟩
    · exact ⟨o, r', hrun, h.visited named books hrun⟩
    · -- no node is pending, so none is due
      have hpositive := Finset.card_pos.2 ⟨_, h.mem_pending known due⟩
      have hnone := h.pending
      omega
  | succ left ih =>
    intro id r h
    rcases descend_succ_cases named _ id r with
      ⟨o, r', hrun, _⟩ | ⟨node, bench, known, rfl, due, _, spares, hrun⟩
    · exact ⟨o, r', hrun, h.visited named books hrun⟩
    · suffices hends : ∃ o r', (plan.descend (plan.graph.edges.length + (left + 1) + 1) node.id).run
          r = (some o, r') by
        obtain ⟨o, r', hrun⟩ := hends
        exact ⟨o, r', hrun, h.visited named books hrun⟩
      rw [hrun, run_bind]
      obtain ⟨o, between, hexecute⟩ :=
        execute_ends named books circleless (Nat.le_add_right _ _) known (r.onBench bench)
      rw [hexecute]
      cases o with
      | error f => exact ⟨.error f, between, rfl⟩
      | ok branch =>
        obtain ⟨o, r', hends, _⟩ := Ends.forM ih (plan.leadsTo node branch) between
          (h.executed named books known due spares.state.sameBooks hexecute)
        exact ⟨o, r', hends⟩

/-- **A walk from one node outside loops ends**, if the loops lead to no circle. -/
theorem walk_ends_outside (named : plan.Named) (books : plan.KeepsBooks)
    (circleless : plan.Circleless) (id : Key) {run : Run} (outside : run.state.frames = []) :
    ∃ fuel o run', (plan.walk fuel [id]).run run = (some o, run') := by
  obtain ⟨o, run', hrun, _⟩ := descend_ends_outside named books circleless
    (plan.pending run).card id run ⟨outside, Nat.le_refl _⟩
  obtain ⟨fuel, hfuel⟩ := (walk_outcome_iff_descend plan id run run' o).2 ⟨_, hrun⟩
  exact ⟨fuel, o, run', hfuel⟩

end Plan

/-! ## A whole run -/

/-- **A run without a budget ends if its loops lead to no circle**, whatever circles there are
elsewhere, however loops are nested, and whatever items they are given: it has one outcome, which
more steps do not change. -/
theorem courseOf_terminates {registry : Registry} (books : registry.KeepsBooks) {workflow : Value}
    (circleless : ∀ graph, Graph.ofValue workflow = .ok graph →
      ∀ loop, graph.IsLoop registry loop → graph.Circleless loop)
    (run : Run) (outside : run.state.frames = []) :
    ∃ enough o after, ∀ fuel, enough ≤ fuel →
      (courseOf registry none fuel workflow).run run = (some o, after) := by
  obtain ⟨o, bench, hprepare, hspares⟩ := prepare_calm registry none workflow run.opened
  cases o with
  | error f => exact ⟨0, .error f, _, fun fuel _ => courseOf_error hprepare⟩
  | ok departure =>
    have hof := prepare_of hprepare
    have hcircleless : departure.plan.Circleless := fun id node hlookup hkind =>
      circleless _ hof.graph id ((hof.isLoop_iff hlookup).2 hkind)
    have hready : (run.opened.onBench bench).state.frames = [] :=
      hspares.state.sameBooks.frames.trans outside
    obtain ⟨enough, o, walked, hwalk⟩ := Plan.walk_ends_outside hof.named (hof.keepsBooks books)
      hcircleless departure.start hready
    refine ⟨enough, o, departure.closed run.world.seconds walked, fun fuel hfuel => ?_⟩
    exact courseOf_walked hprepare (departure.plan.walk_refines hfuel [departure.start] hwalk)

/-- Definitions of which those that make loops lead on in their order make a graph whose loops lead
to no circle. -/
theorem Graph.circleless_of_nodes {registry : Registry} {graph : Graph}
    (h : graph.nodes.all fun d => (registry.makeNode d.body).toOption.all fun made =>
      match made.cls.kind with
      | .loop => graph.edges.all fun e => !(d.id :: graph.body d.id).contains e.source ||
          decide (graph.nodes.findIdx (fun d => d.id == e.source) <
            graph.nodes.findIdx fun d => d.id == e.target)
      | _ => true) (loop : Key) (hloop : graph.IsLoop registry loop) : graph.Circleless loop := by
  obtain ⟨node, ⟨_, d, made, settings, hd, hmade, rfl⟩, hkind⟩ := hloop
  obtain ⟨hmem, rfl⟩ := Graph.node?_some hd
  have hnode := List.all_eq_true.1 h d hmem
  change made.cls.kind = .loop at hkind
  simp only [hmade, Except.toOption, Option.all_some, hkind] at hnode
  exact circleless_of_forward_below hnode

/-- A trigger that a node leads back to, and a loop with a loop in its body. A merge outside waits
for the node and for the inner body. -/
def nestedBesideCircle : Graph where
  id := .text "unknown"
  name := .text "unknown"
  nodes := [
    ⟨.text "t", .object [("id", .text "t"), ("type", .text "manual-trigger")]⟩,
    ⟨.text "a", .object [("id", .text "a"), ("type", .text "pass")]⟩,
    ⟨.text "l", .object [("id", .text "l"), ("type", .text "loop"),
      ("data", .object [("config", .object [("items", .list [.int 1, .int 2])])])]⟩,
    ⟨.text "k", .object [("id", .text "k"), ("type", .text "loop"),
      ("data", .object [("config", .object [("items", .list [.int 3])])])]⟩,
    ⟨.text "p", .object [("id", .text "p"), ("type", .text "pass")]⟩,
    ⟨.text "m", .object [("id", .text "m"), ("type", .text "merge"),
      ("data", .object [("config", .object [("waitForAll", .bool true)])])]⟩]
  edges := [⟨.text "t", .text "a", .null⟩, ⟨.text "a", .text "t", .null⟩,
    ⟨.text "a", .text "m", .null⟩, ⟨.text "t", .text "l", .null⟩, ⟨.text "l", .text "k", .null⟩,
    ⟨.text "k", .text "p", .null⟩, ⟨.text "p", .text "m", .null⟩]

/-- The circle outside the loops is gone round once, and the merge is left the first time. -/
theorem courseOf_terminates_nestedBesideCircle :
    let run : Run := { world := {}, state := {} }
    let workflow := nestedBesideCircle.toValue
    Registry.builtin.KeepsBooks ∧ (∀ graph, Graph.ofValue workflow = .ok graph →
      ∀ loop, graph.IsLoop .builtin loop → graph.Circleless loop) ∧ run.state.frames = [] ∧
      ((courseOf .builtin none 40 workflow).run run).2.results.map NodeResult.node =
        [.text "t", .text "a", .text "p", .text "m", .text "k", .text "p", .text "m", .text "k",
          .text "l"] ∧
      ∃ enough o after, ∀ fuel, enough ≤ fuel →
        (courseOf .builtin none fuel workflow).run run = (some o, after) := by
  have hread : Graph.ofValue nestedBesideCircle.toValue = .ok nestedBesideCircle := rfl
  have hcircleless : ∀ graph, Graph.ofValue nestedBesideCircle.toValue = .ok graph →
      ∀ loop, graph.IsLoop .builtin loop → graph.Circleless loop := by
    intro graph hgraph
    obtain rfl : nestedBesideCircle = graph := Except.ok.inj (hread.symm.trans hgraph)
    exact Graph.circleless_of_nodes (by decide +kernel)
  exact ⟨Registry.builtin_keepsBooks, hcircleless, rfl, by decide +kernel,
    courseOf_terminates Registry.builtin_keepsBooks hcircleless { world := {}, state := {} } rfl⟩

end WorkflowEngine
