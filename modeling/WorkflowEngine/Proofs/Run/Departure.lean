import WorkflowEngine.Proofs.Run.Steps

/-!
# How a run departs

Before a run walks, its graph is read, its trigger found and its nodes are built. All that is calm: it
leaves remarks and nothing else, also when it is given up (`prepare_calm`). The plan that comes of it
has the nodes of the graph, each from its first definition (`prepare_of`), and the run goes by moves
from there (`leads_courseOf`).
-/

namespace WorkflowEngine

namespace Walk

variable {α β : Type}

/-- A part that comes to an outcome, spares what is the engine's, and makes nothing but comments. -/
def Calm (part : Walk α) : Prop :=
  ∀ run, ∃ o bench, part.run run = (some o, run.onBench bench) ∧
    run.toBench.Spares Event.isComment bench

namespace Calm

theorem pure (a : α) : Calm (pure a) := fun run => ⟨.ok a, run.toBench, rfl, refl_of _ _⟩

theorem throw (f : Failure) : Calm (throw f : Walk α) :=
  fun run => ⟨.error f, run.toBench, rfl, refl_of _ _⟩

theorem get : Calm get := fun run => ⟨.ok run, run.toBench, rfl, refl_of _ _⟩

theorem ofAttempt (a : Attempt α) : Calm (ofAttempt a) := by
  cases a with
  | ok a => exact pure a
  | error f => exact throw f

theorem note {event : Event} (h : event.isComment = true) : Calm (note event) := fun run =>
  ⟨.ok (), { run.toBench with world := run.world.note event }, rfl,
    ⟨⟨run.state.vars, rfl⟩, .note h⟩⟩

theorem bind {part : Walk α} {next : α → Walk β} (h : Calm part) (hn : ∀ a, Calm (next a)) :
    Calm (part >>= next) := by
  intro run
  obtain ⟨o, bench, hrun, hspares⟩ := h run
  rw [run_bind, hrun]
  cases o with
  | error f => exact ⟨.error f, bench, rfl, hspares⟩
  | ok a =>
    obtain ⟨o', bench', hrun', hspares'⟩ := hn a (run.onBench bench)
    exact ⟨o', bench', hrun', hspares.trans hspares'⟩

end Calm

end Walk

open Walk

/-! ## The nodes of a plan -/

theorem buildNodes_calm (registry : Registry) (graph : Graph) (built : List (Key × Node))
    (ds : List Definition) : Calm (buildNodes registry graph built ds) := by
  induction ds generalizing built with
  | nil => exact Calm.pure built
  | cons d rest ih =>
    unfold buildNodes
    split
    · exact ih built
    · refine (Calm.ofAttempt _).bind fun node => ?_
      split
      · refine (Calm.ofAttempt _).bind fun type => (Calm.note rfl).bind fun _ => ?_
        exact Calm.get.bind fun run => ih _
      · exact Calm.get.bind fun run => ih _

/-- Making a run ready is calm. -/
theorem prepare_calm (registry : Registry) (budget : Option Int) (workflow : Value) :
    Calm (prepare registry budget workflow) := by
  refine (Calm.ofAttempt _).bind fun graph => (Calm.note rfl).bind fun _ => ?_
  refine (Calm.ofAttempt _).bind fun trigger => ?_
  cases trigger with
  | none => exact Calm.throw _
  | some trigger => exact (buildNodes_calm registry graph [] graph.nodes).bind fun _ => Calm.pure _

theorem Walk.run_bind_ok {α β : Type} {part : Walk α} {next : α → Walk β} {b : β} {run run' : Run}
    (h : (part >>= next).run run = (some (.ok b), run')) :
    ∃ a r, part.run run = (some (.ok a), r) ∧ (next a).run r = (some (.ok b), run') := by
  rw [run_bind] at h
  rcases hrun : part.run run with ⟨_ | f | a, r⟩
  · simp [hrun] at h
  · simp [hrun] at h
  · rw [hrun] at h
    exact ⟨a, r, rfl, h⟩

theorem Walk.ofAttempt_ok {α : Type} {a : Attempt α} {v : α} {run run' : Run}
    (h : (Walk.ofAttempt a).run run = (some (.ok v), run')) : a = .ok v := by
  rw [run_ofAttempt] at h
  injection h with h _
  exact Option.some.inj h

/-- A definition has the identifier that it gives. -/
def Definition.Keyed (d : Definition) : Prop := ∃ v, d.body.entry "id" = .ok v ∧ v.key = .ok d.id

theorem Definition.ofValue_keyed {v : Value} {d : Definition} (h : Definition.ofValue v = .ok d) :
    d.Keyed := by
  obtain ⟨id, hid, h⟩ := Attempt.bind_ok h
  obtain ⟨key, hkey, h⟩ := Attempt.bind_ok h
  cases h
  exact ⟨id, hid, hkey⟩

theorem Graph.ofValue_keyed {workflow : Value} {graph : Graph}
    (h : Graph.ofValue workflow = .ok graph) : ∀ d ∈ graph.nodes, d.Keyed := by
  obtain ⟨_, _, h⟩ := Attempt.bind_ok h
  obtain ⟨_, _, h⟩ := Attempt.bind_ok h
  obtain ⟨_, _, h⟩ := Attempt.bind_ok h
  obtain ⟨_, _, h⟩ := Attempt.bind_ok h
  obtain ⟨_, _, h⟩ := Attempt.bind_ok h
  obtain ⟨_, _, h⟩ := Attempt.bind_ok h
  obtain ⟨nodes, hnodes, h⟩ := Attempt.bind_ok h
  obtain ⟨_, _, h⟩ := Attempt.bind_ok h
  cases h
  intro d hd
  obtain ⟨v, _, hv⟩ := Attempt.mapM_ok hnodes d hd
  exact Definition.ofValue_keyed hv

/-- A node has the class that it is given, and the identifier that its definition gives. -/
theorem Node.ofDefinition_ok {cls : NodeClass} {definition : Value} {node : Node}
    (h : Node.ofDefinition cls definition = .ok node) :
    node.cls = cls ∧ ∃ v, definition.entry "id" = .ok v ∧ v.key = .ok node.id := by
  obtain ⟨id, hid, h⟩ := Attempt.bind_ok h
  obtain ⟨_, _, h⟩ := Attempt.bind_ok h
  obtain ⟨_, _, h⟩ := Attempt.bind_ok h
  obtain ⟨_, _, h⟩ := Attempt.bind_ok h
  obtain ⟨_, _, h⟩ := Attempt.bind_ok h
  obtain ⟨key, hkey, h⟩ := Attempt.bind_ok h
  cases h
  exact ⟨rfl, id, hid, hkey⟩

/-- A node is made of the class that its type names, if that is registered. -/
theorem Registry.makeNode_ok {registry : Registry} {definition : Value} {node : Node}
    (h : registry.makeNode definition = .ok node) :
    ∃ type cls, registry.lookup? type = .ok cls ∧
      Node.ofDefinition (cls.getD .passthrough) definition = .ok node := by
  obtain ⟨_, _, h⟩ := Attempt.bind_ok h
  obtain ⟨_, _, h⟩ := Attempt.bind_ok h
  obtain ⟨cls, hcls, h⟩ := Attempt.bind_ok h
  exact ⟨_, cls, hcls, h⟩

/-- A node that is made of a definition has its identifier. -/
theorem Definition.Keyed.makeNode_id {registry : Registry} {d : Definition} {made : Node}
    (keyed : d.Keyed) (h : registry.makeNode d.body = .ok made) : made.id = d.id := by
  obtain ⟨v, hv, hkey⟩ := keyed
  obtain ⟨_, _, _, hnode⟩ := Registry.makeNode_ok h
  obtain ⟨_, v', hv', hkey'⟩ := Node.ofDefinition_ok hnode
  obtain rfl := Except.ok.inj (hv.symm.trans hv')
  exact Except.ok.inj (hkey'.symm.trans hkey)

/-- A node is made from the first definition with its identifier. -/
def Graph.Makes (registry : Registry) (graph : Graph) (id : Key) (node : Node) : Prop :=
  node.id = id ∧ ∃ d made settings, graph.node? id = some d ∧ registry.makeNode d.body = .ok made ∧
    node = ({ made with settings := settings } : Node).place graph

/-- A node is made from the first definition with its identifier, its settings noted to be those of
that node in a run. -/
def Graph.Builds (registry : Registry) (graph : Graph) (id : Key) (node : Node) : Prop :=
  node.id = id ∧ ∃ d made time, graph.node? id = some d ∧ registry.makeNode d.body = .ok made ∧
    node = ({ made with settings := made.settings.madeBy (.settings time id) } : Node).place graph

theorem Graph.Builds.makes {registry : Registry} {graph : Graph} {id : Key} {node : Node}
    (h : graph.Builds registry id node) : graph.Makes registry id node := by
  obtain ⟨hid, d, made, time, hd, hmade, hnode⟩ := h
  exact ⟨hid, d, made, _, hd, hmade, hnode⟩

/-- Two nodes that are made from the definition of one identifier are of one class. -/
theorem Graph.Makes.cls_eq {registry : Registry} {graph : Graph} {id : Key} {node node' : Node}
    (h : graph.Makes registry id node) (h' : graph.Makes registry id node') :
    node.cls = node'.cls := by
  obtain ⟨_, d, made, settings, hd, hmade, rfl⟩ := h
  obtain ⟨_, d', made', settings', hd', hmade', rfl⟩ := h'
  obtain rfl := Option.some.inj (hd.symm.trans hd')
  obtain rfl := Except.ok.inj (hmade.symm.trans hmade')
  rfl

theorem Graph.node?_some {graph : Graph} {id : Key} {d : Definition} (h : graph.node? id = some d) :
    d ∈ graph.nodes ∧ d.id = id := by
  have hfind : graph.nodes.find? (fun d => d.id == id) = some d := h
  exact ⟨List.mem_of_find?_eq_some hfind, by simpa using List.find?_some hfind⟩

/-- A definition is the first with its identifier if no earlier one has it. -/
theorem Graph.node?_eq {graph : Graph} {done rest : List Definition} {d : Definition}
    (hnodes : graph.nodes = done ++ d :: rest) (hnew : ∀ d' ∈ done, d'.id ≠ d.id) :
    graph.node? d.id = some d := by
  have hnone : done.find? (fun d' => d'.id == d.id) = none := by
    rw [List.find?_eq_none]
    intro d' hd'
    simpa using hnew d' hd'
  simp [Graph.node?, hnodes, hnone]

/-- Building a node goes on from one that is made of its definition. A node of an unknown type is
remarked on, and built like the others. -/
theorem buildNodes_cons {registry : Registry} {graph : Graph} {d : Definition}
    {rest : List Definition} {built nodes : List (Key × Node)} {run run' : Run}
    (hnew : Entries.contains d.id built = false)
    (h : (buildNodes registry graph built (d :: rest)).run run = (some (.ok nodes), run')) :
    ∃ made time r, registry.makeNode d.body = .ok made ∧
      (buildNodes registry graph (built ++ [(d.id,
        ({ made with settings := made.settings.madeBy (.settings time d.id) } : Node).place graph)])
        rest).run r = (some (.ok nodes), run') := by
  unfold buildNodes at h
  rw [if_neg (by simp [hnew])] at h
  obtain ⟨made, r, hmade, h⟩ := Walk.run_bind_ok h
  have hmake := Walk.ofAttempt_ok hmade
  split at h
  · obtain ⟨_, _, _, h⟩ := Walk.run_bind_ok h
    obtain ⟨_, _, _, h⟩ := Walk.run_bind_ok h
    obtain ⟨_, _, _, h⟩ := Walk.run_bind_ok h
    exact ⟨made, _, _, hmake, h⟩
  · obtain ⟨_, _, _, h⟩ := Walk.run_bind_ok h
    exact ⟨made, _, _, hmake, h⟩

/-- **Every node that is built is made from the first definition with its identifier.** `done` are
the definitions that have been gone through, each of which has its node by then. -/
theorem buildNodes_builds {registry : Registry} {graph : Graph}
    (hkeyed : ∀ d ∈ graph.nodes, d.Keyed) (rest : List Definition) :
    ∀ (done : List Definition) (built nodes : List (Key × Node)) (run run' : Run),
      graph.nodes = done ++ rest → (∀ d ∈ done, Entries.contains d.id built = true) →
      (∀ id node, built.lookup id = some node → graph.Builds registry id node) →
      (buildNodes registry graph built rest).run run = (some (.ok nodes), run') →
      ∀ id node, nodes.lookup id = some node → graph.Builds registry id node := by
  induction rest with
  | nil =>
    intro done built nodes run run' _ _ hmade h
    cases h
    exact hmade
  | cons d rest ih =>
    intro done built nodes run run' hnodes hdone hmade h
    have hnodes' : graph.nodes = (done ++ [d]) ++ rest := by simp [hnodes]
    cases hnew : Entries.contains d.id built with
    | true =>
      unfold buildNodes at h
      rw [if_pos hnew] at h
      refine ih (done ++ [d]) built nodes run run' hnodes' ?_ hmade h
      intro d' hd'
      rcases List.mem_append.1 hd' with hd' | hd'
      · exact hdone d' hd'
      · rw [List.mem_singleton.1 hd']
        exact hnew
    | false =>
      obtain ⟨made, time, r, hmake, h⟩ := buildNodes_cons hnew h
      have hid := (hkeyed d (by simp [hnodes])).makeNode_id hmake
      -- an earlier definition with this identifier would have been built
      have hfirst : graph.node? d.id = some d := by
        refine Graph.node?_eq hnodes fun d' hd' heq => ?_
        have hold := hdone d' hd'
        rw [heq, hnew] at hold
        cases hold
      refine ih (done ++ [d]) _ nodes r run' hnodes' ?_ ?_ h
      · intro d' hd'
        rcases List.mem_append.1 hd' with hd' | hd'
        · exact (Entries.contains_concat ..).2 (.inl (hdone d' hd'))
        · exact (Entries.contains_concat ..).2 (.inr (by rw [List.mem_singleton.1 hd']))
      · intro id node hlookup
        rcases Entries.lookup_concat hlookup with hold | ⟨rfl, rfl⟩
        · exact hmade id node hold
        · exact ⟨hid, d, made, time, hfirst, hmake, rfl⟩

/-- A node that is built stays, and every definition that is gone through has its node. -/
theorem buildNodes_complete {registry : Registry} {graph : Graph} (rest : List Definition) :
    ∀ (built nodes : List (Key × Node)) (run run' : Run),
      (buildNodes registry graph built rest).run run = (some (.ok nodes), run') →
      ∀ id, (Entries.contains id built = true ∨ ∃ d ∈ rest, d.id = id) →
        Entries.contains id nodes = true := by
  induction rest with
  | nil =>
    intro built nodes run run' h id hid
    cases h
    exact hid.resolve_right (by simp)
  | cons d rest ih =>
    intro built nodes run run' h id hid
    cases hnew : Entries.contains d.id built with
    | true =>
      unfold buildNodes at h
      rw [if_pos hnew] at h
      refine ih built nodes run run' h id ?_
      rcases hid with hid | ⟨d', hd', rfl⟩
      · exact .inl hid
      · rcases List.mem_cons.1 hd' with rfl | hd'
        · exact .inl hnew
        · exact .inr ⟨d', hd', rfl⟩
    | false =>
      obtain ⟨made, time, r, _, h⟩ := buildNodes_cons hnew h
      refine ih _ nodes r run' h id ?_
      rcases hid with hid | ⟨d', hd', rfl⟩
      · exact .inl ((Entries.contains_concat ..).2 (.inl hid))
      · rcases List.mem_cons.1 hd' with rfl | hd'
        · exact .inl ((Entries.contains_concat ..).2 (.inr rfl))
        · exact .inr ⟨d', hd', rfl⟩

/-- A graph as the workflow that it is of. -/
def Graph.toValue (graph : Graph) : Value := .object [
  ("nodes", .list (graph.nodes.map Definition.body)),
  ("edges", .list (graph.edges.map fun e => .object [("source", .ofKey e.source),
    ("target", .ofKey e.target), ("sourceHandle", e.handle)]))]

/-- What a run that is ready goes by: the graph of the workflow with its nodes, the budget, and the
trigger to begin with. -/
structure Departure.Of (registry : Registry) (budget : Option Int) (workflow : Value)
    (departure : Departure) : Prop where
  graph : Graph.ofValue workflow = .ok departure.plan.graph
  budget : departure.plan.budget = budget
  builds : ∀ id node, departure.plan.nodes.lookup id = some node →
    departure.plan.graph.Builds registry id node
  complete : ∀ id, departure.plan.graph.contains id = true →
    ∃ node, departure.plan.nodes.lookup id = some node
  start : ∃ trigger, departure.plan.graph.findOfType (registry.triggerTypes.map Key.text) =
    .ok (some trigger) ∧ trigger.id = departure.start

theorem Departure.Of.nodes {registry : Registry} {budget : Option Int} {workflow : Value}
    {departure : Departure} (h : departure.Of registry budget workflow) (id : Key) (node : Node)
    (hlookup : departure.plan.nodes.lookup id = some node) :
    departure.plan.graph.Makes registry id node :=
  (h.builds id node hlookup).makes

theorem Departure.Of.named {registry : Registry} {budget : Option Int} {workflow : Value}
    {departure : Departure} (h : departure.Of registry budget workflow) : departure.plan.Named :=
  fun id node hlookup => (h.builds id node hlookup).1

/-- Making a run ready gives what it goes by. -/
theorem prepare_of {registry : Registry} {budget : Option Int} {workflow : Value}
    {departure : Departure} {run run' : Run}
    (h : (prepare registry budget workflow).run run = (some (.ok departure), run')) :
    departure.Of registry budget workflow := by
  obtain ⟨graph, r, hread, h⟩ := Walk.run_bind_ok h
  have hgraph := Walk.ofAttempt_ok hread
  obtain ⟨_, _, _, h⟩ := Walk.run_bind_ok h
  obtain ⟨trigger, _, hfind, h⟩ := Walk.run_bind_ok h
  cases trigger with
  | none => cases h
  | some trigger =>
    obtain ⟨nodes, _, hbuild, h⟩ := Walk.run_bind_ok h
    cases h
    refine ⟨hgraph, rfl, ?_, fun id hid => ?_, trigger, Walk.ofAttempt_ok hfind, rfl⟩
    · exact buildNodes_builds (Graph.ofValue_keyed hgraph) graph.nodes [] [] nodes _ _ rfl (by simp)
        (by simp) hbuild
    · obtain ⟨d, hd, heq⟩ := List.any_eq_true.1 hid
      have hthere := buildNodes_complete graph.nodes [] nodes _ _ hbuild id
        (.inr ⟨d, hd, eq_of_beq heq⟩)
      exact Option.isSome_iff_exists.1 ((Entries.contains_iff id nodes).1 hthere)

/-! ## The course of a whole run -/

/-- The run that begins: a run later than the one before, without visits. -/
def Run.opened (run : Run) : Run :=
  { run with state := { run.state with time := run.state.time + 1 }, visits := 0 }

variable {registry : Registry} {budget : Option Int} {fuel : Nat} {workflow : Value}
  {run run' : Run}

/-- A run that cannot be made ready fails with that. -/
theorem courseOf_error {f : Failure}
    (h : (prepare registry budget workflow).run run.opened = (some (.error f), run')) :
    (courseOf registry budget fuel workflow).run run = (some (.error f), run') := by
  unfold courseOf
  rw [run_bind, run_changeState]
  dsimp only
  rw [run_bind, run_modify]
  dsimp only
  rw [run_bind, run_get]
  dsimp only
  rw [run_bind]
  unfold Run.opened at h
  rw [h]

/-- The run that is over once it has walked. -/
def Departure.closed (departure : Departure) (began : Float) (walked : Run) : Run :=
  { walked with world := walked.world.note (.runEnded departure.plan.graph.name
      walked.results.length (walked.world.seconds - began)) }

/-- A run that is ready walks, and is closed once the walk is over, however it ends. -/
theorem courseOf_walk (fuel : Nat) {departure : Departure}
    (h : (prepare registry budget workflow).run run.opened = (some (.ok departure), run')) :
    (courseOf registry budget fuel workflow).run run =
      match (departure.plan.walk fuel [departure.start]).run run' with
      | (some o, walked) => (some o, departure.closed run.world.seconds walked)
      | (none, walked) => (none, walked) := by
  unfold Run.opened at h
  simp only [courseOf, run_bind, run_changeState, run_modify, run_get, h, Departure.travel,
    run_outcome]
  rcases (departure.plan.walk fuel [departure.start]).run run' with ⟨_ | o, walked⟩
  · rfl
  · simp only [run_note, run_ofAttempt]
    rfl

/-- A run ends as its walk ends. -/
theorem courseOf_walked {departure : Departure} {o : Attempt Unit} {walked : Run}
    (h : (prepare registry budget workflow).run run.opened = (some (.ok departure), run'))
    (hwalk : (departure.plan.walk fuel [departure.start]).run run' = (some o, walked)) :
    (courseOf registry budget fuel workflow).run run =
      (some o, departure.closed run.world.seconds walked) := by
  rw [courseOf_walk fuel h, hwalk]

/-- **A run that is ready goes from stage to stage by moves**, from no replay to no replay. -/
theorem leads_courseOf (fuel : Nat) {departure : Departure}
    (h : (prepare registry budget workflow).run run.opened = (some (.ok departure), run')) :
    departure.plan.Leads ⟨run.opened, ⟨.walking, []⟩, none⟩
      (courseOf registry budget fuel workflow) run ⟨.walking, []⟩ ⟨.walking, []⟩ := by
  obtain ⟨o, bench, hrun, hspares⟩ := prepare_calm registry budget workflow run.opened
  rw [h] at hrun
  injection hrun with _ hrun
  refine Plan.Leads.step (run_changeState _ run) (Plan.Leads.step (run_modify _ _) ?_)
  refine Plan.Leads.step (run_get _) (Plan.Leads.step h ?_)
  refine Plan.Leads.after ?_ (Plan.Leads.handle
    (Plan.leads_walk (prepare_of h).named fuel [departure.start] [] run') ?_ ?_)
  · rw [hrun]
    exact Plan.reaches_quiet run.opened _ none hspares.spared
  · intro _ r
    refine Plan.Leads.step (run_get r) (Plan.Leads.step (run_note _ r) ?_)
    exact Plan.Leads.of_ok (run_ofAttempt _ _) (Plan.reaches_note r _ none rfl)
  · intro f r
    refine Plan.Leads.step (run_get r) (Plan.Leads.step (run_note _ r) ?_)
    exact Plan.Leads.of_error (run_ofAttempt _ _) (Plan.reaches_note r _ (some f) rfl)

/-- A run comes to nothing but remarks, or to a stage of a walk by a plan of the workflow. -/
theorem courseOf_reaches (registry : Registry) (budget : Option Int) (fuel : Nat) (workflow : Value)
    (run : Run) :
    (∃ bench, ((courseOf registry budget fuel workflow).run run).2 = run.opened.onBench bench ∧
      run.opened.toBench.Spared bench) ∨
    ∃ departure : Departure, departure.Of registry budget workflow ∧
      ∃ replays cause, departure.plan.Reaches ⟨run.opened, ⟨.walking, []⟩, none⟩
        ⟨((courseOf registry budget fuel workflow).run run).2, ⟨.walking, replays⟩, cause⟩ := by
  obtain ⟨o, bench, hprepare, hspares⟩ := prepare_calm registry budget workflow run.opened
  cases o with
  | error f => exact .inl ⟨bench, by rw [courseOf_error hprepare], hspares.spared⟩
  | ok departure => exact .inr ⟨departure, prepare_of hprepare, (leads_courseOf fuel hprepare).reaches⟩

/-- A run that ends has left nothing but remarks, or has come to the end of a walk by a plan of the
workflow, outside all replays. -/
theorem courseOf_ended {o : Attempt Unit}
    (h : (courseOf registry budget fuel workflow).run run = (some o, run')) :
    (∃ bench, run' = run.opened.onBench bench ∧ run.opened.toBench.Spared bench) ∨
    ∃ departure : Departure, departure.Of registry budget workflow ∧
      ∃ cause, departure.plan.Reaches ⟨run.opened, ⟨.walking, []⟩, none⟩
        ⟨run', ⟨.walking, []⟩, cause⟩ := by
  obtain ⟨p, bench, hprepare, hspares⟩ := prepare_calm registry budget workflow run.opened
  cases p with
  | error f =>
    rw [courseOf_error hprepare] at h
    cases h
    exact .inl ⟨bench, rfl, hspares.spared⟩
  | ok departure =>
    have hleads := leads_courseOf fuel hprepare
    unfold Plan.Leads at hleads
    rw [h] at hleads
    cases o with
    | ok _ => exact .inr ⟨departure, prepare_of hprepare, none, hleads⟩
    | error f => exact .inr ⟨departure, prepare_of hprepare, some f, hleads⟩

end WorkflowEngine
