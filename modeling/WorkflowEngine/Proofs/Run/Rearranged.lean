import WorkflowEngine.Proofs.Graph.Order
import WorkflowEngine.Proofs.Walk.Blindness

/-!
# Runs of rearranged workflows

The order in which a workflow lists its nodes and its edges makes no difference to a run, as long as
the same node is the first that can begin one and edges with a common end keep their order
(`courseOf_rearranged_graph`). The nodes are built in another order, and what is noted of that comes
in another order too; but the walk goes by the same answers of the graph, and it does not read what
was noted before it.
-/

namespace WorkflowEngine

open Walk

/-! ## Walks by like plans -/

/-- Two plans know the same nodes, give the same answers of their graphs, and allow as many visits. -/
structure Plan.Alike (plan plan' : Plan) : Prop where
  lookup : ∀ id, plan'.nodes.lookup id = plan.nodes.lookup id
  targets : ∀ id branch, plan'.graph.targets id branch = plan.graph.targets id branch
  body : ∀ id, plan'.graph.body id = plan.graph.body id
  budget : plan'.budget = plan.budget

namespace Plan.Alike

variable {plan plan' : Plan} (h : plan.Alike plan')
include h

theorem invoke (replay : Key → Walk Unit) (node : Node) :
    node.invoke plan' replay = node.invoke plan replay := by
  have hloop : node.runLoop plan' replay = node.runLoop plan replay := by
    simp only [Node.runLoop, h.targets, h.body]
  simp only [Node.invoke, Node.act, hloop]

theorem visit (replay : Key → Walk Unit) (id : Key) :
    plan'.visit replay id = plan.visit replay id := by
  simp only [Plan.visit, Plan.execute, Plan.countVisit, h.lookup, h.invoke, h.targets, h.budget]

/-- Like plans lead on the same walks. -/
theorem walk (fuel : Nat) : ∀ stack, plan'.walk fuel stack = plan.walk fuel stack := by
  induction fuel with
  | zero => exact fun _ => rfl
  | succ fuel ih =>
    intro stack
    cases stack with
    | nil => rfl
    | cons id rest => simp only [Plan.walk, ih, h.visit]

end Plan.Alike

/-! ## Building the nodes -/

/-- The node that is built of a definition, under its identifier. -/
def Registry.build (registry : Registry) (graph : Graph) (time : Nat) (d : Definition) :
    Option (Key × Node) :=
  (registry.makeNode d.body).toOption.map fun made =>
    (d.id, ({ made with settings := made.settings.madeBy (.settings time d.id) } : Node).place graph)

/-- What is noted when the node is built: a remark, if its type is unknown. -/
def Registry.remark (registry : Registry) (tag : Tag) (d : Definition) : Option Entry :=
  match registry.makeNode d.body, d.type with
  | .ok made, .ok type =>
    match made.cls.kind with
    | .passthrough => some ⟨tag, .unknownType d.id type⟩
    | _ => none
  | _, _ => none

/-- The same run after some entries. -/
def Run.noting (run : Run) (entries : List Entry) : Run :=
  { run with world := { run.world with journal := entries ++ run.world.journal } }

section Building

variable {registry : Registry} {graph : Graph}

theorem Registry.build_fit {d : Definition} {type : String} (fit : d.Fit type) (time : Nat) :
    ∃ node, registry.build graph time d = some (d.id, node) := by
  obtain ⟨made, hmade, -⟩ := fit.made registry
  rw [build, hmade]
  exact ⟨_, rfl⟩

/-- **Each definition has its node built once**, in the order of the definitions, if no two of them
share their identifier. -/
theorem buildNodes_run {ds : List Definition} (fit : ∀ d ∈ ds, ∃ type, d.Fit type)
    (unique : (ds.map Definition.id).Nodup) : ∀ (built : List (Key × Node)) (run : Run),
    (∀ d ∈ ds, Entries.contains d.id built = false) →
    (buildNodes registry graph built ds).run run =
      (some (.ok (built ++ ds.filterMap (registry.build graph run.state.time))),
        run.noting (ds.filterMap (registry.remark run.world.tag)).reverse) := by
  induction ds with
  | nil =>
    intro built run _
    rw [List.filterMap_nil, List.append_nil]
    rfl
  | cons d rest ih =>
    obtain ⟨⟨type, hfit⟩, hrest⟩ := List.forall_mem_cons.1 fit
    obtain ⟨hnew, hunique⟩ := List.nodup_cons.1 unique
    intro built run habsent
    obtain ⟨hd, habsent⟩ := List.forall_mem_cons.1 habsent
    obtain ⟨made, hmade, -⟩ := hfit.made registry
    obtain ⟨node, hnode⟩ : ∃ node, registry.build graph run.state.time d = some (d.id, node) :=
      Registry.build_fit hfit run.state.time
    let settings := made.settings.madeBy (.settings run.state.time d.id)
    have hsame : ({ made with settings := settings } : Node).place graph = node := by
      rw [Registry.build, hmade] at hnode
      exact congrArg Prod.snd (Option.some.inj hnode)
    have hlater : ∀ d' ∈ rest, Entries.contains d'.id (built ++ [(d.id, node)]) = false := by
      intro d' hd'
      rw [Bool.eq_false_iff, Ne, Entries.contains_concat, habsent d' hd']
      exact fun h => h.elim Bool.false_ne_true fun heq => hnew (heq ▸ List.mem_map_of_mem hd')
    have hstep : (buildNodes registry graph built (d :: rest)).run run =
        (buildNodes registry graph (built ++ [(d.id, node)]) rest).run
          (run.noting (registry.remark run.world.tag d).toList) := by
      rw [buildNodes, if_neg (by rw [hd]; decide), run_bind, run_ofAttempt, hmade]
      rw [← hsame]
      cases hkind : made.cls.kind with
      | passthrough =>
        simp only [Registry.remark, hmade, hfit.typed, hkind, run_bind, run_ofAttempt, run_note,
          run_get]
        rfl
      | _ =>
        simp only [Registry.remark, hmade, hfit.typed, hkind, run_bind, run_get]
        rfl
    rw [hstep, ih hrest hunique _ _ hlater, List.filterMap_cons_some hnode, List.append_assoc]
    have hentries : (d :: rest).filterMap (registry.remark run.world.tag) =
        (registry.remark run.world.tag d).toList ++
          rest.filterMap (registry.remark run.world.tag) := by
      cases hremark : registry.remark run.world.tag d <;> simp [hremark]
    rw [hentries, List.reverse_append]
    simp only [Run.noting, List.append_assoc]
    cases registry.remark run.world.tag d <;> rfl

/-- What a run goes by at a time: the graph, with a node for each definition. -/
def Registry.planOf (registry : Registry) (graph : Graph) (budget : Option Int) (time : Nat) : Plan :=
  ⟨graph, graph.nodes.filterMap (registry.build graph time), budget⟩

/-- Making a run ready notes that it begins, and builds each node once. -/
theorem prepare_run {w : Value} (read : Graph.ofValue w = .ok graph)
    (fit : ∀ d ∈ graph.nodes, ∃ type, d.Fit type) (unique : (graph.nodes.map Definition.id).Nodup)
    (budget : Option Int) (run : Run) {trigger : Definition}
    (first : graph.nodes.find? (fun d => d.starts registry) = some trigger) :
    (prepare registry budget w).run run =
      (some (.ok ⟨registry.planOf graph budget run.state.time, trigger.id⟩),
        run.noting ((graph.nodes.filterMap (registry.remark run.world.tag)).reverse ++
          [⟨run.world.tag, .runBegan graph.name⟩])) := by
  have hfind := Graph.findOfType_eq fit registry
  have hbuilt := @buildNodes_run registry graph _ fit unique []
    { run with world := run.world.note (.runBegan graph.name) } fun _ _ => rfl
  simp only [prepare, run_bind, run_ofAttempt, read, run_note, hfind, first, hbuilt]
  simp only [Run.noting, World.note, List.append_assoc]
  rfl

/-- Without a trigger there is no more than the note that the run begins. -/
theorem prepare_noTrigger {w : Value} (read : Graph.ofValue w = .ok graph)
    (fit : ∀ d ∈ graph.nodes, ∃ type, d.Fit type) (budget : Option Int) (run : Run)
    (none : graph.nodes.find? (fun d => d.starts registry) = none) :
    (prepare registry budget w).run run =
      (some (.error .noTrigger), run.noting [⟨run.world.tag, .runBegan graph.name⟩]) := by
  have hfind := Graph.findOfType_eq fit registry
  simp only [prepare, run_bind, run_ofAttempt, read, run_note, hfind, none]
  rfl

end Building

/-! ## Rearranged workflows -/

section Rearranged

variable {registry : Registry} {graph graph' : Graph}

theorem Registry.build_rearranged (h : graph.Rearranged registry graph') (time : Nat) :
    registry.build graph' time = registry.build graph time := by
  funext d
  simp only [build, Node.place, h.sources]

/-- What is found in a list of pairs does not depend on their order if no two share their key. -/
theorem lookup_perm {κ α : Type} [DecidableEq κ] {entries entries' : List (κ × α)}
    (perm : entries'.Perm entries) (unique : (entries.map Prod.fst).Nodup) (k : κ) :
    entries'.lookup k = entries.lookup k := by
  have hunique : (entries'.map Prod.fst).Nodup := (perm.map Prod.fst).nodup_iff.2 unique
  refine Option.ext fun v => ⟨fun h => ?_, fun h => ?_⟩
  · exact Entries.lookup_of_mem unique (perm.mem_iff.1 (Entries.mem_of_lookup h))
  · exact Entries.lookup_of_mem hunique (perm.mem_iff.2 (Entries.mem_of_lookup h))

/-- The nodes that are built stand under the identifiers of their definitions. -/
theorem Registry.keys_build {ds : List Definition} (fit : ∀ d ∈ ds, ∃ type, d.Fit type)
    (time : Nat) : (ds.filterMap (registry.build graph time)).map Prod.fst =
      ds.map Definition.id := by
  induction ds with
  | nil => rfl
  | cons d rest ih =>
    obtain ⟨⟨type, hfit⟩, hrest⟩ := List.forall_mem_cons.1 fit
    obtain ⟨node, hnode⟩ := @build_fit registry graph _ _ hfit time
    rw [List.filterMap_cons_some hnode, List.map_cons, List.map_cons, ih hrest]

/-- The plans of rearranged graphs are alike. -/
theorem Graph.Rearranged.alike (h : graph.Rearranged registry graph')
    (fit : ∀ d ∈ graph.nodes, ∃ type, d.Fit type) (unique : (graph.nodes.map Definition.id).Nodup)
    (budget : Option Int) (time : Nat) :
    (registry.planOf graph budget time).Alike (registry.planOf graph' budget time) where
  lookup id := by
    rw [Registry.planOf, Registry.planOf, Registry.build_rearranged h]
    refine lookup_perm (h.nodes.filterMap _) ?_ id
    rw [Registry.keys_build fit]
    exact unique
  targets := h.targets
  body := h.body
  budget := rfl

/-- The run without what has been noted so far. -/
def Run.afresh (run : Run) : Run := { run with world := { run.world with journal := [] } }

/-- What is noted at the end of a run names the workflow and nothing else of it. -/
theorem Departure.closed_congr {departure departure' : Departure}
    (name : departure'.plan.graph.name = departure.plan.graph.name) :
    departure'.closed = departure.closed := by
  funext began walked
  rw [closed, closed, name]

/-- **Rearranged workflows have the same runs**: with the same outcome, and with everything the same in
the end but for the order of what was noted when the nodes were built. -/
theorem courseOf_rearranged_graph {w w' : Value} (read : Graph.ofValue w = .ok graph)
    (read' : Graph.ofValue w' = .ok graph') (fit : ∀ d ∈ graph.nodes, ∃ type, d.Fit type)
    (unique : (graph.nodes.map Definition.id).Nodup) (h : graph.Rearranged registry graph')
    (budget : Option Int) (fuel : Nat) (run : Run) :
    ∃ (o : Option (Attempt Unit)) (last : Run) (opening opening' : List Entry),
      opening'.Perm opening ∧
      (courseOf registry budget fuel w).run run =
        (o, last.above (opening ++ run.world.journal)) ∧
      (courseOf registry budget fuel w').run run =
        (o, last.above (opening' ++ run.world.journal)) := by
  have fit' : ∀ d ∈ graph'.nodes, ∃ type, d.Fit type := fun d hd => fit d (h.nodes.mem_iff.1 hd)
  have unique' : (graph'.nodes.map Definition.id).Nodup :=
    (h.nodes.map Definition.id).nodup_iff.2 unique
  cases hfirst : graph.nodes.find? fun d => d.starts registry with
  | none =>
    let began : Entry := ⟨run.world.tag, .runBegan graph.name⟩
    have hprepare := prepare_noTrigger read fit budget run.opened hfirst
    have hprepare' := prepare_noTrigger read' fit' budget run.opened (h.first.trans hfirst)
    rw [h.name] at hprepare'
    rw [courseOf_error hprepare, courseOf_error hprepare']
    exact ⟨some (.error .noTrigger), run.opened.afresh, [began], [began], .refl _, rfl, rfl⟩
  | some trigger =>
    have hfirst' := h.first.trans hfirst
    let began : Entry := ⟨run.world.tag, .runBegan graph.name⟩
    let opening := (graph.nodes.filterMap (registry.remark run.world.tag)).reverse ++ [began]
    let opening' := (graph'.nodes.filterMap (registry.remark run.world.tag)).reverse ++ [began]
    have hopening : opening'.Perm opening := by
      refine List.Perm.append_right _ ?_
      refine (List.reverse_perm _).trans (.trans ?_ (List.reverse_perm _).symm)
      exact h.nodes.filterMap _
    have hprepare := prepare_run read fit unique budget run.opened hfirst
    have hprepare' := prepare_run read' fit' unique' budget run.opened hfirst'
    rw [h.name] at hprepare'
    have halike := h.alike fit unique budget run.opened.state.time
    have hclosed :
        Departure.closed ⟨registry.planOf graph' budget run.opened.state.time, trigger.id⟩ =
          Departure.closed ⟨registry.planOf graph budget run.opened.state.time, trigger.id⟩ :=
      Departure.closed_congr h.name
    rw [courseOf_walk fuel hprepare, courseOf_walk fuel hprepare', halike.walk, hclosed]
    have hready : ∀ entries, run.opened.noting entries =
        run.opened.afresh.above (entries ++ run.world.journal) := fun _ => rfl
    rw [hready, hready, Plan.walk_sightless, Plan.walk_sightless]
    rcases (Plan.walk _ fuel [trigger.id]).run run.opened.afresh with ⟨_ | o, walked⟩
    · exact ⟨none, walked, opening, opening', hopening, rfl, rfl⟩
    · exact ⟨some o, Departure.closed _ run.world.seconds walked, opening, opening', hopening, rfl,
        rfl⟩

end Rearranged

/-- **The order in which an accepted workflow lists its nodes and its edges makes no difference to its
runs**, if no two nodes share their identifier. The outcome is the same, and so is all that the run
leaves, the results, the state and the world; only what was noted when the nodes were built may come
in another order. -/
theorem courseOf_rearranged {registry : Registry} {x w w' : Value} {graph : Graph}
    (accepted : Workflow.parse x = .ok w) (read : Graph.ofValue w = .ok graph)
    (unique : (graph.nodes.map Definition.id).Nodup)
    (rearranged : Workflow.Rearranged registry w w') (budget : Option Int) (fuel : Nat) (run : Run) :
    let ended := (courseOf registry budget fuel w).run run
    let ended' := (courseOf registry budget fuel w').run run
    ended'.1 = ended.1 ∧
      ended'.2 = { ended.2 with world := { ended.2.world with journal := ended'.2.world.journal } } ∧
      ∃ news opening opening' : List Entry, opening'.Perm opening ∧
        ended.2.world.journal = news ++ (opening ++ run.world.journal) ∧
        ended'.2.world.journal = news ++ (opening' ++ run.world.journal) := by
  obtain ⟨graph₁, read₁, fit⟩ := Workflow.parse_graph accepted
  obtain rfl := Except.ok.inj (read.symm.trans read₁)
  obtain ⟨graph', read', h⟩ := rearranged.graph read
  obtain ⟨o, last, opening, opening', hperm, hended, hended'⟩ :=
    courseOf_rearranged_graph read read' fit unique h budget fuel run
  rw [hended, hended']
  exact ⟨rfl, rfl, last.world.journal, opening, opening', hperm, rfl, rfl⟩

/-- A trigger that leads to two nodes of unknown types, of which one leads to the other. -/
def forkedPasses : Value := .object [("id", .text "w"), ("nodes", .list [
    .object [("id", .text "t"), ("type", .text "manual-trigger")],
    .object [("id", .text "a"), ("type", .text "first")],
    .object [("id", .text "b"), ("type", .text "second")]]),
  ("edges", .list [
    .object [("source", .text "t"), ("target", .text "a")],
    .object [("source", .text "a"), ("target", .text "b")],
    .object [("source", .text "t"), ("target", .text "b")]])]

/-- A node that has been read from a definition without settings. -/
def bareNode (name type : String) : Value := .object [("id", .text name), ("type", .text type),
  ("data", .object [("label", .text name), ("config", .dict [])])]

/-- An edge that has been read. -/
def bareEdge (name source target : String) : Value :=
  .object [("id", .text name), ("source", .text source), ("target", .text target)]

/-- What is read from `forkedPasses`. -/
def forkedPassesForm : Value := .object [("id", .text "w"), ("name", .text "w"),
  ("nodes", .list [bareNode "t" "manual-trigger", bareNode "a" "first", bareNode "b" "second"]),
  ("edges", .list [
    bareEdge "e0-t-a" "t" "a", bareEdge "e1-a-b" "a" "b", bareEdge "e2-t-b" "t" "b"])]

/-- The same workflow, with its last node first and its second edge first. -/
def rearrangedPassesForm : Value := .object [("id", .text "w"), ("name", .text "w"),
  ("nodes", .list [bareNode "b" "second", bareNode "t" "manual-trigger", bareNode "a" "first"]),
  ("edges", .list [
    bareEdge "e1-a-b" "a" "b", bareEdge "e0-t-a" "t" "a", bareEdge "e2-t-b" "t" "b"])]

theorem parse_forkedPasses : Workflow.parse forkedPasses = .ok forkedPassesForm := by
  with_unfolding_all rfl

/-- Two neighbours in a list of which at most one counts may change places. -/
theorem filter_swap {α : Type} {p : α → Bool} {x y : α} (h : p x = true → p y = false)
    (rest : List α) : (y :: x :: rest).filter p = (x :: y :: rest).filter p := by
  cases hx : p x with
  | false => simp [List.filter_cons, hx]
  | true => simp [hx, h hx]

/-- The two edges that change places have neither their source nor their target in common. -/
theorem rearranged_forkedPasses :
    Workflow.Rearranged .builtin forkedPassesForm rearrangedPassesForm := by
  have hends : ∀ (id end₁ end₂ : Key), end₁ ≠ end₂ →
      (end₁ == id) = true → (end₂ == id) = false := by
    intro id end₁ end₂ hne h₁
    obtain rfl := eq_of_beq h₁
    exact beq_false_of_ne hne.symm
  have hnodes := @List.perm_append_comm _ [bareNode "b" "second"]
    [bareNode "t" "manual-trigger", bareNode "a" "first"]
  refine ⟨rfl, rfl, ⟨_, _, rfl, rfl, hnodes, rfl⟩,
    ⟨_, _, rfl, rfl, .swap _ _ _, fun id => ?_, fun id => ?_⟩⟩
  · exact filter_swap (hends id (.text "t") (.text "a") (by decide)) _
  · exact filter_swap (hends id (.text "a") (.text "b") (by decide)) _

theorem courseOf_rearranged_forkedPasses :
    let run : Run := { world := {}, state := {} }
    let ended := (courseOf .builtin none 20 forkedPassesForm).run run
    let ended' := (courseOf .builtin none 20 rearrangedPassesForm).run run
    Workflow.parse forkedPasses = .ok forkedPassesForm ∧
      Workflow.Rearranged .builtin forkedPassesForm rearrangedPassesForm ∧
      (∃ graph, Graph.ofValue forkedPassesForm = .ok graph ∧
        (graph.nodes.map Definition.id).Nodup) ∧
      ended'.1 = ended.1 ∧
      ended'.2 =
        { ended.2 with world := { ended.2.world with journal := ended'.2.world.journal } } ∧
      ∃ news opening opening' : List Entry, opening'.Perm opening ∧
        ended.2.world.journal = news ++ (opening ++ run.world.journal) ∧
        ended'.2.world.journal = news ++ (opening' ++ run.world.journal) :=
  ⟨parse_forkedPasses, rearranged_forkedPasses, ⟨_, rfl, by decide +kernel⟩,
    courseOf_rearranged parse_forkedPasses rfl (by decide +kernel) rearranged_forkedPasses none 20
      { world := {}, state := {} }⟩

/-- The run goes through all three nodes, and through the one that both others lead to only once. -/
example :
    let ended := (courseOf .builtin none 20 forkedPassesForm).run { world := {}, state := {} }
    ended.1.map Except.isOk = some true ∧
      ended.2.results.map NodeResult.node = [.text "t", .text "a", .text "b"] :=
  ⟨by decide +kernel, by decide +kernel⟩

end WorkflowEngine
