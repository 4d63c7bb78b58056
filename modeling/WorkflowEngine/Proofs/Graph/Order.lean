import Mathlib.Data.List.Perm.Basic
import WorkflowEngine.Proofs.Run.Beginning

/-!
# The order of a workflow's parts

A graph is asked by walks for the edges of a node, the edges to a node, and the first definitions of
some kind, and never for its lists as a whole. Two graphs with the same nodes and edges, whose orders
agree as far as these questions go (`Graph.Rearranged`), give the same answers to all of them, the
body of a loop with them.
-/

namespace WorkflowEngine

/-- The same graph but for the order of its nodes and of its edges. The same node is the first that
can begin a run, and edges with a common end keep their order. -/
structure Graph.Rearranged (registry : Registry) (graph graph' : Graph) : Prop where
  name : graph'.name = graph.name
  nodes : graph'.nodes.Perm graph.nodes
  first : graph'.nodes.find? (fun d => d.starts registry) =
    graph.nodes.find? fun d => d.starts registry
  edges : graph'.edges.Perm graph.edges
  leaving : ∀ id, graph'.edges.filter (fun e => e.source == id) =
    graph.edges.filter fun e => e.source == id
  arriving : ∀ id, graph'.edges.filter (fun e => e.target == id) =
    graph.edges.filter fun e => e.target == id

namespace Graph.Rearranged

variable {registry : Registry} {graph graph' : Graph} (h : graph.Rearranged registry graph')
include h

theorem contains (id : Key) : graph'.contains id = graph.contains id := h.nodes.any_eq

theorem targets (id : Key) (branch : Value) : graph'.targets id branch = graph.targets id branch := by
  have hknown : graph'.contains = graph.contains := funext h.contains
  have hsplit : ∀ g : Graph, g.edges.filter
      (fun e => e.source == id && takes branch e && graph.contains e.target) =
        (g.edges.filter fun e => e.source == id).filter
          fun e => takes branch e && graph.contains e.target := by
    intro g
    rw [List.filter_filter]
    refine List.filter_congr fun e _ => ?_
    rw [Bool.and_assoc, Bool.and_comm]
  rw [Graph.targets, Graph.targets, hknown, hsplit, hsplit, h.leaving id]

theorem sources (id : Key) : graph'.sources id = graph.sources id := by
  have hknown : graph'.contains = graph.contains := funext h.contains
  have hsplit : ∀ g : Graph, g.edges.filter
      (fun e => e.target == id && graph.contains e.source) =
        (g.edges.filter fun e => e.target == id).filter fun e => graph.contains e.source := by
    intro g
    rw [List.filter_filter]
    exact List.filter_congr fun e _ => Bool.and_comm _ _
  rw [Graph.sources, Graph.sources, hknown, hsplit, hsplit, h.arriving id]

theorem search (start : Key) (fuel : Nat) : ∀ found queue,
    graph'.search start fuel found queue = graph.search start fuel found queue := by
  induction fuel with
  | zero => exact fun _ _ => rfl
  | succ fuel ih =>
    intro found queue
    cases queue with
    | nil => rfl
    | cons id queue => simp only [Graph.search, ih, h.targets]

/-- The search takes as many steps, for there are as many edges. -/
theorem body (id : Key) : graph'.body id = graph.body id := by
  rw [Graph.body, Graph.body, h.edges.length_eq, h.targets, h.search]

end Graph.Rearranged

/-! ## Workflows -/

/-- If something can be made of every item, that is what is made of all of them. -/
theorem Attempt.mapM_eq_filterMap {α β : Type} {f : α → Attempt β} {items : List α}
    (h : ∀ a ∈ items, ∃ b, f a = .ok b) :
    items.mapM f = .ok (items.filterMap fun a => (f a).toOption) := by
  induction items with
  | nil => rfl
  | cons a rest ih =>
    obtain ⟨⟨b, hb⟩, hrest⟩ := List.forall_mem_cons.1 h
    rw [List.mapM_cons, hb, ih hrest, List.filterMap_cons_some (by rw [hb]; rfl)]
    rfl

/-- The same workflow but for the order of its nodes and of its edges. The same node is the first
that can begin a run, and edges with a common end keep their order. -/
structure Workflow.Rearranged (registry : Registry) (w w' : Value) : Prop where
  id : w'.find? "id" = w.find? "id"
  name : w'.find? "name" = w.find? "name"
  nodes : ∃ nodes nodes', w.get "nodes" = .ok (.list nodes) ∧ w'.get "nodes" = .ok (.list nodes') ∧
    nodes'.Perm nodes ∧
    let starts := fun v => (Definition.ofValue v).toOption.any fun d => d.starts registry
    nodes'.find? starts = nodes.find? starts
  edges : ∃ edges edges', w.get "edges" = .ok (.list edges) ∧ w'.get "edges" = .ok (.list edges') ∧
    edges'.Perm edges ∧
    (∀ id, let leaves := fun v => (Edge.ofValue v).toOption.any fun e => e.source == id
      edges'.filter leaves = edges.filter leaves) ∧
    ∀ id, let arrives := fun v => (Edge.ofValue v).toOption.any fun e => e.target == id
      edges'.filter arrives = edges.filter arrives

/-- Of what is made of some items, that of a kind is made of the items of that kind. -/
theorem filter_filterMap_any {α β : Type} (f : α → Option β) (p : β → Bool) (items : List α) :
    (items.filterMap f).filter p = (items.filter fun a => (f a).any p).filterMap f := by
  induction items with
  | nil => rfl
  | cons a rest ih =>
    cases hf : f a with
    | none => simp [hf, ih]
    | some b => cases hp : p b <;> simp [hf, hp, ih]

/-- The graph of a workflow that lists its nodes and edges is read of these. -/
theorem Graph.ofValue_lists {w : Value} {nodes edges : List Value} {graph : Graph}
    (hnodes : w.get "nodes" = .ok (.list nodes)) (hedges : w.get "edges" = .ok (.list edges)) :
    Graph.ofValue w = .ok graph ↔ ∃ id name, w.find? "id" = .ok id ∧ w.find? "name" = .ok name ∧
      graph.id = id.getD (.text "unknown") ∧ graph.name = name.getD graph.id ∧
      nodes.mapM Definition.ofValue = .ok graph.nodes ∧
      edges.mapM Edge.ofValue = .ok graph.edges := by
  have hread : Graph.ofValue w = (do
      let id ← w.find? "id"
      let name ← w.find? "name"
      let ds ← nodes.mapM Definition.ofValue
      let es ← edges.mapM Edge.ofValue
      pure ⟨id.getD (.text "unknown"), name.getD (id.getD (.text "unknown")), ds, es⟩) := by
    rw [Graph.ofValue, hnodes, hedges]
    cases nodes <;> cases edges <;> rfl
  rw [hread]
  constructor
  · intro h
    obtain ⟨id, hid, h⟩ := Attempt.bind_ok h
    obtain ⟨name, hname, h⟩ := Attempt.bind_ok h
    obtain ⟨ds, hds, h⟩ := Attempt.bind_ok h
    obtain ⟨es, hes, h⟩ := Attempt.bind_ok h
    cases h
    exact ⟨id, name, hid, hname, rfl, rfl, hds, hes⟩
  · rintro ⟨id, name, hid, hname, hsame, hsame', hds, hes⟩
    obtain ⟨_, _, _, _⟩ := graph
    dsimp only at hsame hsame' hds hes
    subst hsame hsame'
    simp only [hid, hname, hds, hes, bind, Except.bind, pure, Except.pure]

/-- What has been made of every item can be made of the items in any order. -/
theorem Attempt.mapM_perm {α β : Type} {f : α → Attempt β} {items items' : List α} {made : List β}
    (h : items.mapM f = .ok made) (perm : items'.Perm items) :
    made = items.filterMap (fun a => (f a).toOption) ∧
      items'.mapM f = .ok (items'.filterMap fun a => (f a).toOption) := by
  have hmade : ∀ a ∈ items, ∃ b, f a = .ok b := by
    clear perm
    induction items generalizing made with
    | nil => simp
    | cons a rest ih =>
      rw [List.mapM_cons] at h
      obtain ⟨b, hb, h⟩ := Attempt.bind_ok h
      obtain ⟨others, hothers, h⟩ := Attempt.bind_ok h
      exact List.forall_mem_cons.2 ⟨⟨b, hb⟩, ih hothers⟩
  refine ⟨?_, Attempt.mapM_eq_filterMap fun a ha => hmade a (perm.mem_iff.1 ha)⟩
  rw [Attempt.mapM_eq_filterMap hmade] at h
  exact (Except.ok.inj h).symm

/-- A rearranged workflow has the rearranged graph. -/
theorem Workflow.Rearranged.graph {registry : Registry} {w w' : Value}
    (h : Workflow.Rearranged registry w w') {graph : Graph} (read : Graph.ofValue w = .ok graph) :
    ∃ graph', Graph.ofValue w' = .ok graph' ∧ graph.Rearranged registry graph' := by
  obtain ⟨nodes, nodes', hnodes, hnodes', hperm, hfirst⟩ := h.nodes
  obtain ⟨edges, edges', hedges, hedges', hperm', hleaving, harriving⟩ := h.edges
  obtain ⟨id, name, hid, hname, hsame, hsame', hds, hes⟩ :=
    (Graph.ofValue_lists hnodes hedges).1 read
  obtain ⟨hmade, hds'⟩ := Attempt.mapM_perm hds hperm
  obtain ⟨hmade', hes'⟩ := Attempt.mapM_perm hes hperm'
  let graph' : Graph := ⟨graph.id, graph.name,
    nodes'.filterMap fun v => (Definition.ofValue v).toOption,
    edges'.filterMap fun v => (Edge.ofValue v).toOption⟩
  have hread : Graph.ofValue w' = .ok graph' := (Graph.ofValue_lists hnodes' hedges').2
    ⟨id, name, h.id.trans hid, h.name.trans hname, hsame, hsame', hds', hes'⟩
  refine ⟨graph', hread, rfl, ?_, ?_, ?_, fun id => ?_, fun id => ?_⟩
  · rw [hmade]
    exact hperm.filterMap _
  · rw [hmade, List.find?_filterMap, List.find?_filterMap]
    exact congrArg (Option.bind · _) hfirst
  · rw [hmade']
    exact hperm'.filterMap _
  · rw [hmade', filter_filterMap_any, filter_filterMap_any, hleaving id]
  · rw [hmade', filter_filterMap_any, filter_filterMap_any, harriving id]

end WorkflowEngine
