import WorkflowEngine.Registry
import WorkflowEngine.Workflow

/-!
# The graph of a workflow that has been read

Whatever a workflow has been read from, it has a graph (`Workflow.parse_graph`), and its definitions
are fit for a run: identifiers and types are texts, and a node can be made of each of them. Several
definitions may share their identifier.
-/

namespace WorkflowEngine

/-- A definition that is fit for a run: it has texts for its identifier and its type, and a node of
the class that its type names can be made of it. -/
structure Definition.Fit (d : Definition) (type : String) : Prop where
  named : ∃ name, d.id = .text name
  typed : d.type = .ok (.text type)
  made : ∀ registry : Registry, ∃ node, registry.makeNode d.body = .ok node ∧
    node.cls = (registry.lookup type).getD .passthrough

namespace Workflow

/-- What is read has been read item by item. -/
theorem readAll_ok {read : Nat → Value → Attempt Value} {items made : List Value} {index : Nat}
    (h : readAll read index items = .ok made) :
    ∀ v ∈ made, ∃ index raw, read index raw = .ok v := by
  induction items generalizing index made with
  | nil =>
    cases h
    simp
  | cons raw rest ih =>
    obtain ⟨first, hfirst, h⟩ := Attempt.bind_ok h
    obtain ⟨others, hothers, h⟩ := Attempt.bind_ok h
    cases h
    exact List.forall_mem_cons.2 ⟨⟨index, raw, hfirst⟩, ih hothers⟩

theorem plainText_ok {v text : Value} (h : plainText v = .ok text) : ∃ s, text = .text s := by
  unfold plainText at h
  cases hplain : v.plain with
  | error f =>
    rw [hplain] at h
    cases h
  | ok s =>
    rw [hplain] at h
    exact ⟨s, (Except.ok.inj h).symm⟩

/-- A node that has been read, whatever it has been read from. -/
theorem readNode_object {index : Nat} {raw node : Value} (h : readNode index raw = .ok node) :
    ∃ name type label config rest, node = .object ([("id", .text name), ("type", .text type),
      ("data", .object [("label", label), ("config", config)])] ++ rest) := by
  obtain ⟨entries, -, h⟩ := Attempt.bind_ok h
  dsimp only at h
  split at h
  · cases h
  split at h
  · obtain ⟨_, -, hrefused⟩ := Attempt.bind_ok h
    cases hrefused
  obtain ⟨name, -, h⟩ := Attempt.bind_ok h
  obtain ⟨dataFields, -, h⟩ := Attempt.bind_ok h
  obtain ⟨_, -, h⟩ := Attempt.bind_ok h
  obtain ⟨type, htype, h⟩ := Attempt.bind_ok h
  obtain ⟨typeText, rfl⟩ := plainText_ok htype
  exact ⟨name, typeText, _, _, _, (Except.ok.inj h).symm⟩

/-- An edge that has been read, whatever it has been read from. -/
theorem readEdge_object {index : Nat} {raw edge : Value} (h : readEdge index raw = .ok edge) :
    ∃ name source target rest, edge = .object ([("id", .text name), ("source", .text source),
      ("target", .text target)] ++ rest) := by
  obtain ⟨entries, -, h⟩ := Attempt.bind_ok h
  obtain ⟨_, -, h⟩ := Attempt.bind_ok h
  obtain ⟨_, -, h⟩ := Attempt.bind_ok h
  dsimp only at h
  obtain ⟨source, -, h⟩ := Attempt.bind_ok h
  obtain ⟨target, -, h⟩ := Attempt.bind_ok h
  have hname : ∃ name, (do
      let sourceHandle ← readHandle entries "sourceHandle"
      let targetHandle ← readHandle entries "targetHandle"
      pure (.object ([("id", .text name), ("source", .text source), ("target", .text target)] ++
        sourceHandle ++ targetHandle))) = Except.ok (ε := Failure) edge := by
    split at h
    · obtain ⟨name, -, h⟩ := Attempt.bind_ok h
      exact ⟨name, h⟩
    · exact ⟨_, h⟩
  obtain ⟨name, h⟩ := hname
  obtain ⟨sourceHandle, -, h⟩ := Attempt.bind_ok h
  obtain ⟨targetHandle, -, h⟩ := Attempt.bind_ok h
  refine ⟨name, source, target, sourceHandle ++ targetHandle, (Except.ok.inj h).symm.trans ?_⟩
  rw [List.append_assoc]

/-- A node that has been read is the definition of a node. -/
theorem readNode_fit {index : Nat} {raw node : Value} (h : readNode index raw = .ok node) :
    ∃ d type, Definition.ofValue node = .ok d ∧ d.Fit type := by
  obtain ⟨name, type, label, config, rest, rfl⟩ := readNode_object h
  exact ⟨⟨.text name, _⟩, type, rfl, ⟨name, rfl⟩, rfl, fun registry => ⟨_, rfl, rfl⟩⟩

theorem readEdge_edge {index : Nat} {raw edge : Value} (h : readEdge index raw = .ok edge) :
    ∃ e, Edge.ofValue edge = .ok e := by
  obtain ⟨name, source, target, rest, rfl⟩ := readEdge_object h
  exact ⟨_, rfl⟩

theorem list_orElse (items : List Value) : (Value.list items).orElse (.list []) = .list items := by
  cases items <;> rfl

/-- **A workflow that has been read has a graph**, all of whose definitions are fit for a run. -/
theorem ofValue_graph {raw w : Value} (h : ofValue raw = .ok w) :
    ∃ graph, Graph.ofValue w = .ok graph ∧ ∀ d ∈ graph.nodes, ∃ type, d.Fit type := by
  obtain ⟨entries, -, h⟩ := Attempt.bind_ok h
  obtain ⟨_, -, h⟩ := Attempt.bind_ok h
  obtain ⟨_, -, h⟩ := Attempt.bind_ok h
  obtain ⟨id, -, h⟩ := Attempt.bind_ok h
  dsimp only at h
  split at h
  · cases h
  obtain ⟨name, -, h⟩ := Attempt.bind_ok h
  obtain ⟨nodes, hnodes, h⟩ := Attempt.bind_ok h
  obtain ⟨edges, hedges, h⟩ := Attempt.bind_ok h
  have hfit : ∀ v ∈ nodes, ∃ d type, Definition.ofValue v = .ok d ∧ d.Fit type := fun v hv =>
    let ⟨_, _, hread⟩ := readAll_ok hnodes v hv
    readNode_fit hread
  obtain ⟨definitions, hdefinitions⟩ := Attempt.mapM_total fun v hv =>
    let ⟨d, _, hd, _⟩ := hfit v hv
    ⟨d, hd⟩
  obtain ⟨arrows, harrows⟩ := Attempt.mapM_total fun v hv =>
    let ⟨_, _, hread⟩ := readAll_ok hedges v hv
    readEdge_edge hread
  refine ⟨⟨.text id, .text name, definitions, arrows⟩, ?_, fun d hd => ?_⟩
  · have hw := (Except.ok.inj h).symm
    have hgetNodes : w.get "nodes" = .ok (.list nodes) := by rw [hw]; rfl
    have hgetEdges : w.get "edges" = .ok (.list edges) := by rw [hw]; rfl
    have hid : w.find? "id" = .ok (some (.text id)) := by rw [hw]; rfl
    have hname : w.find? "name" = .ok (some (.text name)) := by rw [hw]; rfl
    simp only [Graph.ofValue, bind, Except.bind, hid, hname, hgetNodes, hgetEdges, list_orElse,
      Value.elements, hdefinitions, harrows]
    rfl
  · obtain ⟨v, hv, hd⟩ := Attempt.mapM_ok hdefinitions d hd
    obtain ⟨d', type, hd', hfit⟩ := hfit v hv
    obtain rfl := Except.ok.inj (hd.symm.trans hd')
    exact ⟨type, hfit⟩

/-- Whatever is parsed is read from some decoded definition. -/
theorem parse_ofValue {x w : Value} (h : parse x = .ok w) : ∃ raw, ofValue raw = .ok w := by
  have htext : ∀ source, ofText source = .ok w → ∃ raw, ofValue raw = .ok w := fun source h =>
    let ⟨raw, _, hraw⟩ := Attempt.bind_ok h
    ⟨raw, hraw⟩
  unfold parse at h
  split at h
  · exact htext _ h
  · unfold ofBytes at h
    split at h
    · exact htext _ h
    · cases h
  · exact ⟨x, h⟩

theorem parse_graph {x w : Value} (h : parse x = .ok w) :
    ∃ graph, Graph.ofValue w = .ok graph ∧ ∀ d ∈ graph.nodes, ∃ type, d.Fit type :=
  let ⟨_, hraw⟩ := parse_ofValue h
  ofValue_graph hraw

end Workflow

end WorkflowEngine
