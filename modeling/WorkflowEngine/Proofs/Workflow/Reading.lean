import WorkflowEngine.Proofs.Json.Values
import WorkflowEngine.Workflow

/-!
# Reading a definition

A decoded definition is read if and only if it has the shape of a workflow (`IsWorkflow`), which
asks for much less than the normal form that it is given: whatever counts as false stands for an
empty object, identifiers may be of any kind, and names and handles may be missing. What is read
holds the parts of the definition one by one (`Form.Of`). A definition of another shape is
complained about, and reading it fails in no other way (`ofValue_decides`).
-/

namespace WorkflowEngine.Workflow

/-! ## Normal forms -/

/-- An entry that is there or not. -/
def optional (name : String) (v : Option Value) : List (String × Value) := v.toList.map (name, ·)

theorem kept_eq (entries : Fields) (name : String) :
    kept entries name = optional name (entries.lookup (.text name)) := by
  unfold kept
  split <;> rename_i h <;> rw [h] <;> rfl

theorem decoded_orObject {v : Value} (h : v.Decoded) : (orObject v).Decoded :=
  h.orElse ⟨.object [], ⟨List.nodup_nil, trivial⟩, rfl⟩

/-- A node in normal form. -/
structure NodeForm where
  name : String
  type : String
  label : Value
  config : Fields
  position : Option Value
  named : name ≠ ""
  typed : type ≠ ""
  labelled : label.holds = true
  labelDecoded : label.Decoded
  configDecoded : (Value.dict config).Decoded
  positionDecoded : ∀ p ∈ position, p.Decoded

/-- The value that a node in normal form is. -/
def NodeForm.value (n : NodeForm) : Value :=
  .object ([("id", .text n.name), ("type", .text n.type),
    ("data", .object [("label", n.label), ("config", .dict n.config)])] ++
      optional "position" n.position)

/-- An edge in normal form. -/
structure EdgeForm where
  name : String
  source : String
  target : String
  sourceHandle : Option String
  targetHandle : Option String
  named : name ≠ ""
  leaves : source ≠ ""
  enters : target ≠ ""

/-- The value that an edge in normal form is. -/
def EdgeForm.value (e : EdgeForm) : Value :=
  .object ([("id", .text e.name), ("source", .text e.source), ("target", .text e.target)] ++
    optional "sourceHandle" (e.sourceHandle.map Value.text) ++
    optional "targetHandle" (e.targetHandle.map Value.text))

/-- A workflow in normal form. -/
structure Form where
  id : String
  name : String
  nodes : List NodeForm
  edges : List EdgeForm
  description : Option Value
  metadata : Option Value
  safe : isSafeId id = true
  named : name ≠ ""
  descriptionDecoded : ∀ v ∈ description, v.Decoded
  metadataDecoded : ∀ v ∈ metadata, v.Decoded

/-- The value that a workflow in normal form is. -/
def Form.value (f : Form) : Value :=
  .object ([("id", .text f.id), ("name", .text f.name),
    ("nodes", .list (f.nodes.map NodeForm.value)), ("edges", .list (f.edges.map EdgeForm.value))] ++
      optional "description" f.description ++ optional "metadata" f.metadata)

/-! ## The shape of a workflow -/

/-- The part of a value that has a name, if the value is an object with such an entry. -/
def part? (v : Value) (name : String) : Option Value :=
  match v with
  | .dict entries _ => entries.lookup (.text name)
  | _ => none

/-- The part of a value that has a name, null if there is none. -/
def part (v : Value) (name : String) : Value := (part? v name).getD .null

/-- The items of a list. -/
def itemsOf (v : Value) : List Value :=
  match v with
  | .list items _ => items
  | _ => []

/-- Whether a value is an object. -/
def IsObject (v : Value) : Prop := ∃ entries mark, v = .dict entries mark

/-- Whether a value is a list. -/
def IsList (v : Value) : Prop := ∃ items mark, v = .list items mark

/-- Whether a definition has the shape of a node. Data or settings that count as false are left out
of account, whatever they are. -/
structure IsNode (raw : Value) : Prop where
  isObject : IsObject raw
  named : (part raw "id").holds = true
  typed : (part raw "type").holds = true
  data : (part raw "data").holds = true → IsObject (part raw "data")
  config : (part (part raw "data") "config").holds = true →
    IsObject (part (part raw "data") "config")

/-- Whether a definition has the shape of an edge. -/
structure IsEdge (raw : Value) : Prop where
  isObject : IsObject raw
  leaves : (part raw "source").holds = true
  enters : (part raw "target").holds = true

/-- Whether a definition has the shape of a workflow. -/
structure IsWorkflow (raw : Value) : Prop where
  isObject : IsObject raw
  nodesListed : IsList (part raw "nodes")
  edgesListed : ∀ edges ∈ part? raw "edges", IsList edges
  safe : ∃ id, ((part raw "id").orElse (.text "workflow")).plain = .ok id ∧ isSafeId id = true
  nodes : ∀ node ∈ itemsOf (part raw "nodes"), IsNode node
  edges : ∀ edge ∈ itemsOf (part raw "edges"), IsEdge edge

/-! ## What is taken over from a definition -/

/-- What a node in normal form takes over from its definition. -/
structure NodeForm.Of (n : NodeForm) (raw : Value) : Prop where
  name : (part raw "id").plain = .ok n.name
  type : (part raw "type").plain = .ok n.type
  label : n.label = (part (part raw "data") "label").orElse (.text n.name)
  config : .dict n.config = orObject (part (part raw "data") "config")
  position : n.position = part? raw "position"

/-- What a handle of an edge takes over from its definition. -/
def HandleOf (handle : Option String) (raw : Value) : Prop :=
  if raw.isNull then handle = none else ∃ s, raw.plain = .ok s ∧ handle = some s

/-- What an edge in normal form takes over from its definition and its place. -/
structure EdgeForm.Of (e : EdgeForm) (raw : Value) (index : Nat) : Prop where
  name : if (part raw "id").holds then (part raw "id").plain = .ok e.name
    else e.name = edgeName index e.source e.target
  source : (part raw "source").plain = .ok e.source
  target : (part raw "target").plain = .ok e.target
  sourceHandle : HandleOf e.sourceHandle (part raw "sourceHandle")
  targetHandle : HandleOf e.targetHandle (part raw "targetHandle")

/-- What a workflow in normal form takes over from its definition: nodes and edges one by one and in
their order. -/
structure Form.Of (f : Form) (raw : Value) : Prop where
  id : ((part raw "id").orElse (.text "workflow")).plain = .ok f.id
  name : ((part raw "name").orElse (.text f.id)).plain = .ok f.name
  nodes : List.Forall₂ (fun raw n => NodeForm.Of n raw.1)
    (itemsOf (part raw "nodes")).zipIdx f.nodes
  edges : List.Forall₂ (fun raw e => EdgeForm.Of e raw.1 raw.2)
    (itemsOf (part raw "edges")).zipIdx f.edges
  description : f.description = part? raw "description"
  metadata : f.metadata = part? raw "metadata"

/-! ## Complaints -/

/-- Reading comes to a value if the shape is right, and to a complaint about the format
otherwise. -/
def Decides {α : Type} (a : Attempt α) (right : Prop) (good : α → Prop) : Prop :=
  (right ∧ ∃ v, a = .ok v ∧ good v) ∨ (¬ right ∧ ∃ fault, a = refuse fault)

namespace Decides

variable {α : Type} {a : Attempt α} {right : Prop} {good : α → Prop}

variable {β : Type} {b : Attempt β} {next : β → Attempt α}

theorem accepted {v : α} (h : right) (ha : a = .ok v) (hv : good v) : Decides a right good :=
  .inl ⟨h, v, ha, hv⟩

theorem refused {fault : FormatFault} (h : ¬ right) (ha : a = refuse fault) :
    Decides a right good :=
  .inr ⟨h, fault, ha⟩

/-- What is complained about early is not read on. -/
theorem stop {fault : FormatFault} (h : ¬ right) (hb : b = refuse fault) :
    Decides (b >>= next) right good :=
  .refused h (by rw [hb]; rfl)

/-- Once a part is read, the rest decides. -/
theorem step {v : β} (hb : b = .ok v) (h : Decides (next v) right good) :
    Decides (b >>= next) right good :=
  hb ▸ h

/-- If reading decides on a part that has its shape wherever the whole has, and then on the rest, it
decides on the whole. -/
theorem after {shaped : Prop} {fit : β → Prop} (hb : Decides b shaped fit) (need : right → shaped)
    (hnext : ∀ v, shaped → fit v → Decides (next v) right good) :
    Decides (b >>= next) right good := by
  obtain ⟨hshaped, v, hv, hfit⟩ | ⟨hwrong, fault, hb⟩ := hb
  · exact .step hv (hnext v hshaped hfit)
  · exact .stop (fun h => hwrong (need h)) hb

end Decides

@[simp] theorem part_dict (entries : Fields) (mark : Option Stamp) (name : String) :
    part (.dict entries mark) name = Value.ofField entries name := rfl

@[simp] theorem part?_dict (entries : Fields) (mark : Option Stamp) (name : String) :
    part? (.dict entries mark) name = entries.lookup (.text name) := rfl

/-- The entries are taken exactly of an object. -/
theorem fieldsOr_decides (fault : FormatFault) (v : Value) :
    Decides (fieldsOr fault v) (IsObject v) fun entries => ∃ mark, v = .dict entries mark := by
  unfold fieldsOr
  split
  · exact .accepted ⟨_, _, rfl⟩ rfl ⟨_, rfl⟩
  · rename_i hother
    exact .refused (fun ⟨entries, mark, h⟩ => hother entries mark h) rfl

/-- The items are taken exactly of a list. -/
theorem listOr_decides (fault : FormatFault) (v : Value) :
    Decides (listOr fault v) (IsList v) fun items => ∃ mark, v = .list items mark := by
  unfold listOr
  split
  · exact .accepted ⟨_, _, rfl⟩ rfl ⟨_, rfl⟩
  · rename_i hother
    exact .refused (fun ⟨items, mark, h⟩ => hother items mark h) rfl

theorem isObject_orObject {v : Value} : IsObject (orObject v) ↔ (v.holds = true → IsObject v) := by
  unfold orObject Value.orElse
  cases v.holds with
  | true => simp
  | false => exact ⟨fun _ h => (Bool.false_ne_true h).elim, fun _ => ⟨[], none, rfl⟩⟩

/-- An empty object in place of a value that counts as false has no other parts. -/
theorem part_orObject (v : Value) (name : String) : part (orObject v) name = part v name := by
  unfold orObject Value.orElse
  split
  · rfl
  · rename_i hv
    cases v with
    | dict entries mark =>
      cases entries with
      | nil => rfl
      | cons e rest => exact absurd rfl hv
    | _ => rfl

/-! ## Nodes -/

/-- **A node is read exactly if it has the shape of one.** -/
theorem readNode_decides {raw : Value} (hraw : raw.Decoded) (index : Nat) :
    Decides (readNode index raw) (IsNode raw) fun node =>
      ∃ n : NodeForm, n.value = node ∧ n.Of raw := by
  unfold readNode
  refine (fieldsOr_decides _ raw).after (·.isObject) ?_
  rintro entries - ⟨mark, rfl⟩
  dsimp only
  obtain ⟨name, hname⟩ := (hraw.ofField "id").plain_ok
  obtain ⟨type, htype⟩ := (hraw.ofField "type").plain_ok
  split
  · rename_i hid
    exact .refused (fun h => absurd h.named (by simpa using hid)) rfl
  rename_i hnamed
  split
  · rename_i hnone
    exact .step hname (.refused (fun h => absurd h.typed (by simpa using hnone)) rfl)
  rename_i htyped
  refine .step hname ?_
  have hpart (k : String) :
      part (part (.dict entries mark) "data") k =
        part (orObject (Value.ofField entries "data")) k :=
    (part_orObject _ k).symm
  have hdataDecoded := decoded_orObject (hraw.ofField "data")
  refine (fieldsOr_decides _ _).after (fun h => isObject_orObject.2 h.data) ?_
  rintro dataFields hdata ⟨dataMark, hdataFields⟩
  have hdataShape := isObject_orObject.1 hdata
  rw [hdataFields] at hpart hdataDecoded
  have hconfigDecoded := decoded_orObject (hdataDecoded.ofField "config")
  have hneeded (h : IsNode (.dict entries mark)) :
      IsObject (orObject (Value.ofField dataFields "config")) := by
    have hshape := h.config
    rw [hpart] at hshape
    exact isObject_orObject.2 hshape
  refine (fieldsOr_decides _ _).after hneeded ?_
  rintro config hconfig ⟨configMark, hconfigFields⟩
  have hconfigShape := isObject_orObject.1 hconfig
  rw [hconfigFields] at hconfigDecoded
  obtain rfl := hconfigDecoded.mark_eq
  refine .step (show plainText _ = .ok (.text type) by rw [plainText, htype]; rfl) ?_
  have hid : (Value.ofField entries "id").holds = true := by simpa using hnamed
  have hkind : (Value.ofField entries "type").holds = true := by simpa using htyped
  have hnonempty := (hraw.ofField "id").plain_ne hid hname
  refine .accepted ⟨⟨entries, mark, rfl⟩, hid, hkind, hdataShape, ?_⟩ rfl
    ⟨⟨name, type, (Value.ofField dataFields "label").orElse (.text name), config,
      entries.lookup (.text "position"), hnonempty, (hraw.ofField "type").plain_ne hkind htype,
      Value.holds_orElse (Value.holds_text hnonempty),
      (hdataDecoded.ofField "label").orElse (Value.decoded_text name), hconfigDecoded,
      fun p hp => hraw.lookup hp⟩, ?_, ⟨hname, htype, ?_, ?_, rfl⟩⟩
  · rw [hpart]
    exact hconfigShape
  · rw [NodeForm.value, ← kept_eq, ← hconfigFields]
    rfl
  · rw [hpart]
    rfl
  · rw [hpart]
    exact hconfigFields.symm

/-! ## Edges -/

/-- An end that counts as false is lacking. -/
theorem needEnd_decides {entries : Fields} {mark : Option Stamp}
    (hraw : (Value.dict entries mark).Decoded) (index : Nat) (name : String) :
    Decides (needEnd entries index name) ((Value.ofField entries name).holds = true)
      fun _ => True := by
  unfold needEnd
  cases hend : (Value.ofField entries name).holds with
  | true => exact .accepted rfl rfl trivial
  | false =>
    have hcalled : ∃ s, calledEdge entries index = .ok s := by
      unfold calledEdge
      split
      · rename_i id hid
        exact (hraw.lookup hid).plain_ok
      · exact ⟨_, rfl⟩
    obtain ⟨s, hs⟩ := hcalled
    exact .step hs (.refused Bool.false_ne_true rfl)

/-- The name that is made for an edge is not empty. -/
theorem edgeName_ne (index : Nat) (source target : String) : edgeName index source target ≠ "" := by
  simp [edgeName]

theorem readHandle_of {entries : Fields} {mark : Option Stamp}
    (hraw : (Value.dict entries mark).Decoded) (name : String) :
    ∃ handle : Option String,
      readHandle entries name = .ok (optional name (handle.map Value.text)) ∧
      HandleOf handle (Value.ofField entries name) := by
  unfold readHandle HandleOf
  dsimp only
  split
  · exact ⟨none, rfl, rfl⟩
  · obtain ⟨s, hs⟩ := (hraw.ofField name).plain_ok
    exact ⟨some s, by rw [plainText, hs]; rfl, s, hs, rfl⟩

/-- **An edge is read exactly if it has the shape of one.** -/
theorem readEdge_decides {raw : Value} (hraw : raw.Decoded) (index : Nat) :
    Decides (readEdge index raw) (IsEdge raw) fun edge =>
      ∃ e : EdgeForm, e.value = edge ∧ e.Of raw index := by
  unfold readEdge
  refine (fieldsOr_decides _ raw).after (·.isObject) ?_
  rintro entries - ⟨mark, rfl⟩
  refine (needEnd_decides hraw index "source").after (·.leaves) fun _ hleaves _ => ?_
  refine (needEnd_decides hraw index "target").after (·.enters) fun _ henters _ => ?_
  dsimp only
  obtain ⟨source, hsource⟩ := (hraw.ofField "source").plain_ok
  obtain ⟨target, htarget⟩ := (hraw.ofField "target").plain_ok
  refine .step hsource (.step htarget ?_)
  obtain ⟨sourceHandle, hsourceHandle, hsourceOf⟩ := readHandle_of hraw "sourceHandle"
  obtain ⟨targetHandle, htargetHandle, htargetOf⟩ := readHandle_of hraw "targetHandle"
  have hleft := (hraw.ofField "source").plain_ne hleaves hsource
  have hentered := (hraw.ofField "target").plain_ne henters htarget
  have hshape : IsEdge (.dict entries mark) := ⟨⟨entries, mark, rfl⟩, hleaves, henters⟩
  split
  · rename_i hid
    obtain ⟨name, hname⟩ := (hraw.ofField "id").plain_ok
    refine .step hname (.step hsourceHandle (.step htargetHandle (.accepted hshape rfl
      ⟨⟨name, source, target, sourceHandle, targetHandle, (hraw.ofField "id").plain_ne hid hname,
        hleft, hentered⟩, rfl, ⟨?_, hsource, htarget, hsourceOf, htargetOf⟩⟩)))
    rw [part_dict, if_pos hid]
    exact hname
  · rename_i hid
    refine .step rfl (.step hsourceHandle (.step htargetHandle (.accepted hshape rfl
      ⟨⟨edgeName index source target, source, target, sourceHandle, targetHandle,
        edgeName_ne index source target, hleft, hentered⟩, rfl,
        ⟨?_, hsource, htarget, hsourceOf, htargetOf⟩⟩)))
    rw [part_dict, if_neg hid]

/-! ## Whole workflows -/

theorem isSafeId_ne {id : String} (h : isSafeId id = true) : id ≠ "" := by
  rintro rfl
  cases h

/-- If reading decides on each item, it decides on all of them together. -/
theorem readAll_decides {form : Type} {value : form → Value} {read : Nat → Value → Attempt Value}
    {right : Value → Prop} {of : Value × Nat → form → Prop} {items : List Value}
    (hread : ∀ raw ∈ items, ∀ index, Decides (read index raw) (right raw) fun item =>
      ∃ f, value f = item ∧ of (raw, index) f) (index : Nat) :
    Decides (readAll read index items) (∀ raw ∈ items, right raw) fun made =>
      ∃ fs : List form, fs.map value = made ∧ List.Forall₂ of (items.zipIdx index) fs := by
  induction items generalizing index with
  | nil => exact .accepted (by simp) rfl ⟨[], rfl, .nil⟩
  | cons raw rest ih =>
    unfold readAll
    refine (hread raw (by simp) index).after (fun h => h raw (by simp)) ?_
    rintro item hright ⟨f, hf, hof⟩
    refine (ih (fun v hv => hread v (by simp [hv])) (index + 1)).after
      (fun h v hv => h v (by simp [hv])) ?_
    rintro others hrest ⟨fs, hfs, hofs⟩
    refine .accepted (List.forall_mem_cons.2 ⟨hright, hrest⟩) rfl
      ⟨f :: fs, by rw [List.map_cons, hf, hfs], ?_⟩
    rw [List.zipIdx_cons]
    exact .cons hof hofs

/-- Edges that are not given are none. -/
theorem edges_decides {entries : Fields} {mark : Option Stamp}
    (hraw : (Value.dict entries mark).Decoded) :
    Decides (listOr (.notListed "edges") ((entries.lookup (.text "edges")).getD (.list [])))
      (∀ edges ∈ part? (.dict entries mark) "edges", IsList edges) fun edges =>
        edges = itemsOf (part (.dict entries mark) "edges") ∧ ∀ e ∈ edges, e.Decoded := by
  rw [part, part?_dict]
  cases hlookup : entries.lookup (.text "edges") with
  | none => exact .accepted (by simp) rfl ⟨rfl, by simp⟩
  | some v =>
    have hv := hraw.lookup hlookup
    obtain ⟨hlisted, edges, hedges, mark, rfl⟩ | ⟨hunlisted, fault, hedges⟩ :=
      listOr_decides (.notListed "edges") v
    · refine .accepted ?_ hedges ⟨rfl, hv.items⟩
      rintro _ ⟨⟩
      exact hlisted
    · exact .refused (fun h => hunlisted (h v rfl)) hedges

/-- **A definition is read exactly if it has the shape of a workflow**, and complained about
otherwise. -/
theorem ofValue_decides {raw : Value} (hraw : raw.Decoded) :
    Decides (ofValue raw) (IsWorkflow raw) fun w => ∃ f : Form, f.value = w ∧ f.Of raw := by
  unfold ofValue
  refine (fieldsOr_decides _ raw).after (·.isObject) ?_
  rintro entries - ⟨mark, rfl⟩
  have hnodesDecoded := hraw.ofField "nodes"
  refine (listOr_decides _ _).after (·.nodesListed) ?_
  rintro nodes - ⟨nodesMark, hnodes⟩
  rw [hnodes] at hnodesDecoded
  refine (edges_decides hraw).after (·.edgesListed) ?_
  rintro edges hedgesListed ⟨hitems, hedgesDecoded⟩
  obtain ⟨id, hid⟩ := ((hraw.ofField "id").orElse (Value.decoded_text "workflow")).plain_ok
  refine .step hid ?_
  dsimp only
  split
  · rename_i hunsafe
    refine .refused (fun h => ?_) rfl
    obtain ⟨id', hid', hsafe⟩ := h.safe
    obtain rfl : id = id' := Except.ok.inj (hid.symm.trans hid')
    simp [hsafe] at hunsafe
  rename_i hsafe
  have hsafe : isSafeId id = true := by simpa using hsafe
  have hnameDecoded := (hraw.ofField "name").orElse (Value.decoded_text id)
  obtain ⟨name, hname⟩ := hnameDecoded.plain_ok
  refine .step hname ?_
  have hitemsNodes : itemsOf (part (.dict entries mark) "nodes") = nodes := by
    rw [part_dict, hnodes]
    rfl
  have hnodesRead : Decides (readAll readNode 0 nodes) (∀ node ∈ nodes, IsNode node) fun made =>
      ∃ fs : List NodeForm, fs.map NodeForm.value = made ∧
        List.Forall₂ (fun raw n => NodeForm.Of n raw.1) nodes.zipIdx fs :=
    readAll_decides (fun v hv => readNode_decides (hnodesDecoded.items v hv)) 0
  have hedgesRead : Decides (readAll readEdge 0 edges) (∀ edge ∈ edges, IsEdge edge) fun made =>
      ∃ fs : List EdgeForm, fs.map EdgeForm.value = made ∧
        List.Forall₂ (fun raw e => EdgeForm.Of e raw.1 raw.2) edges.zipIdx fs :=
    readAll_decides (fun v hv => readEdge_decides (hedgesDecoded v hv)) 0
  refine hnodesRead.after (fun h => hitemsNodes ▸ h.nodes) ?_
  rintro _ hnodeShapes ⟨nodeForms, rfl, hnodeForms⟩
  refine hedgesRead.after (fun h => hitems ▸ h.edges) ?_
  rintro _ hedgeShapes ⟨edgeForms, rfl, hedgeForms⟩
  refine .accepted
    ⟨⟨entries, mark, rfl⟩, ⟨nodes, nodesMark, hnodes⟩, hedgesListed, ⟨id, hid, hsafe⟩,
      hitemsNodes ▸ hnodeShapes, hitems ▸ hedgeShapes⟩ rfl
    ⟨⟨id, name, nodeForms, edgeForms, entries.lookup (.text "description"),
      entries.lookup (.text "metadata"), hsafe,
      hnameDecoded.plain_ne (Value.holds_orElse (Value.holds_text (isSafeId_ne hsafe))) hname,
      fun _ hv => hraw.lookup hv, fun _ hv => hraw.lookup hv⟩, ?_,
      ⟨hid, hname, hitemsNodes ▸ hnodeForms, hitems ▸ hedgeForms, rfl, rfl⟩⟩
  rw [Form.value, ← kept_eq, ← kept_eq]

end WorkflowEngine.Workflow
