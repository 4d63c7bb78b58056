import WorkflowEngine.Proofs.Workflow.Reading

/-!
# The normal form of a workflow

Reading a definition gives it a normal form, and reading that form again changes nothing: no node or
edge is named anew, no label or setting is filled in a second time (`Form.read`). A workflow in
normal form is written as JSON and read back as itself, from the text or from a file that holds it
(`parse_dump`).
-/

namespace WorkflowEngine.Workflow

open Json Number Text

/-! ## Parts of an object -/

theorem lookup_object (parts : List (String × Value)) (name : String) :
    (parts.map fun (k, v) => (Key.text k, v)).lookup (.text name) = parts.lookup name := by
  induction parts with
  | nil => rfl
  | cons e rest ih =>
    obtain ⟨k, v⟩ := e
    have hkey : (Key.text name == Key.text k) = (name == k) := by
      rw [Bool.eq_iff_iff]
      simp
    rw [List.map_cons, List.lookup_cons, List.lookup_cons, hkey, ih]

theorem optional_decoded {v : Option Value} (h : ∀ p ∈ v, p.Decoded) (name : String) :
    ∀ e ∈ optional name v, e.2.Decoded := by
  intro e he
  obtain ⟨p, hp, rfl⟩ := List.mem_map.1 he
  exact h p (Option.mem_toList.1 hp)

theorem orObject_dict (entries : Fields) : orObject (.dict entries) = .dict entries := by
  cases entries <;> rfl

/-! ## Nodes -/

/-- A node in normal form is decoded. -/
theorem NodeForm.decoded (n : NodeForm) : n.value.Decoded := by
  have hdata : (Value.object [("label", n.label), ("config", .dict n.config)]).Decoded :=
    Value.decoded_object (by simp) (by simp [n.labelDecoded, n.configDecoded])
  refine Value.decoded_object (by cases n.position <;> simp [optional])
    (List.forall_mem_append.2 ⟨?_, optional_decoded n.positionDecoded _⟩)
  simp [Value.decoded_text, hdata]

/-- What is read from fields that are those of a node in normal form. -/
theorem readNode_fields (n : NodeForm) (index : Nat) (dataFields : Fields) {entries : Fields}
    (hid : Value.ofField entries "id" = .text n.name)
    (htype : Value.ofField entries "type" = .text n.type)
    (hdata : Value.ofField entries "data" = .dict dataFields)
    (hlabel : Value.ofField dataFields "label" = n.label)
    (hconfig : Value.ofField dataFields "config" = .dict n.config)
    (hposition : entries.lookup (.text "position") = n.position) :
    readNode index (.dict entries) = .ok n.value := by
  have hlabelled : n.label.orElse (.text n.name) = n.label := if_pos n.labelled
  unfold readNode NodeForm.value
  simp only [fieldsOr, bind, Except.bind, hid, htype, hdata, hconfig, hlabel, orObject_dict,
    Value.holds_text n.named, Value.holds_text n.typed, hlabelled, Bool.not_true,
    Bool.false_eq_true, if_false, Value.plain, plainText, hposition]
  cases n.position <;> rfl

/-- **A node in normal form is read as itself**, whatever its place. -/
theorem NodeForm.read (n : NodeForm) (index : Nat) : readNode index n.value = .ok n.value := by
  refine readNode_fields n index [(.text "label", n.label), (.text "config", .dict n.config)]
    rfl rfl rfl rfl rfl ?_
  rw [lookup_object]
  cases n.position <;> rfl

/-! ## Edges -/

/-- An edge in normal form is decoded. -/
theorem EdgeForm.decoded (e : EdgeForm) : e.value.Decoded := by
  have hhandle : ∀ handle : Option String, ∀ p ∈ handle.map Value.text, p.Decoded := by
    intro handle p hp
    obtain ⟨s, -, rfl⟩ := Option.map_eq_some_iff.1 hp
    exact Value.decoded_text s
  refine Value.decoded_object
    (by cases e.sourceHandle <;> cases e.targetHandle <;> simp [optional])
    (List.forall_mem_append.2 ⟨List.forall_mem_append.2 ⟨by simp [Value.decoded_text], ?_⟩, ?_⟩)
  · exact optional_decoded (hhandle e.sourceHandle) _
  · exact optional_decoded (hhandle e.targetHandle) _

theorem readHandle_text {entries : Fields} {name : String} {s : Option String}
    (h : entries.lookup (.text name) = s.map Value.text) :
    readHandle entries name = .ok (optional name (s.map Value.text)) := by
  unfold readHandle Value.ofField
  rw [h]
  cases s <;> rfl

theorem needEnd_text {entries : Fields} {name end_ : String} (index : Nat)
    (h : Value.ofField entries name = .text end_) (hne : end_ ≠ "") :
    needEnd entries index name = .ok () := by
  unfold needEnd
  rw [h, Value.holds_text hne]
  rfl

/-- What is read from fields that are those of an edge in normal form. -/
theorem readEdge_fields (e : EdgeForm) (index : Nat) {entries : Fields}
    (hid : Value.ofField entries "id" = .text e.name)
    (hsource : Value.ofField entries "source" = .text e.source)
    (htarget : Value.ofField entries "target" = .text e.target)
    (hsourceHandle : entries.lookup (.text "sourceHandle") = e.sourceHandle.map Value.text)
    (htargetHandle : entries.lookup (.text "targetHandle") = e.targetHandle.map Value.text) :
    readEdge index (.dict entries) = .ok e.value := by
  unfold readEdge
  simp only [fieldsOr, bind, Except.bind, needEnd_text index hsource e.leaves,
    needEnd_text index htarget e.enters, hid, hsource, htarget, Value.plain,
    Value.holds_text e.named, if_true, readHandle_text hsourceHandle, readHandle_text htargetHandle]
  rfl

/-- **An edge in normal form is read as itself**, whatever its place: it has its name already. -/
theorem EdgeForm.read (e : EdgeForm) (index : Nat) : readEdge index e.value = .ok e.value := by
  refine readEdge_fields e index rfl rfl rfl ?_ ?_ <;> rw [lookup_object] <;>
    cases e.sourceHandle <;> cases e.targetHandle <;> rfl

/-! ## Whole workflows -/

/-- If each item in normal form is read as itself, all of them are. -/
theorem readAll_read {form : Type} {value : form → Value} {read : Nat → Value → Attempt Value}
    (hread : ∀ f index, read index (value f) = .ok (value f)) (fs : List form) :
    ∀ index, readAll read index (fs.map value) = .ok (fs.map value) := by
  induction fs with
  | nil => exact fun _ => rfl
  | cons f fs ih =>
    intro index
    rw [List.map_cons, readAll, hread, ih]
    rfl

/-- What is read from a definition is a workflow in normal form. -/
theorem ofValue_form {raw w : Value} (hraw : raw.Decoded) (h : ofValue raw = .ok w) :
    ∃ f : Form, f.value = w := by
  obtain ⟨-, v, hv, f, hf, -⟩ | ⟨-, fault, hrefused⟩ := ofValue_decides hraw
  · exact ⟨f, hf.trans (Except.ok.inj (hv.symm.trans h))⟩
  · cases hrefused.symm.trans h

/-- A workflow in normal form is decoded. -/
theorem Form.decoded (f : Form) : f.value.Decoded := by
  have hnodes : (Value.list (f.nodes.map NodeForm.value)).Decoded :=
    Value.decoded_list (by simpa using fun n _ => n.decoded)
  have hedges : (Value.list (f.edges.map EdgeForm.value)).Decoded :=
    Value.decoded_list (by simpa using fun e _ => e.decoded)
  refine Value.decoded_object
    (by cases f.description <;> cases f.metadata <;> simp [optional])
    (List.forall_mem_append.2 ⟨List.forall_mem_append.2 ⟨?_, ?_⟩, ?_⟩)
  · simp [Value.decoded_text, hnodes, hedges]
  · exact optional_decoded f.descriptionDecoded _
  · exact optional_decoded f.metadataDecoded _

/-- What is read from fields that are those of a workflow in normal form. -/
theorem ofValue_fields (f : Form) {entries : Fields}
    (hid : Value.ofField entries "id" = .text f.id)
    (hname : Value.ofField entries "name" = .text f.name)
    (hnodes : Value.ofField entries "nodes" = .list (f.nodes.map NodeForm.value))
    (hedges : entries.lookup (.text "edges") = some (.list (f.edges.map EdgeForm.value)))
    (hdescription : entries.lookup (.text "description") = f.description)
    (hmetadata : entries.lookup (.text "metadata") = f.metadata) :
    ofValue (.dict entries) = .ok f.value := by
  have hidText : (Value.text f.id).orElse (.text "workflow") = .text f.id :=
    if_pos (Value.holds_text (isSafeId_ne f.safe))
  have hnameText : (Value.text f.name).orElse (.text f.id) = .text f.name :=
    if_pos (Value.holds_text f.named)
  unfold ofValue
  simp only [fieldsOr, listOr, bind, Except.bind, hid, hname, hnodes, hedges, hidText, hnameText,
    Option.getD_some, Value.plain, f.safe, Bool.not_true, Bool.false_eq_true, if_false,
    readAll_read NodeForm.read, readAll_read EdgeForm.read, kept_eq, hdescription, hmetadata]
  rfl

/-- **A workflow in normal form is read as itself.** -/
theorem Form.read (f : Form) : ofValue f.value = .ok f.value := by
  refine ofValue_fields f rfl rfl rfl rfl ?_ ?_ <;> rw [lookup_object] <;>
    cases f.description <;> cases f.metadata <;> rfl

/-! ## Written and read again -/

/-- One step of indentation by some blanks. -/
def indentation (n : Nat) : String := String.ofList (List.replicate n ' ')

/-- **A workflow in normal form is read back from its JSON text**, and from a file that holds it. -/
theorem Form.dump_read (f : Form) (indent : Nat) : ∃ text,
    dump f.value (some (indentation indent)) = .ok text ∧ parse (.text text) = .ok f.value ∧
      ofFile (toUtf8 text) = .ok f.value := by
  obtain ⟨j, hj, hvalue⟩ := f.decoded
  have hblank : ∀ c ∈ (indentation indent).toList, c = ' ' := by
    intro c hc
    rw [indentation, String.toList_ofList] at hc
    exact List.eq_of_mem_replicate hc
  have hgap : ∀ s ∈ some (indentation indent), Gap s.toList := by
    rintro s ⟨⟩ c hc
    rw [hblank c hc]
    rfl
  have hplain : Plain (j.render (some (indentation indent))).toList := by
    refine plain_renderIn ⟨some (indentation indent), 0⟩ ?_ j
    rintro s ⟨⟩ c hc
    rw [hblank c hc]
    decide
  have hread : ofText (j.render (some (indentation indent))) = .ok f.value := by
    rw [ofText, decodeText, read_render hgap hj]
    exact (congrArg ofValue hvalue).trans f.read
  refine ⟨j.render (some (indentation indent)), ?_, hread, ?_⟩
  · rw [dump, ← hvalue, toJson_toValue false j hj]
    rfl
  · rw [ofFile, utf8_toUtf8 hplain]
    dsimp only
    rw [unifyLineEnds_plain hplain, String.ofList_toList, hread]

/-- What is parsed from a decoded value is read from a decoded value, be it that one or what it
writes as a text. -/
theorem parse_decoded {x w : Value} (hx : x.Decoded) (h : parse x = .ok w) :
    ∃ raw : Value, raw.Decoded ∧ ofValue raw = .ok w := by
  obtain ⟨j, hj, rfl⟩ := hx
  cases j with
  | text s =>
    obtain ⟨raw, hraw, hw⟩ := Attempt.bind_ok (show ofText s = .ok w from h)
    refine ⟨raw, ?_, hw⟩
    unfold decodeText at hraw
    split at hraw
    · rename_i j hread
      exact ⟨j, readable_read hread, Except.ok.inj hraw⟩
    · split at hraw <;> cases hraw
  | _ => exact ⟨_, ⟨_, hj, rfl⟩, h⟩

/-- **Reading, writing and reading again changes nothing**: whatever decoded value is read as a
workflow, the workflow is read back from its JSON text with any indentation, from a file that holds
this text, and from itself. -/
theorem parse_dump {x w : Value} (hx : x.Decoded) (h : parse x = .ok w) (indent : Nat) : ∃ text,
    dump w (some (indentation indent)) = .ok text ∧ parse (.text text) = .ok w ∧
      ofFile (toUtf8 text) = .ok w ∧ parse w = .ok w := by
  obtain ⟨raw, hraw, hw⟩ := parse_decoded hx h
  obtain ⟨f, rfl⟩ := ofValue_form hraw hw
  obtain ⟨text, hdump, hparse, hfile⟩ := f.dump_read indent
  exact ⟨text, hdump, hparse, hfile, f.read⟩

/-- A definition that leaves much to the reader: an identifier that is no text, labels and settings
that do not count, an edge and a workflow without names. -/
def sketch : Json := .object [
  ("nodes", .list [
    .object [("id", .bool true), ("type", .text "manual"),
      ("data", .object [("label", .text ""), ("config", .null)])],
    .object [("id", .text "é\n😀"), ("type", .text "wait"), ("position", .null)]]),
  ("edges", .list [.object [("source", .bool true), ("target", .text "é\n😀")]]),
  ("metadata", .float (nearest false 1 10))]

/-- What is read from the definition. -/
def sketchForm : Value := .object [("id", .text "workflow"), ("name", .text "workflow"),
  ("nodes", .list [
    .object [("id", .text "True"), ("type", .text "manual"),
      ("data", .object [("label", .text "True"), ("config", .dict [])])],
    .object [("id", .text "é\n😀"), ("type", .text "wait"),
      ("data", .object [("label", .text "é\n😀"), ("config", .dict [])]), ("position", .null)]]),
  ("edges", .list [.object [("id", .text "e0-True-é\n😀"), ("source", .text "True"),
    ("target", .text "é\n😀")]]),
  ("metadata", .float (nearest false 1 10))]

theorem sketch_decoded : sketch.toValue.Decoded :=
  ⟨sketch, by simp [sketch, Readable, ReadableAll, ReadableEntries], rfl⟩

theorem parse_sketch : parse sketch.toValue = .ok sketchForm := by with_unfolding_all rfl

theorem parse_dump_sketch : ∃ text, dump sketchForm (some (indentation 4)) = .ok text ∧
    parse (.text text) = .ok sketchForm ∧ ofFile (toUtf8 text) = .ok sketchForm ∧
      parse sketchForm = .ok sketchForm :=
  parse_dump sketch_decoded parse_sketch 4

end WorkflowEngine.Workflow
