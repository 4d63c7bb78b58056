import WorkflowEngine.Proofs.Execution.Recorded
import WorkflowEngine.Proofs.Workflow.Acceptance
import WorkflowEngine.Service.Routes

/-!
# What requests bring along

Whatever is sent as JSON is decoded, and so is the workflow that is read from it
(`readWorkflow?_spec`), which takes over entries as they are. A workflow of finite numbers keeps to
them when it is brought into its normal form (`finite_form`), so it can be sent back.
-/

namespace WorkflowEngine.Service

open Workflow

/-! ## Values that can be sent back -/

theorem areFinite_iff (items : List Value) :
    areFinite items = true ↔ ∀ v ∈ items, isFinite v = true := by
  induction items with
  | nil => simp [areFinite]
  | cons v vs ih => simp [areFinite, ih]

theorem fieldsAreFinite_iff (entries : Fields) :
    fieldsAreFinite entries = true ↔ ∀ e ∈ entries, isFinite e.2 = true := by
  induction entries with
  | nil => simp [fieldsAreFinite]
  | cons e rest ih => simp [fieldsAreFinite, ih]

theorem isFinite_list (items : List Value) (mark : Option Stamp) :
    isFinite (.list items mark) = true ↔ ∀ v ∈ items, isFinite v = true := by
  rw [isFinite, areFinite_iff]

theorem isFinite_dict (entries : Fields) (mark : Option Stamp) :
    isFinite (.dict entries mark) = true ↔ ∀ e ∈ entries, isFinite e.2 = true := by
  rw [isFinite, fieldsAreFinite_iff]

theorem isFinite_object (parts : List (String × Value)) :
    isFinite (.object parts) = true ↔ ∀ e ∈ parts, isFinite e.2 = true := by
  rw [Value.object, isFinite_dict, List.forall_mem_map]

theorem isFinite_lookup {entries : Fields} {mark : Option Stamp} {k : Key} {v : Value}
    (h : isFinite (.dict entries mark) = true) (hv : entries.lookup k = some v) :
    isFinite v = true :=
  (isFinite_dict entries mark).1 h _ (Entries.mem_of_lookup hv)

theorem isFinite_part? {raw v : Value} {name : String} (h : isFinite raw = true)
    (hv : part? raw name = some v) : isFinite v = true := by
  cases raw with
  | dict entries mark => exact isFinite_lookup h hv
  | _ => cases hv

theorem isFinite_part {raw : Value} (h : isFinite raw = true) (name : String) :
    isFinite (part raw name) = true := by
  rw [part]
  cases hv : part? raw name with
  | none => rfl
  | some v => exact isFinite_part? h hv

theorem isFinite_orElse {v w : Value} (hv : isFinite v = true) (hw : isFinite w = true) :
    isFinite (v.orElse w) = true := by
  unfold Value.orElse
  split
  · exact hv
  · exact hw

theorem isFinite_itemsOf {v item : Value} (h : isFinite v = true) (hitem : item ∈ itemsOf v) :
    isFinite item = true := by
  cases v with
  | list items mark => exact (isFinite_list items mark).1 h item hitem
  | _ => cases hitem

/-! ## Workflows in normal form -/

theorem mem_optional {name : String} {v : Option Value} {e : String × Value} :
    e ∈ Workflow.optional name v ↔ e.1 = name ∧ v = some e.2 := by
  obtain ⟨k, w⟩ := e
  cases v with
  | none => simp [Workflow.optional]
  | some v => simp [Workflow.optional, eq_comm]

theorem finite_node {n : NodeForm} {raw : Value} (hof : n.Of raw) (h : isFinite raw = true) :
    isFinite n.value = true := by
  have hdata := isFinite_part h "data"
  have hlabel : isFinite n.label = true := by
    rw [hof.label]
    exact isFinite_orElse (isFinite_part hdata "label") rfl
  have hconfig : isFinite (.dict n.config) = true := by
    rw [hof.config]
    exact isFinite_orElse (isFinite_part hdata "config") rfl
  rw [NodeForm.value, isFinite_object]
  intro e he
  rcases List.mem_append.1 he with he | he
  · simp only [List.mem_cons, List.not_mem_nil, or_false] at he
    rcases he with rfl | rfl | rfl
    · rfl
    · rfl
    · rw [isFinite_object]
      simp [hlabel, hconfig]
  · exact isFinite_part? h (hof.position ▸ (mem_optional.1 he).2)

theorem finite_edge (e : EdgeForm) : isFinite e.value = true := by
  rw [EdgeForm.value, isFinite_object]
  intro part hpart
  simp only [List.mem_append, List.mem_cons, List.not_mem_nil, or_false, mem_optional,
    Option.map_eq_some_iff] at hpart
  rcases hpart with ((rfl | rfl | rfl) | ⟨-, _, -, h⟩) | ⟨-, _, -, h⟩
  · rfl
  · rfl
  · rfl
  · rw [← h]
    rfl
  · rw [← h]
    rfl

/-- An item of the second row has a counterpart in the first. -/
theorem exists_left {α β : Type} {R : α → β → Prop} {as : List α} {bs : List β}
    (h : List.Forall₂ R as bs) {b : β} (hb : b ∈ bs) : ∃ a ∈ as, R a b := by
  induction h with
  | nil => cases hb
  | @cons a b' as bs hab _ ih =>
    rcases List.mem_cons.1 hb with rfl | hb
    · exact ⟨a, List.mem_cons_self, hab⟩
    · obtain ⟨a', ha', hR⟩ := ih hb
      exact ⟨a', List.mem_cons_of_mem _ ha', hR⟩

/-- A workflow of finite numbers keeps to them in its normal form. -/
theorem finite_form {f : Form} {raw : Value} (hof : f.Of raw) (h : isFinite raw = true) :
    isFinite f.value = true := by
  have hnodes : isFinite (.list (f.nodes.map NodeForm.value)) = true := by
    rw [isFinite_list, List.forall_mem_map]
    intro n hn
    -- the nodes in normal form go along with the items that were sent
    obtain ⟨⟨item, index⟩, hitem, hn⟩ := exists_left hof.nodes hn
    have hmem : item ∈ itemsOf (part raw "nodes") :=
      (List.mem_zipIdx' hitem).2 ▸ List.getElem_mem _
    exact finite_node hn (isFinite_itemsOf (isFinite_part h "nodes") hmem)
  have hedges : isFinite (.list (f.edges.map EdgeForm.value)) = true := by
    rw [isFinite_list, List.forall_mem_map]
    exact fun e _ => finite_edge e
  rw [Form.value, isFinite_object]
  intro e he
  simp only [List.mem_append, List.mem_cons, List.not_mem_nil, or_false, mem_optional,
    hof.description, hof.metadata] at he
  rcases he with ((rfl | rfl | rfl | rfl) | ⟨-, h'⟩) | ⟨-, h'⟩
  · rfl
  · rfl
  · exact hnodes
  · exact hedges
  · exact isFinite_part? h h'
  · exact isFinite_part? h h'

/-! ## Forms of requests -/

theorem asText?_eq {v w : Value} (h : asText? v = some w) : w = v := by
  cases v <;> cases h
  rfl

theorem asObject?_eq {v w : Value} (h : asObject? v = some w) : w = v := by
  cases v <;> cases h
  rfl

theorem mapM_asObject?_eq {items items' : List Value} (h : items.mapM asObject? = some items') :
    items' = items := by
  induction items generalizing items' with
  | nil =>
    cases h
    rfl
  | cons item rest ih =>
    rw [List.mapM_cons] at h
    obtain ⟨first, hfirst, h⟩ := Option.bind_eq_some_iff.1 h
    obtain ⟨others, hothers, h⟩ := Option.bind_eq_some_iff.1 h
    obtain rfl := Option.some.inj h
    rw [asObject?_eq hfirst, ih hothers]

theorem asObjects?_eq {v w : Value} (h : asObjects? v = some w) : w = v := by
  cases v with
  | list items mark =>
    obtain ⟨items', hitems, rfl⟩ := Option.map_eq_some_iff.1 h
    rw [mapM_asObject?_eq hitems]
  | _ => cases h

/-- What a request gives for a field: nothing, the entry of that name as it is, or what stands in for
one. -/
def Gives (entries : Fields) (name : String) (parts : List (String × Value)) : Prop :=
  parts = [] ∨ ∃ v, parts = [(name, v)] ∧
    (entries.lookup (.text name) = some v ∨ v = .text "" ∨ v = .list [])

section Fields

variable {entries : Fields} {name : String} {form : Value → Option Value}
  {parts : List (String × Value)} (same : ∀ {v w}, form v = some w → w = v)
include same

theorem gives_needed (h : needed entries name form = some parts) : Gives entries name parts := by
  obtain ⟨v, hv, h⟩ := Option.bind_eq_some_iff.1 h
  obtain ⟨w, hw, h⟩ := Option.bind_eq_some_iff.1 h
  obtain rfl := Option.some.inj h
  exact .inr ⟨w, rfl, .inl (same hw ▸ hv)⟩

theorem gives_standing {other : Value} (hother : other = .text "" ∨ other = .list [])
    (h : standing entries name form other = some parts) : Gives entries name parts := by
  unfold standing at h
  split at h
  · rename_i v hv
    obtain ⟨w, hw, rfl⟩ := Option.map_eq_some_iff.1 h
    exact .inr ⟨w, rfl, .inl (same hw ▸ hv)⟩
  · obtain rfl := Option.some.inj h
    exact .inr ⟨other, rfl, .inr hother⟩

theorem gives_dropping (h : dropping entries name form = some parts) :
    Gives entries name parts := by
  unfold dropping at h
  split at h
  · exact .inl (Option.some.inj h).symm
  · exact .inl (Option.some.inj h).symm
  · rename_i v _ hv
    obtain ⟨w, hw, rfl⟩ := Option.map_eq_some_iff.1 h
    exact .inr ⟨w, rfl, .inl (same hw ▸ hv)⟩

end Fields

/-- A workflow that is sent is made of entries of the body as they are, and of what stands in for
them. -/
theorem readWorkflow?_parts {raw sent : Value} (h : readWorkflow? raw = some sent) :
    ∃ entries mark parts, raw = .dict entries mark ∧ sent = .object parts ∧
      (parts.map Prod.fst).Sublist ["id", "name", "nodes", "edges", "description", "metadata"] ∧
      ∀ e ∈ parts, entries.lookup (.text e.1) = some e.2 ∨ e.2 = .text "" ∨ e.2 = .list [] := by
  cases raw with
  | dict entries mark =>
    obtain ⟨id, hid, h⟩ := Option.bind_eq_some_iff.1 h
    obtain ⟨title, htitle, h⟩ := Option.bind_eq_some_iff.1 h
    obtain ⟨nodes, hnodes, h⟩ := Option.bind_eq_some_iff.1 h
    obtain ⟨edges, hedges, h⟩ := Option.bind_eq_some_iff.1 h
    obtain ⟨description, hdescription, h⟩ := Option.bind_eq_some_iff.1 h
    obtain ⟨metadata, hmetadata, h⟩ := Option.bind_eq_some_iff.1 h
    have hid := gives_needed asText?_eq hid
    have htitle := gives_standing asText?_eq (.inl rfl) htitle
    have hnodes := gives_standing asObjects?_eq (.inr rfl) hnodes
    have hedges := gives_standing asObjects?_eq (.inr rfl) hedges
    have hdescription := gives_dropping asText?_eq hdescription
    have hmetadata := gives_dropping asObject?_eq hmetadata
    refine ⟨entries, mark, _, rfl, (Option.some.inj h).symm, ?_, ?_⟩
    · have hnames : ∀ {name parts}, Gives entries name parts →
          (parts.map Prod.fst).Sublist [name] := by
        rintro name parts (rfl | ⟨v, rfl, -⟩)
        · simp
        · simp
      simp only [List.map_append]
      exact ((((hnames hid).append (hnames htitle)).append (hnames hnodes)).append
        (hnames hedges)).append (hnames hdescription) |>.append (hnames hmetadata)
    · have hvalues : ∀ {name parts}, Gives entries name parts → ∀ e ∈ parts,
          entries.lookup (.text e.1) = some e.2 ∨ e.2 = .text "" ∨ e.2 = .list [] := by
        rintro name parts (rfl | ⟨v, rfl, hv⟩) e he
        · cases he
        · obtain rfl := List.mem_singleton.1 he
          exact hv
      intro e he
      simp only [List.mem_append] at he
      rcases he with ((((he | he) | he) | he) | he) | he
      · exact hvalues hid e he
      · exact hvalues htitle e he
      · exact hvalues hnodes e he
      · exact hvalues hedges e he
      · exact hvalues hdescription e he
      · exact hvalues hmetadata e he
  | _ => cases h

/-- A workflow that is sent is decoded as the body is, and of finite numbers as the body is. -/
theorem readWorkflow?_spec {raw sent : Value} (hraw : raw.Decoded)
    (h : readWorkflow? raw = some sent) :
    sent.Decoded ∧ (isFinite raw = true → isFinite sent = true) ∧
      ∀ s mark, sent ≠ .text s mark := by
  obtain ⟨entries, mark, parts, rfl, rfl, hnames, hparts⟩ := readWorkflow?_parts h
  refine ⟨Value.decoded_object (hnames.nodup (by decide)) fun e he => ?_, fun hfinite => ?_,
    fun _ _ => nofun⟩
  · rcases hparts e he with hv | hv | hv
    · exact hraw.lookup hv
    · exact hv ▸ Value.decoded_text ""
    · exact hv ▸ Value.decoded_list (by simp)
  · rw [isFinite_object]
    intro e he
    rcases hparts e he with hv | hv | hv
    · exact isFinite_lookup hfinite hv
    · rw [hv]
      rfl
    · rw [hv]
      rfl

/-- The reason that a request gives for an execution is one of those that are known. -/
theorem readOccasion?_known {raw : Value} {occasion : Occasion} (hraw : raw.Decoded)
    (h : readOccasion? raw = some occasion) :
    ∃ known ∈ triggerReasons, occasion.reason = .text known := by
  cases raw with
  | dict entries mark =>
    have hreason : ((entries.lookup (.text "triggered_by")).getD (.text "manual")).Decoded := by
      cases hlookup : entries.lookup (.text "triggered_by") with
      | none => exact Value.decoded_text "manual"
      | some v => exact hraw.lookup hlookup
    simp only [readOccasion?] at h
    split at h
    · rename_i hany
      obtain ⟨known, hknown, htext⟩ := List.any_eq_true.1 hany
      obtain rfl := Option.some.inj h
      exact ⟨known, hknown, hreason.eq_text htext⟩
    · cases h
  | _ => cases h

/-- What is sent as JSON is decoded. -/
theorem readBody_decoded {body : String} {v : Value} (h : readBody body = .ok (some v)) :
    v.Decoded := by
  unfold readBody at h
  split at h
  · cases h
  · split at h
    · cases h
    · split at h
      · rename_i j hread
        obtain rfl := Option.some.inj (Except.ok.inj h)
        exact ⟨j, Json.readable_read hread, rfl⟩
      · cases h

end WorkflowEngine.Service
