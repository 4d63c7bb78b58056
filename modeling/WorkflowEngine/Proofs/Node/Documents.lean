import WorkflowEngine.Proofs.Json.Documents
import WorkflowEngine.Proofs.Node.Storing

/-!
# Templates of JSON in nodes

A node that stores data and a node that sends a request both fill in a text and read what it becomes
as JSON. If the text is JSON itself, its placeholders stand between quotes, and what they refer to
has no quotes, backslashes and control characters in it, then both come to the same document, in
whose texts the placeholders have given way (`documents_filled`). What is put in is not escaped, so a
quote in it ends the text that it is put into, and more of it is read as JSON
(`variable_restructures`).
-/

namespace WorkflowEngine

open Template

/-! ## What is put in, and what it says -/

namespace Context

variable {context : Context} {pieces : List Piece} {references : List (List Char)}

/-- What stands in the place of a placeholder once a text is filled in. -/
def putting (context : Context) (reference : List Char) : List Char :=
  match context.lookup reference with
  | some v =>
    match v.toText context.toScopes with
    | .ok s => s.toList
    | .error _ => []
  | none => braced reference

/-- What a placeholder between quotes says once the text is filled in and read: the text of what it
refers to, or what it is read as itself if it refers to nothing. -/
def saying (context : Context) (reference : List Char) : List Char :=
  match context.lookup reference with
  | some _ => context.putting reference
  | none => Json.decoded (braced reference)

/-- Whichever of some placeholders refers to something stands within one text, and has nothing put
in its place that can do harm between quotes. -/
def Harmless (context : Context) (references : List (List Char)) : Prop :=
  ∀ reference ∈ references, ∀ v, context.lookup reference = some v →
    Json.quoteFree reference = true ∧ ∃ s, v.toText context.toScopes = .ok s ∧ Json.Harmless s.toList

theorem putting_none {reference : List Char} (h : context.lookup reference = none) :
    context.putting reference = braced reference := by
  simp only [putting, h]

theorem Harmless.putting_braced (h : context.Harmless references) :
    ∀ reference ∈ references, Json.quoteFree reference = false →
      context.putting reference = braced reference := by
  intro reference hmem hquote
  cases hlookup : context.lookup reference with
  | none => exact putting_none hlookup
  | some v =>
    rw [(h reference hmem v hlookup).1] at hquote
    cases hquote

theorem Harmless.mono {references' : List (List Char)} (h : context.Harmless references)
    (hsubset : references' ⊆ references) : context.Harmless references' :=
  fun reference hmem => h reference (hsubset hmem)

theorem Harmless.fits (h : context.Harmless references)
    (hfits : Json.Fits braced (Json.decoded ∘ braced) references) :
    Json.Fits context.putting context.saying references := by
  intro reference hmem
  cases hlookup : context.lookup reference with
  | none =>
    have hsaid : context.saying reference = Json.decoded (braced reference) := by
      simp only [saying, hlookup]
    rw [putting_none hlookup, hsaid]
    exact hfits reference hmem
  | some v =>
    obtain ⟨-, s, hs, hharmless⟩ := h reference hmem v hlookup
    have hput : context.putting reference = s.toList := by simp only [putting, hlookup, hs]
    have hsaid : context.saying reference = s.toList := by simp only [saying, hlookup, hput]
    rw [hput, hsaid]
    exact Json.spells_harmless hharmless

theorem Harmless.fill_eq (h : context.Harmless (Template.references pieces)) :
    fill context pieces = .ok (spell context.putting pieces) := by
  induction pieces with
  | nil => rfl
  | cons piece pieces ih =>
    cases piece with
    | char c =>
      rw [fill_cons, ih h]
      rfl
    | hole reference =>
      obtain ⟨hfirst, hothers⟩ := List.forall_mem_cons.1 h
      have hhole : (Piece.hole reference).fill context = .ok (context.putting reference) := by
        cases hlookup : context.lookup reference with
        | none => rw [fill_hole_none hlookup, putting_none hlookup]
        | some v =>
          obtain ⟨-, s, hs, -⟩ := hfirst v hlookup
          rw [fill_hole_some hlookup, hs]
          simp only [putting, hlookup, hs]
          rfl
      rw [fill_cons, hhole, ih hothers]
      rfl

end Context

/-- **A template of JSON is read as its document once it is filled in.** -/
theorem Json.exists_template {doc : String} {j : Json} (hread : Json.read doc = .ok j)
    (hpaired : Json.paired doc.toList = true) : ∃ d : Json.Document,
      d.references = (references (scan 0 doc.toList)).filter Json.quoteFree ∧
      d.value (Json.decoded ∘ braced) = j ∧
      ∀ context : Context, context.Harmless (references (scan 0 doc.toList)) → ∃ t,
        interpolate context doc = .ok t ∧ Json.read? t = some (d.value context.saying) := by
  have hwritten : Json.read (String.ofList
      (spell braced ((scan 0 doc.toList).flatMap Json.enclosed))) = .ok j := by
    rw [Json.spell_enclosed fun _ _ _ => rfl, spell_scan, String.ofList_toList, hread]
  obtain ⟨d, hreferences, hvalue, hfits, hreads⟩ :=
    Json.exists_document (Json.tidy_enclosed _ hpaired) hwritten
  rw [Json.references_enclosed] at hreferences
  refine ⟨d, hreferences, hvalue, fun context hharmless =>
    ⟨String.ofList (spell context.putting (scan 0 doc.toList)), ?_, ?_⟩⟩
  · rw [interpolate_eq, hharmless.fill_eq]
    rfl
  · -- a placeholder that reaches out of its text is left as it is, so it may count as plain characters
    have hsubset : d.references ⊆ references (scan 0 doc.toList) :=
      hreferences ▸ List.filter_subset_self _
    rw [Json.read?, ← Json.spell_enclosed hharmless.putting_braced,
      hreads _ _ ((hharmless.mono hsubset).fits hfits)]
    rfl

/-! ## Nodes -/

namespace Node

open LocalStore

variable {node : Node} {bench : Bench} {value : Value} {doc t : String} {mark : Option Stamp}

/-- A node that stores data keeps a value: it comes to the value, and keeps the text of it under its
key beside what is held in the store. -/
structure StoresAs (node : Node) (bench : Bench) (value : Value) (stored : String) : Prop where
  chosen : node.valueToStore.runOn bench = (.ok value, bench)
  written : storedText bench.state.toScopes value = .ok stored
  kept : ∀ {name key data}, node.cls.kind = .storeData → bench.state.hasStorage = true →
    bench.world.backend = .local → (node.settings.entry "key" >>= Value.plain) = .ok name →
    interpolate bench.state.toContext name = .ok key →
    dataIn bench.world.files = .ok (.object data) → ∃ world,
      node.execute.runOn bench = (.ok (.plain (storingOutput key value bench.state.previous)),
        { bench with world := world }) ∧
      Stores bench.world world data key stored

/-- A node that makes requests sends a value along as JSON, beside whatever else is in the request. -/
structure SendsAs (node : Node) (bench : Bench) (method : String) (value : Value) : Prop where
  body : (node.bodyArgument method).runOn bench = (.ok [("json", value)], bench)
  request : ∀ {address url headers auth authHeaders}, node.requestMethod = .ok method →
    node.settings.entry "url" = .ok address → (Act.fillIn address).runOn bench = (.ok url, bench) →
    (node.settingOr "headers" (.dict []) >>= Value.asFields) = .ok headers →
    node.credentials = .ok (auth, authHeaders) → node.buildRequest.runOn bench =
      (.ok (.object ([("method", .text method), ("url", url),
        ("headers", .dict (Entries.putAll headers authHeaders)),
        ("timeout", bench.world.settings.requestTimeout)] ++ [("json", value)] ++ auth)), bench)

/-- A text that is JSON once it is filled in gives the value that it writes. -/
theorem valueToStore_json {j : Json} (hvalue : node.setting "value" = .ok (.text doc mark))
    (hsome : doc ≠ "") (hfilled : interpolate bench.state.toContext doc = .ok t)
    (hread : Json.read? t = some j) : node.valueToStore.runOn bench = (.ok j.toValue, bench) := by
  obtain ⟨mark', hkept⟩ := valueToStore_filled hvalue hsome hfilled
  rw [hkept, hread]
  rfl

/-- A text that is not JSON once it is filled in gives the text that it becomes. -/
theorem valueToStore_text (hvalue : node.setting "value" = .ok (.text doc mark)) (hsome : doc ≠ "")
    (hfilled : interpolate bench.state.toContext doc = .ok t) (hread : Json.read? t = none) :
    ∃ mark', node.valueToStore.runOn bench = (.ok (.text t mark'), bench) := by
  obtain ⟨mark', hkept⟩ := valueToStore_filled hvalue hsome hfilled
  refine ⟨mark', ?_⟩
  rw [hkept, hread]
  rfl

theorem storesAs_json {j : Json} (hvalue : node.setting "value" = .ok (.text doc mark))
    (hsome : doc ≠ "") (hfilled : interpolate bench.state.toContext doc = .ok t)
    (hread : Json.read? t = some j) : ∃ stored, node.StoresAs bench j.toValue stored := by
  have hchosen : node.valueToStore.runOn bench = _ :=
    valueToStore_json hvalue hsome hfilled hread
  obtain ⟨stored, hstored⟩ :=
    storedText_ok (Json.saysJson_toValue _ (readable_read? hread)) bench.state.toScopes
  refine ⟨stored, hchosen, hstored, fun hkind hstorage hlocal hname hkey hdata => ?_⟩
  exact (Ready.execute ⟨⟨_, hname, hkey⟩, hchosen, hstored⟩ hkind hstorage hlocal).1 _ hdata

theorem bodyArgument_json {j : Json} {method : String}
    (hbody : node.setting "body" = .ok (.text doc mark)) (hsome : doc ≠ "")
    (hmethod : method ∈ bodyMethods) (hfilled : interpolate bench.state.toContext doc = .ok t)
    (hread : Json.read? t = some j) :
    (node.bodyArgument method).runOn bench = (.ok [("json", j.toValue)], bench) := by
  obtain ⟨mark', hact⟩ := Act.runOn_fillIn mark hfilled
  rw [bodyArgument, hbody, Act.runOn_ofAttempt_bind]
  simp only [text_holds.2 hsome, List.contains_iff_mem.2 hmethod, Bool.not_true, Bool.or_self,
    Bool.false_eq_true, if_false]
  rw [Act.runOn_bind_of_ok hact]
  simp only [hread]
  rfl

theorem sendsAs_json {j : Json} {method : String}
    (hbody : node.setting "body" = .ok (.text doc mark)) (hsome : doc ≠ "")
    (hmethod : method ∈ bodyMethods) (hfilled : interpolate bench.state.toContext doc = .ok t)
    (hread : Json.read? t = some j) : node.SendsAs bench method j.toValue := by
  have hargument : (node.bodyArgument method).runOn bench = _ :=
    bodyArgument_json hbody hsome hmethod hfilled hread
  refine ⟨hargument, fun hname haddress hurl hheaders hauth => ?_⟩
  have hfields : (do (← node.settingOr "headers" (.dict [])).asFields : Attempt Fields) = _ :=
    hheaders
  rw [buildRequest, hname, Act.runOn_ofAttempt_bind, haddress, Act.runOn_ofAttempt_bind,
    Act.runOn_bind_of_ok hurl, hfields, Act.runOn_ofAttempt_bind, Act.runOn_get_bind,
    Act.runOn_bind_of_ok hargument, hauth, Act.runOn_ofAttempt_bind]
  rfl

theorem nonempty_of_read {j : Json} (h : Json.read doc = .ok j) : doc ≠ "" := by
  rintro rfl
  cases h

/-- **What a variable is does not change the structure of what is stored or sent.** A text that is
JSON, with every first half of a pair of units followed by its second, is a document with placeholders
in its texts: those that no quote ends the text in. Wherever these refer to texts without quotes,
backslashes and control characters, or to nothing, and the others to nothing, the node that stores
data and the node that sends a request with a body both come to the value of this document, with the
text of what a placeholder refers to in its place. -/
theorem documents_filled {doc : String} {j : Json} (hread : Json.read doc = .ok j)
    (hpaired : Json.paired doc.toList = true) : ∃ d : Json.Document,
      d.references = (references (scan 0 doc.toList)).filter Json.quoteFree ∧
      d.value (Json.decoded ∘ braced) = j ∧
      ∀ bench : Bench, bench.state.toContext.Harmless (references (scan 0 doc.toList)) →
        (∀ (node : Node) (mark : Option Stamp), node.setting "value" = .ok (.text doc mark) →
          ∃ stored, node.StoresAs bench (d.value bench.state.toContext.saying).toValue stored) ∧
        ∀ (node : Node) (mark : Option Stamp) (method : String),
          node.setting "body" = .ok (.text doc mark) → method ∈ ["POST", "PUT", "PATCH"] →
          node.SendsAs bench method (d.value bench.state.toContext.saying).toValue := by
  obtain ⟨d, hreferences, hvalue, hreads⟩ := Json.exists_template hread hpaired
  refine ⟨d, hreferences, hvalue, fun bench hharmless => ?_⟩
  obtain ⟨t, hfilled, hdocument⟩ := hreads _ hharmless
  have hsome := nonempty_of_read hread
  exact ⟨fun node mark hsetting => storesAs_json hsetting hsome hfilled hdocument,
    fun node mark method hbody hmethod => sendsAs_json hbody hsome hmethod hfilled hdocument⟩

/-- A node that is to keep what a template says under `k`. -/
def templateStoring (doc : String) : Node where
  id := .text "s"
  type := .text "store-data"
  label := .text "s"
  settings := .dict [(.text "key", .text "k"), (.text "value", .text doc)]
  cls := { name := "StoreDataNode", kind := .storeData }

/-- A node that is to send what a template says. -/
def templateRequest (doc : String) : Node where
  id := .text "r"
  type := .text "http-request"
  label := .text "r"
  settings := .dict [(.text "url", .text "http://localhost"), (.text "method", .text "post"),
    (.text "body", .text doc)]
  cls := { name := "HttpRequestNode", kind := .httpRequest }

/-- A run with an empty store and one variable. -/
def templateBench (v : String) : Bench where
  world := {}
  state := { vars := [(.text "name", .text v)], hasStorage := true }

/-- A document with a placeholder for the variable in one text. -/
def nameTemplate : String := "\x7b\"name\": \"\x7b\x7bname\x7d\x7d\"\x7d"

/-- An object with a text for a name. -/
def named (v : String) : Json := .object [("name", .text v)]

theorem readable_named (v : String) : (named v).Readable :=
  ⟨List.nodup_singleton _, trivial, trivial⟩

theorem documents_filled_name : ∃ world,
    (templateStoring nameTemplate).execute.runOn (templateBench "x \x7b1\x7d") =
      (.ok (.plain (storingOutput "k" (.object [("name", .text "x \x7b1\x7d")]) .null)),
        { templateBench "x \x7b1\x7d" with world := world }) ∧
    dataIn world.files =
      .ok (.object [("k", .text "\x7b\"name\": \"x \x7b1\x7d\"\x7d")]) ∧
    (templateRequest nameTemplate).buildRequest.runOn (templateBench "x \x7b1\x7d") =
      (.ok (.object [("method", .text "POST"), ("url", .text "http://localhost"), ("headers", .dict []),
        ("timeout", (templateBench "x \x7b1\x7d").world.settings.requestTimeout),
        ("json", .object [("name", .text "x \x7b1\x7d")])]), templateBench "x \x7b1\x7d") := by
  have hdoc : nameTemplate = (named "\x7b\x7bname\x7d\x7d").compact := rfl
  have hread := hdoc ▸ Json.read_compact (readable_named "\x7b\x7bname\x7d\x7d")
  have hreferences : references (scan 0 nameTemplate.toList) = [['n', 'a', 'm', 'e']] := rfl
  obtain ⟨d, -, -, hnodes⟩ := documents_filled hread rfl
  have hharmless : (templateBench "x \x7b1\x7d").state.toContext.Harmless
      (references (scan 0 nameTemplate.toList)) := by
    rw [hreferences]
    intro reference hmem v hv
    obtain rfl := List.mem_singleton.1 hmem
    obtain rfl := Option.some.inj hv
    exact ⟨rfl, "x \x7b1\x7d", rfl, by simp [Json.Harmless]⟩
  obtain ⟨hstoring, hsending⟩ := hnodes _ hharmless
  obtain ⟨stored, hstores⟩ := hstoring (templateStoring nameTemplate) none rfl
  -- what the document says is what the filled in text is read as
  have hvalue : (d.value (templateBench "x \x7b1\x7d").state.toContext.saying).toValue =
      (named "x \x7b1\x7d").toValue := by
    have hfilled : interpolate (templateBench "x \x7b1\x7d").state.toContext nameTemplate =
        .ok (named "x \x7b1\x7d").compact := rfl
    have hchosen : (templateStoring nameTemplate).valueToStore.runOn
        (templateBench "x \x7b1\x7d") = _ :=
      valueToStore_json rfl (nonempty_of_read hread) hfilled (Json.read?_compact (readable_named _))
    exact Except.ok.inj (Prod.mk.inj (hstores.chosen.symm.trans hchosen)).1
  have hsends := hsending (templateRequest nameTemplate) none "POST" rfl (by decide)
  rw [hvalue] at hstores hsends
  obtain ⟨world, hrun, hkept⟩ := hstores.kept rfl rfl rfl rfl rfl Mirrors.empty.data.held
  obtain rfl := Except.ok.inj hstores.written
  exact ⟨world, hrun, hkept.held, hsends.request rfl rfl rfl rfl rfl⟩

/-- An object with two entries where the template has one. -/
def twoEntries : Json := .object [("name", .text "x"), ("admin", .text "y")]

/-- **A variable can change the structure.** A quote in it ends the text that it is put into: what
follows is read as another entry, be it stored or sent, or the whole is no JSON any more and is stored
as plain text. A text of no characters can join two halves of a pair that were apart. -/
theorem variable_restructures :
    (templateStoring nameTemplate).valueToStore.runOn (templateBench "x\", \"admin\": \"y") =
      (.ok twoEntries.toValue, templateBench "x\", \"admin\": \"y") ∧
    ((templateRequest nameTemplate).bodyArgument "POST").runOn
        (templateBench "x\", \"admin\": \"y") =
      (.ok [("json", twoEntries.toValue)], templateBench "x\", \"admin\": \"y") ∧
    twoEntries.toValue ≠ (named "x\", \"admin\": \"y").toValue ∧
    (∃ mark, (templateStoring nameTemplate).valueToStore.runOn (templateBench "\"") =
      (.ok (.text "\x7b\"name\": \"\"\"\x7d" mark), templateBench "\"")) ∧
    (templateStoring "\"\\ud83d\x7b\x7bname\x7d\x7d\\ude00\"").valueToStore.runOn (templateBench "") =
      (.ok (.text "😀"), templateBench "") := by
  have hsome : nameTemplate ≠ "" := by simp [nameTemplate]
  have htwo : twoEntries.Readable := ⟨by decide, trivial, trivial, trivial⟩
  have hrestructured : interpolate (templateBench "x\", \"admin\": \"y").state.toContext nameTemplate =
      .ok twoEntries.compact := by rfl
  have hplain : Json.read? "\x7b\"name\": \"\"\"\x7d" = none :=
    Option.isNone_iff_eq_none.1 (by decide +kernel)
  have hpair : (Json.text "😀").compact = "\"\\ud83d\\ude00\"" := by rfl
  have hjoined : Json.read? "\"\\ud83d\\ude00\"" = some (.text "😀") :=
    hpair ▸ Json.read?_compact trivial
  refine ⟨?_, ?_, ?_, ?_, ?_⟩
  · exact valueToStore_json rfl hsome hrestructured (Json.read?_compact htwo)
  · exact bodyArgument_json rfl hsome (by decide) hrestructured (Json.read?_compact htwo)
  · intro heq
    exact absurd (congrArg List.length (Value.dict.inj heq).1) (by decide)
  · exact valueToStore_text rfl hsome rfl hplain
  · exact valueToStore_json rfl (by simp) rfl hjoined

end Node

end WorkflowEngine
