import WorkflowEngine.Node.Dispatch
import WorkflowEngine.Proofs.Expression.JsonTexts
import WorkflowEngine.Proofs.Node.Sorting
import WorkflowEngine.Proofs.Storage.Tables

/-!
# What a node keeps in the store

A node that stores data keeps a text under a key and answers with the value that the text is of. The
value is the setting, read as JSON if it is a text, or the output before in place of a setting that
does not count as true (`Chosen`); the store then differs from the store before in this one key
(`execute_storing`). A store whose file holds no object is left alone, and the node fails.
-/

namespace WorkflowEngine

open Text

/-! ## Settings that say JSON -/

namespace Value

variable {v w : Value} {vs : List Value} {entries : Fields} {name : String}

theorem literals_ok (h : ∀ v ∈ vs, ∃ s, v.literal = .ok s) : ∃ texts, literals vs = .ok texts := by
  induction vs with
  | nil => exact ⟨[], rfl⟩
  | cons v vs ih =>
    obtain ⟨first, hfirst⟩ := h v List.mem_cons_self
    obtain ⟨others, hothers⟩ := ih fun w hw => h w (List.mem_cons_of_mem _ hw)
    exact ⟨first :: others, by rw [literals, hfirst, Attempt.ok_bind, hothers]; rfl⟩

theorem fieldLiterals_ok (hkeys : ∀ e ∈ entries, ∃ s, e.1 = .text s)
    (h : ∀ e ∈ entries, ∃ s, e.2.literal = .ok s) :
    ∃ texts, fieldLiterals entries = .ok texts := by
  induction entries with
  | nil => exact ⟨[], rfl⟩
  | cons e rest ih =>
    obtain ⟨k, v⟩ := e
    obtain ⟨s, rfl⟩ := hkeys _ List.mem_cons_self
    obtain ⟨value, hvalue⟩ := h _ List.mem_cons_self
    obtain ⟨others, hothers⟩ := ih (fun e he => hkeys e (List.mem_cons_of_mem _ he))
      fun e he => h e (List.mem_cons_of_mem _ he)
    exact ⟨_ :: others, by rw [fieldLiterals, Key.literal, hvalue, hothers]; rfl⟩

theorem SaysJson.literal_ok (h : v.SaysJson) : ∃ s, v.literal = .ok s := by
  induction h with
  | int n mark short => exact ⟨_, integerText_short short⟩
  | list items mark parts ih =>
    obtain ⟨texts, htexts⟩ := literals_ok ih
    exact ⟨_, by rw [literal, htexts]; rfl⟩
  | dict entries mark keys parts ih =>
    obtain ⟨texts, htexts⟩ := fieldLiterals_ok keys ih
    exact ⟨_, by rw [literal, htexts]; rfl⟩
  | _ => exact ⟨_, rfl⟩

/-- A value that says JSON has a plain form. -/
theorem SaysJson.plain_ok (h : v.SaysJson) : ∃ s, v.plain = .ok s := by
  cases h with
  | text s mark => exact ⟨s, rfl⟩
  | int n mark short => exact (SaysJson.int n mark short).literal_ok
  | list items mark parts => exact (SaysJson.list items mark parts).literal_ok
  | dict entries mark keys parts => exact (SaysJson.dict entries mark keys parts).literal_ok
  | _ => exact ⟨_, rfl⟩

/-- What is found in a value that says JSON says JSON. -/
theorem SaysJson.get (h : v.SaysJson) (hw : v.get name = .ok w) : w.SaysJson := by
  cases h with
  | dict entries mark keys parts =>
    obtain rfl := Except.ok.inj hw
    exact lookup_getD parts _
  | _ => cases hw

theorem SaysJson.entry (h : v.SaysJson) {name : String} {w : Value} (hw : v.entry name = .ok w) :
    w.SaysJson := by
  cases h with
  | dict entries mark keys parts =>
    cases hlookup : entries.lookup (.text name) with
    | none =>
      simp only [Value.entry, hlookup] at hw
      cases hw
    | some w' =>
      simp only [Value.entry, hlookup] at hw
      exact Except.ok.inj hw ▸ parts _ (Entries.mem_of_lookup hlookup)
  | _ => cases hw

theorem SaysJson.find? (h : v.SaysJson) {name : String} {found : Option Value}
    (hfound : v.find? name = .ok found) : ∀ w ∈ found, w.SaysJson := by
  cases h with
  | dict entries mark keys parts =>
    obtain rfl := Except.ok.inj hfound
    exact fun w hw => parts _ (Entries.mem_of_lookup hw)
  | _ => cases hfound

theorem SaysJson.orElse (h : v.SaysJson) {w : Value} (hw : w.SaysJson) : (v.orElse w).SaysJson := by
  unfold Value.orElse
  split
  · exact h
  · exact hw

theorem SaysJson.getD {found : Option Value} (h : ∀ w ∈ found, w.SaysJson) {w : Value}
    (hw : w.SaysJson) : (found.getD w).SaysJson := by
  cases found with
  | none => exact hw
  | some v => exact h v rfl

end Value

/-! ## Actions -/

namespace Act

/-- Work, as an action, is the work in the world of the bench. -/
theorem runOn_ofWork_eq {α : Type} (work : Work α) (bench : Bench) :
    (ofWork work).runOn bench =
      ((work.runIn bench.world).1, { bench with world := (work.runIn bench.world).2 }) := by
  rw [ofWork, runOn_get_bind]
  cases hresult : work.runIn bench.world with
  | mk result w => cases result <;> rfl

/-- Work that comes to a value, as an action. -/
theorem runOn_ofWork {α : Type} {work : Work α} {a : Attempt α} {files : Files} {bench : Bench}
    (h : work.ComesTo bench.world a files) : ∃ journal, (ofWork work).runOn bench =
      (a, { bench with world := { bench.world with files := files, journal := journal } }) := by
  obtain ⟨journal, hrun⟩ := h
  exact ⟨journal, by rw [runOn_ofWork_eq, hrun]⟩

theorem runOn_bind_of_error {α γ : Type} {act : Act α} {next : α → Act γ} {bench bench' : Bench}
    {f : Failure} (h : act.runOn bench = (.error f, bench')) :
    (act >>= next).runOn bench = (.error f, bench') := by
  rw [runOn] at h
  rw [runOn, Keeps.run_bind, h]

/-- Filling in a text gives the text that it becomes. -/
theorem runOn_fillIn {s t : String} {bench : Bench} (mark : Option Stamp)
    (h : interpolate bench.state.toContext s = .ok t) :
    ∃ mark', (fillIn (.text s mark)).runOn bench = (.ok (.text t mark'), bench) := by
  cases hhole : Template.hasHole s with
  | true =>
    refine ⟨none, ?_⟩
    rw [fillIn]
    simp only [hhole, if_true]
    rw [runOn_state_bind, h]
    rfl
  | false =>
    -- a text without placeholders is handed on as it is
    obtain rfl := Except.ok.inj ((Template.interpolate_of_no_hole hhole).symm.trans h)
    refine ⟨mark, ?_⟩
    rw [fillIn]
    simp only [hhole]
    rfl

end Act

/-! ## The data store -/

namespace LocalStore

variable {files : Files} {data : List (String × Value)}

theorem valueOf_decoded {file : File} {v : Value} (h : valueOf file = .ok v) : v.Decoded := by
  unfold valueOf at h
  split at h
  · cases h
  · split at h
    · next j hread =>
      cases h
      exact ⟨j, Json.readable_read hread, rfl⟩
    · split at h
      · cases h
      · cases h
        exact Value.decoded_null

theorem foundAt_decoded {path : String} {file : Option File} {v : Value}
    (h : foundAt path file = .ok v) : v.Decoded := by
  unfold foundAt at h
  split at h
  · cases file with
    | none =>
      cases h
      exact Value.decoded_null
    | some file => exact valueOf_decoded h
  · cases h

theorem dataIn_decoded {v : Value} (h : dataIn files = .ok v) : v.Decoded := by
  unfold dataIn at h
  cases hfound : foundAt dataFile (files.lookup dataFile) with
  | error f =>
    rw [hfound] at h
    cases h
  | ok found =>
    rw [hfound] at h
    obtain rfl := Except.ok.inj h
    exact (foundAt_decoded hfound).orElse ⟨.object [], ⟨List.nodup_nil, trivial⟩, rfl⟩

/-- Data values that are held as an object are those of a table. -/
theorem Ledger.of_held (h : dataIn files = .ok (.object data)) : Ledger files data := by
  obtain ⟨hnodup, hparts⟩ := (dataIn_decoded h).fields_spec
  refine ⟨?_, fun e he => (hparts _ (List.mem_map_of_mem he)).2, h⟩
  rw [List.map_map] at hnodup
  exact List.Nodup.of_map Key.text (by rwa [List.map_map])

/-- An object of data values has texts for keys. -/
theorem held_of_dict {entries : Fields} {mark : Option Stamp}
    (h : dataIn files = .ok (.dict entries mark)) : ∃ data, dataIn files = .ok (.object data) := by
  obtain ⟨j, -, hvalue⟩ := dataIn_decoded h
  cases j <;> cases hvalue
  rename_i es
  refine ⟨es.map fun e => (e.1, e.2.toValue), ?_⟩
  rw [h, Value.object, List.map_map, Json.toFields_eq]
  rfl

/-- A data value is kept beside the others. -/
theorem dataSet_held {w : World} {v : Value} (h : dataIn w.files = .ok (.object data))
    (key : String) (decoded : v.Decoded) :
    ∃ file, dataSet w (.text key) v = (.ok .null, Entries.put dataFile file w.files) ∧
      Ledger (Entries.put dataFile file w.files) (Entries.put key v data) := by
  obtain ⟨file, hput, hwritten, hledger⟩ := (Ledger.of_held h).put key decoded
  refine ⟨file, ?_, hledger⟩
  rw [dataSet, hput]
  dsimp only
  rw [hwritten]
  rfl

/-- If no object is held, no data value can be kept, and the files stay as they are. -/
theorem dataSet_refused {w : World} (h : ∀ data, dataIn w.files ≠ .ok (.object data))
    (key v : Value) : ∃ f, dataSet w key v = (.error f, w.files) := by
  unfold dataSet
  cases hdata : dataIn w.files with
  | error f => exact ⟨f, rfl⟩
  | ok held =>
    cases held with
    | dict entries mark =>
      obtain ⟨data, hheld⟩ := held_of_dict hdata
      exact absurd hheld (h data)
    | _ => exact ⟨_, rfl⟩

end LocalStore

/-- One text has been kept beside the data values that were held, and nothing else in the files has
changed. -/
structure LocalStore.Stores (w w' : World) (data : List (String × Value)) (key stored : String) :
    Prop where
  held : LocalStore.dataIn w'.files = .ok (.object (Entries.put key (.text stored) data))
  files : ∀ path, path ≠ LocalStore.dataFile → w'.files.lookup path = w.files.lookup path
  found : ∀ k, ((Store.getData (.text k)).runIn w').1 =
    if k = key then .ok (.text stored) else ((Store.getData (.text k)).runIn w).1

theorem LocalStore.Ledger.getData {w : World} {data : List (String × Value)}
    (h : LocalStore.Ledger w.files data) (hlocal : w.backend = .local) (k : String) :
    ((Store.getData (.text k)).runIn w).1 = .ok (LocalStore.Tables.valueAt data k) := by
  have hget : (Store.getData (.text k)).ComesTo w _ w.files :=
    Work.ComesTo.on_local hlocal (LocalStore.getData_comesTo (.text k) w)
  obtain ⟨journal, hrun⟩ := hget
  rw [hrun, h.get]

theorem LocalStore.stores_put {w : World} {data : List (String × Value)} {key stored : String}
    {file : File} (hlocal : w.backend = .local)
    (hdata : LocalStore.dataIn w.files = .ok (.object data))
    (h : LocalStore.Ledger (Entries.put LocalStore.dataFile file w.files)
      (Entries.put key (.text stored) data)) (journal : List Entry) :
    LocalStore.Stores w
      { w with files := Entries.put LocalStore.dataFile file w.files, journal := journal }
      data key stored where
  held := h.held
  files := fun path hpath => by rw [Entries.lookup_put, if_neg (by simpa using hpath)]
  found := fun k => by
    let w' : World :=
      { w with files := Entries.put LocalStore.dataFile file w.files, journal := journal }
    -- both stores are ledgers, and the tables behind them differ in one entry
    have hafter := LocalStore.Ledger.getData (w := w') h hlocal k
    rw [hafter, (LocalStore.Ledger.of_held hdata).getData hlocal, LocalStore.Tables.valueAt,
      Entries.lookup_put]
    simp only [beq_iff_eq]
    split <;> rfl

/-! ## What a node keeps -/

namespace Node

open LocalStore

variable {node : Node} {bench : Bench} {context : Context} {raw value : Value}
variable {name key stored : String} {data : List (String × Value)}

/-- The value that a node keeps for a setting. -/
inductive Chosen (context : Context) (raw : Value) : Value → Prop where
  /-- A setting that does not count as true gives way to the output before. -/
  | previous (falsy : raw.holds = false) : Chosen context raw context.previous
  /-- A text that is JSON once it is filled in gives the value that it writes. -/
  | json {s t : String} {mark : Option Stamp} {j : Json} (text : raw = .text s mark) (nonempty : s ≠ "")
    (filled : interpolate context s = .ok t) (read : Json.read? t = some j) :
    Chosen context raw j.toValue
  /-- Any other text gives the text that it becomes. -/
  | text {s t : String} {mark : Option Stamp} (text : raw = .text s mark) (nonempty : s ≠ "")
    (filled : interpolate context s = .ok t) (read : Json.read? t = none) (mark' : Option Stamp) :
    Chosen context raw (.text t mark')
  /-- Any other setting gives itself. -/
  | given (truthy : raw.holds = true) (other : ∀ s mark, raw ≠ .text s mark) :
    Chosen context raw raw

theorem text_holds {s : String} {mark : Option Stamp} :
    (Value.text s mark).holds = true ↔ s ≠ "" := by
  simp [Value.holds, Value.isTrue]

theorem readable_read? {t : String} {j : Json} (h : Json.read? t = some j) : j.Readable := by
  unfold Json.read? at h
  cases hread : Json.read t with
  | error c =>
    rw [hread] at h
    cases h
  | ok j' =>
    rw [hread] at h
    obtain rfl := Option.some.inj h
    exact Json.readable_read hread

theorem Chosen.saysJson (h : Chosen context raw value) (hcontext : context.SaysJson)
    (hraw : raw.SaysJson) : value.SaysJson := by
  cases h with
  | previous => exact hcontext.previous
  | json _ _ _ read => exact Json.saysJson_toValue _ (readable_read? read)
  | text => exact .text _ _
  | given => exact hraw

/-- A text that is filled in gives the value that it then writes, or itself if it is no JSON. -/
theorem valueToStore_filled {s t : String} {mark : Option Stamp}
    (hvalue : node.setting "value" = .ok (.text s mark)) (hsome : s ≠ "")
    (hfilled : interpolate bench.state.toContext s = .ok t) : ∃ mark',
    node.valueToStore.runOn bench =
      (.ok (((Json.read? t).map Json.toValue).getD (.text t mark')), bench) := by
  obtain ⟨mark', hact⟩ := Act.runOn_fillIn mark hfilled
  refine ⟨mark', ?_⟩
  rw [valueToStore, hvalue, Act.runOn_ofAttempt_bind]
  simp only [text_holds.2 hsome, Bool.not_true, Bool.false_eq_true, if_false]
  rw [Act.runOn_bind_of_ok hact]
  cases hread : Json.read? t with
  | some j =>
    simp only [hread]
    rfl
  | none =>
    simp only [hread]
    rfl

/-- **In a context of JSON values a node has a value to keep for every setting.** -/
theorem valueToStore_runOn (hraw : node.setting "value" = .ok raw)
    (hcontext : bench.state.toContext.SaysJson) :
    ∃ value, node.valueToStore.runOn bench = (.ok value, bench) ∧
      Chosen bench.state.toContext raw value := by
  cases hholds : raw.holds with
  | false =>
    refine ⟨bench.state.previous, ?_, .previous hholds⟩
    rw [valueToStore, hraw, Act.runOn_ofAttempt_bind, hholds]
    rfl
  | true =>
    cases raw with
    | text s mark =>
      have hsome := text_holds.1 hholds
      obtain ⟨t, hfilled⟩ := Template.interpolate_ok hcontext s
      obtain ⟨mark', hkept⟩ := valueToStore_filled hraw hsome hfilled
      cases hread : Json.read? t with
      | some j => exact ⟨j.toValue, by rw [hkept, hread]; rfl, .json rfl hsome hfilled hread⟩
      | none => exact ⟨.text t mark', by rw [hkept, hread]; rfl, .text rfl hsome hfilled hread mark'⟩
    | _ =>
      refine ⟨_, ?_, .given hholds fun _ _ heq => by cases heq⟩
      rw [valueToStore, hraw, Act.runOn_ofAttempt_bind, hholds]
      rfl

/-- The text that a value is kept as, for a value that says JSON. -/
theorem storedText_ok (h : value.SaysJson) (scopes : Scopes) :
    ∃ stored, storedText scopes value = .ok stored := by
  cases h with
  | text s mark => exact ⟨s, rfl⟩
  | null => exact Value.SaysJson.null.jsonText_ok
  | bool b => exact (Value.SaysJson.bool b).jsonText_ok
  | int n mark short => exact (Value.SaysJson.int n mark short).jsonText_ok
  | float x mark => exact (Value.SaysJson.float x mark).jsonText_ok
  | list items mark parts => exact (Value.SaysJson.list items mark parts).jsonText_ok
  | dict entries mark keys parts => exact (Value.SaysJson.dict entries mark keys parts).jsonText_ok

/-! ## The node -/

/-- What a node answers that has kept a value. -/
def storingOutput (key : String) (value previous : Value) : Value :=
  .object [("stored", .bool true), ("key", .text key), ("value", value), ("previousData", previous)]

/-- A node that passes the check has a key, and settings to look for a value in. -/
theorem validateStoring_ok (h : validateStoring node = .ok ()) :
    ∃ entries mark key, node.settings = .dict entries mark ∧ entries.lookup (.text "key") = some key := by
  obtain ⟨key, hkey, h⟩ := Attempt.bind_ok h
  cases hsettings : node.settings with
  | dict entries mark =>
    rw [setting, hsettings] at hkey
    cases hlookup : entries.lookup (.text "key") with
    | some v => exact ⟨entries, mark, v, rfl, hlookup⟩
    | none =>
      have hnull : ((entries.lookup (.text "key")).getD .null) = key := Except.ok.inj hkey
      rw [hlookup, Option.getD_none] at hnull
      subst hnull
      cases h
  | _ =>
    rw [setting, hsettings] at hkey
    cases hkey

/-- What a node is about to keep: the key, the value, and the text that the value is kept as. -/
structure Ready (node : Node) (bench : Bench) (key : String) (value : Value) (stored : String) :
    Prop where
  named : ∃ name, (node.settings.entry "key" >>= Value.plain) = .ok name ∧
    interpolate bench.state.toContext name = .ok key
  chosen : node.valueToStore.runOn bench = (.ok value, bench)
  written : storedText bench.state.toScopes value = .ok stored

/-- The whole of what the node does is to keep the text. -/
theorem runStoring_runOn (h : node.Ready bench key value stored)
    (hstorage : bench.state.hasStorage = true) {a : Attempt Value} {files : Files}
    (hset : (Store.setData (.text key) (.text stored)).ComesTo bench.world a files) :
    ∃ journal, node.runStoring.runOn bench =
      (a.map fun _ => .plain (storingOutput key value bench.state.previous),
        { bench with world := { bench.world with files := files, journal := journal } }) := by
  obtain ⟨name, hname, hkey⟩ := h.named
  obtain ⟨journal, hkeep⟩ := Act.runOn_ofWork hset
  refine ⟨journal, ?_⟩
  rw [runStoring, Act.runOn_state_bind]
  simp only [hstorage, Bool.not_true, Bool.false_eq_true, if_false]
  have hname' : (do (← node.settings.entry "key").plain : Attempt String) = .ok name := hname
  rw [hname', Act.runOn_ofAttempt_bind, hkey, Act.runOn_ofAttempt_bind,
    Act.runOn_bind_of_ok h.chosen, h.written, Act.runOn_ofAttempt_bind]
  cases a with
  | error f => exact Act.runOn_bind_of_error hkeep
  | ok _ =>
    rw [Act.runOn_bind_of_ok hkeep]
    rfl

/-- **A node that is ready keeps its text beside the data values that are held.** If no object is
held, it fails and changes nothing but the journal. -/
theorem Ready.execute (h : node.Ready bench key value stored) (hkind : node.cls.kind = .storeData)
    (hstorage : bench.state.hasStorage = true) (hlocal : bench.world.backend = .local) :
    (∀ data, dataIn bench.world.files = .ok (.object data) →
      ∃ world, node.execute.runOn bench =
          (.ok (.plain (storingOutput key value bench.state.previous)),
            { bench with world := world }) ∧
        Stores bench.world world data key stored) ∧
    ((∀ data, dataIn bench.world.files ≠ .ok (.object data)) →
      ∃ f journal, node.execute.runOn bench =
        (.error f, { bench with world := { bench.world with journal := journal } })) := by
  have hrun : node.execute = node.runStoring := by simp only [Node.execute, hkind]
  have hset : (Store.setData (.text key) (.text stored)).ComesTo bench.world _ _ :=
    Work.ComesTo.on_local hlocal (setData_comesTo (.text key) (.text stored) bench.world)
  rw [hrun]
  refine ⟨fun data hdata => ?_, fun hnone => ?_⟩
  · obtain ⟨file, hkept, hledger⟩ := dataSet_held hdata key (Value.decoded_text stored)
    rw [hkept] at hset
    obtain ⟨journal, hact⟩ := runStoring_runOn h hstorage hset
    exact ⟨_, hact, stores_put hlocal hdata hledger journal⟩
  · obtain ⟨f, hrefused⟩ := dataSet_refused hnone (.text key) (.text stored)
    rw [hrefused] at hset
    obtain ⟨journal, hact⟩ := runStoring_runOn h hstorage hset
    exact ⟨f, journal, hact⟩

/-- **A node that passes the check is ready in every context of JSON values**, with the value that its
setting chooses. -/
theorem ready_of_validate (hjson : node.settings.SaysJson) (hvalid : validateStoring node = .ok ())
    (hcontext : bench.state.toContext.SaysJson) : ∃ raw key value stored,
      node.setting "value" = .ok raw ∧ Chosen bench.state.toContext raw value ∧
      node.Ready bench key value stored := by
  obtain ⟨entries, mark, keySetting, hsettings, hlookup⟩ := validateStoring_ok hvalid
  have hentry : node.settings.entry "key" = .ok keySetting := by
    rw [hsettings, Value.entry, hlookup]
  have hkeyFound : node.settings.get "key" = .ok keySetting := by
    rw [hsettings, Value.get, Value.find?, hlookup]
    rfl
  have hkeyJson : keySetting.SaysJson := hjson.get hkeyFound
  obtain ⟨name, hname⟩ := hkeyJson.plain_ok
  obtain ⟨key, hkey⟩ := Template.interpolate_ok hcontext name
  obtain ⟨raw, hraw⟩ : ∃ raw, node.setting "value" = .ok raw :=
    ⟨(entries.lookup (.text "value")).getD .null, by rw [setting, hsettings]; rfl⟩
  obtain ⟨value, hvalue, hchosen⟩ := valueToStore_runOn hraw hcontext
  obtain ⟨stored, hstored⟩ :=
    storedText_ok (hchosen.saysJson hcontext (hjson.get hraw)) bench.state.toScopes
  refine ⟨raw, key, value, stored, hraw, hchosen, ⟨name, ?_, hkey⟩, hvalue, hstored⟩
  rw [hentry]
  exact hname

/-- **What a node that stores data does**, if it passes the check, its settings are JSON and so is
whatever the state holds. The key is the plain form of its setting, filled in. The value is the output
before in place of a setting that does not count as true (zero, false and the empty list and object
included), what a text that is JSON once it is filled in writes, the filled in text if it is none, and
any other setting itself. The store then holds under the key the value if that is a text, and its JSON
text otherwise; every other key has what it had before, the other files are as they were, and the
value is in the answer. If the store holds no object in its file, the node fails and the files stay as
they are. -/
theorem execute_storing (settings : Settings) (hkind : node.cls.kind = .storeData)
    (hjson : node.settings.SaysJson) (hvalid : node.validate settings = .ok ())
    (hcontext : bench.state.toContext.SaysJson) (hstorage : bench.state.hasStorage = true)
    (hlocal : bench.world.backend = .local) : ∃ raw name key value stored,
      node.setting "value" = .ok raw ∧ Chosen bench.state.toContext raw value ∧
      (node.settings.entry "key" >>= Value.plain) = .ok name ∧
      interpolate bench.state.toContext name = .ok key ∧
      storedText bench.state.toScopes value = .ok stored ∧
      (∀ data, dataIn bench.world.files = .ok (.object data) →
        ∃ world, node.execute.runOn bench =
            (.ok (.plain (storingOutput key value bench.state.previous)),
              { bench with world := world }) ∧
          Stores bench.world world data key stored) ∧
      ((∀ data, dataIn bench.world.files ≠ .ok (.object data)) →
        ∃ f journal, node.execute.runOn bench =
          (.error f, { bench with world := { bench.world with journal := journal } })) := by
  have hcheck : validateStoring node = .ok () := by
    simp only [validate, hkind] at hvalid
    exact hvalid
  obtain ⟨raw, key, value, stored, hraw, hchosen, hready⟩ :=
    ready_of_validate hjson hcheck hcontext
  obtain ⟨name, hname, hkey⟩ := hready.named
  exact ⟨raw, name, key, value, stored, hraw, hchosen, hname, hkey, hready.written,
    hready.execute hkind hstorage hlocal⟩

/-- A node that is to keep zero under `k`. -/
def zeroStoring : Node where
  id := .text "s"
  type := .text "store-data"
  label := .text "s"
  settings := .dict [(.text "key", .text "k"), (.text "value", .int 0)]
  cls := { name := "StoreDataNode", kind := .storeData }

/-- A run with a store that holds nothing yet, behind a node that has put out an object. -/
def storingBench : Bench where
  world := {}
  state := { previous := .object [("p", .bool true)], hasStorage := true }

theorem execute_storing_zero : ∃ world,
    zeroStoring.validate .standard = .ok () ∧
    zeroStoring.setting "value" = .ok (.int 0) ∧
    zeroStoring.execute.runOn storingBench =
      (.ok (.plain (storingOutput "k" (.object [("p", .bool true)]) (.object [("p", .bool true)]))),
        { storingBench with world := world }) ∧
    dataIn world.files = .ok (.object [("k", .text "\x7b\"p\": true\x7d")]) := by
  have hjson : zeroStoring.settings.SaysJson := by
    refine .dict _ none (fun e he => ?_) fun e he => ?_
    all_goals
      simp only [List.mem_cons, List.not_mem_nil, or_false] at he
      obtain rfl | rfl := he
    · exact ⟨_, rfl⟩
    · exact ⟨_, rfl⟩
    · exact .text _ none
    · exact .int 0 none (Json.longIntegerBound_eq ▸ Nat.pow_pos (by decide))
  have hcontext : storingBench.state.toContext.SaysJson := by
    refine ⟨fun _ he => absurd he List.not_mem_nil, fun _ he => absurd he List.not_mem_nil, ?_⟩
    refine .dict _ none (fun e he => ?_) fun e he => ?_
    all_goals
      simp only [List.map_cons, List.map_nil, List.mem_singleton] at he
      subst he
    · exact ⟨_, rfl⟩
    · exact .bool true
  obtain ⟨raw, name, key, value, stored, hraw, hchosen, hname, hkey, hstored, hkept, -⟩ :=
    execute_storing .standard rfl hjson rfl hcontext rfl rfl
  obtain rfl := Except.ok.inj hraw
  obtain rfl := Except.ok.inj hname
  obtain rfl := Except.ok.inj hkey
  obtain ⟨world, hrun, hstores⟩ := hkept [] Mirrors.empty.data.held
  cases hchosen with
  | previous =>
    obtain rfl := Except.ok.inj hstored
    exact ⟨world, rfl, rfl, hrun, hstores.held⟩
  | json text => cases text
  | text text => cases text
  | given truthy => exact absurd truthy (by decide)

end Node

end WorkflowEngine
