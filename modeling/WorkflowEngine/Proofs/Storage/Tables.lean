import Mathlib.Data.List.Sort
import Mathlib.Data.String.Basic
import WorkflowEngine.Proofs.Storage.Operations

/-!
# The local store as three tables

What a session is answered is what three tables answer, of the workflows, of the execution records and
of the data values (`session_tables`). A table is found in the files again: a file for each record of
a folder, in the order of the table, and one file for all data values (`Mirrors`). One operation keeps
that (`effect_tables`), and so does a session.
-/

namespace WorkflowEngine

/-! ## Objects -/

namespace Value

variable {entries news : Fields}

theorem decoded_dict (hkeys : (entries.map Prod.fst).Nodup)
    (h : ∀ e ∈ entries, (∃ k, e.1 = .text k) ∧ e.2.Decoded) : (Value.dict entries).Decoded := by
  obtain ⟨parts, rfl⟩ : ∃ parts : List (String × Value),
      entries = parts.map fun e => (.text e.1, e.2) := by
    clear hkeys
    induction entries with
    | nil => exact ⟨[], rfl⟩
    | cons e rest ih =>
      obtain ⟨⟨⟨k, hk⟩, -⟩, hrest⟩ := List.forall_mem_cons.1 h
      obtain ⟨parts, hparts⟩ := ih hrest
      exact ⟨(k, e.2) :: parts, by rw [List.map_cons, ← hparts, ← hk]⟩
  refine decoded_object ?_ fun e he => (h _ (List.mem_map_of_mem he)).2
  rw [List.map_map] at hkeys
  exact List.Nodup.of_map Key.text (by rwa [List.map_map])

theorem Decoded.fields_spec (h : (Value.dict entries).Decoded) :
    (entries.map Prod.fst).Nodup ∧ ∀ e ∈ entries, (∃ k, e.1 = .text k) ∧ e.2.Decoded := by
  obtain ⟨j, hj, hvalue⟩ := h
  cases j <;> cases hvalue
  rename_i es
  rw [Json.toFields_eq]
  refine ⟨?_, ?_⟩
  · rw [List.map_map]
    have hnames := hj.1.map (f := Key.text) fun a b h => by simpa using h
    rwa [List.map_map] at hnames
  · rw [List.forall_mem_map]
    exact fun e he => ⟨⟨e.1, rfl⟩, e.2, (Json.readableEntries_iff es).1 hj.2 e he, rfl⟩

/-- Writing the entries of an object over those of another makes an object. -/
theorem Decoded.putAll (h : (Value.dict entries).Decoded) (hnews : (Value.dict news).Decoded) :
    (Value.dict (Entries.putAll entries news)).Decoded := by
  obtain ⟨hkeys, hentries⟩ := h.fields_spec
  obtain ⟨hnodup, hmem⟩ := Entries.putAll_spec hkeys news
  exact decoded_dict hnodup fun e he => (hmem e he).elim (hentries e) (hnews.fields_spec.2 e)

theorem put_object (k : String) (v : Value) (parts : List (String × Value)) :
    Entries.put (Key.text k) v (parts.map fun e => (.text e.1, e.2)) =
      (Entries.put k v parts).map fun e => (Key.text e.1, e.2) := by
  induction parts with
  | nil => rfl
  | cons e rest ih =>
    have hkey : (Key.text k == Key.text e.1) = (k == e.1) := by
      rw [Bool.eq_iff_iff]
      simp
    rw [List.map_cons, Entries.put, Entries.put, hkey]
    cases k == e.1 with
    | true => rfl
    | false => simp [ih]

theorem putAll_object (parts news : List (String × Value)) :
    Entries.putAll (parts.map fun e => (Key.text e.1, e.2)) (news.map fun e => (.text e.1, e.2)) =
      (Entries.putAll parts news).map fun e => (Key.text e.1, e.2) := by
  induction news generalizing parts with
  | nil => rfl
  | cons e rest ih =>
    rw [List.map_cons, Entries.putAll, List.foldl_cons, put_object]
    exact ih (Entries.put e.1 e.2 parts)

theorem lookup_object (k : String) (parts : List (String × Value)) :
    (parts.map fun e => (Key.text e.1, e.2)).lookup (.text k) = parts.lookup k := by
  induction parts with
  | nil => rfl
  | cons e rest ih =>
    have hkey : (Key.text k == Key.text e.1) = (k == e.1) := by
      rw [Bool.eq_iff_iff]
      simp
    rw [List.map_cons, List.lookup_cons, List.lookup_cons, hkey, ih]

end Value

namespace LocalStore

/-! ## The tables -/

/-- The workflows and the execution records by identifier, and the data values by key. -/
structure Tables where
  workflows : List (String × Value) := []
  executions : List (String × Value) := []
  data : List (String × Value) := []

namespace Tables

/-- The identifier that a record holds. -/
def idOf (record : Value) : String :=
  match record.entry "id" with
  | .ok (.text id _) => id
  | _ => ""

/-- A record with the fields of another value in place of its own. -/
def merged (record updates : Value) : Value :=
  match record, updates with
  | .dict entries _, .dict news _ => .dict (Entries.putAll entries news)
  | _, _ => record

/-- What is under a key, null if nothing is. -/
def valueAt (table : List (String × Value)) (key : String) : Value := (table.lookup key).getD .null

/-- The records of a table, in the order of their files. -/
def inOrder (table : List (String × Value)) : List Value :=
  (table.mergeSort fun a b => decide (a.1 ++ extension ≤ b.1 ++ extension)).map Prod.snd

/-- What the tables answer to an operation, and the tables after it. A listing of executions is none of
theirs. -/
def perform (t : Tables) : Operation → Value × Tables
  | .saveWorkflow workflow =>
    (workflow, { t with workflows := Entries.put (idOf workflow) workflow t.workflows })
  | .getWorkflow id => (valueAt t.workflows id, t)
  | .listWorkflows => (.list (inOrder t.workflows), t)
  | .deleteWorkflow id =>
    (.bool (Entries.contains id t.workflows),
      { t with workflows := Entries.erase id t.workflows })
  | .createExecution execution =>
    (execution, { t with executions := Entries.put (idOf execution) execution t.executions })
  | .updateExecution id updates =>
    match t.executions.lookup id with
    | none => (.null, t)
    | some record =>
      (merged record updates,
        { t with executions := Entries.put id (merged record updates) t.executions })
  | .getExecution id => (valueAt t.executions id, t)
  | .setData key value => (.null, { t with data := Entries.put key value t.data })
  | .getData key => (valueAt t.data key, t)
  | .listExecutions _ _ | .reopen => (.null, t)

/-- What the tables answer to a row of operations. -/
def answers : List Operation → Tables → List Value
  | [], _ => []
  | op :: ops, t => (t.perform op).1 :: answers ops (t.perform op).2

end Tables

/-- Whether an identifier names a file: it is safe, and short enough. -/
def NamesFile (folder id : String) : Prop := isSafeId id = true ∧ Accepts (recordPath folder id)

instance (folder id : String) : Decidable (NamesFile folder id) :=
  inferInstanceAs (Decidable (_ ∧ _))

/-- Whether a value is a record of some kind of values that names its file. -/
def IsRecord (kind : Value → Prop) (folder : String) (record : Value) : Prop :=
  kind record ∧ ∃ id, record.entry "id" = .ok (.text id) ∧ NamesFile folder id

/-- Whether an operation is about records that name their files, with values of some kind. -/
def Operation.Proper (kind : Value → Prop) : Operation → Prop
  | saveWorkflow workflow => IsRecord kind workflowFolder workflow
  | getWorkflow id | deleteWorkflow id => NamesFile workflowFolder id
  | createExecution execution => IsRecord kind executionFolder execution
  | updateExecution id updates =>
    NamesFile executionFolder id ∧ ∃ news, updates = .dict news ∧ kind updates
  | getExecution id => NamesFile executionFolder id
  | setData _ value => kind value
  | listExecutions _ _ => False
  | listWorkflows | getData _ | reopen => True

/-! ## Records and their files -/

theorem isSafeId_ne {id : String} (h : isSafeId id = true) : id ≠ "" := by
  rintro rfl
  cases h

section Files

variable {folder path id : String} {files : Files} {table : List (String × Value)}

/-- A record is kept in the file that its identifier names. -/
structure Kept (folder : String) (files : Files) (id : String) (record : Value) : Prop where
  named : NamesFile folder id
  decoded : record.Decoded
  isObject : ∃ fields, record = .dict fields
  held : ∃ file, files.lookup (recordPath folder id) = some file ∧ valueOf file = .ok record

/-- The records of a folder are those of a table, in order. -/
structure Shelf (folder : String) (files : Files) (table : List (String × Value)) : Prop where
  nodup : (table.map Prod.fst).Nodup
  paths : recordFiles folder files = table.map fun e => recordPath folder e.1
  kept : ∀ e ∈ table, Kept folder files e.1 e.2

theorem Kept.of_lookup {files' : Files} {record : Value} (h : Kept folder files id record)
    (hfiles : files'.lookup (recordPath folder id) = files.lookup (recordPath folder id)) :
    Kept folder files' id record where
  named := h.named
  decoded := h.decoded
  isObject := h.isObject
  held := hfiles ▸ h.held

namespace Shelf

theorem lookup_none (h : Shelf folder files table) (hsafe : isSafeId id = true)
    (hnone : table.lookup id = none) : files.lookup (recordPath folder id) = none := by
  by_contra hsome
  have hmem : recordPath folder id ∈ recordFiles folder files :=
    mem_recordFiles.2 ⟨isRecord_recordPath hsafe folder, Option.isSome_iff_ne_none.2 hsome⟩
  rw [h.paths] at hmem
  obtain ⟨e, he, hpath⟩ := List.mem_map.1 hmem
  have hid : id ∈ table.map Prod.fst := recordPath_injective hpath ▸ List.mem_map_of_mem he
  rw [Entries.mem_keys_iff, hnone] at hid
  cases hid

theorem isSome_lookup (h : Shelf folder files table) (hsafe : isSafeId id = true) :
    (files.lookup (recordPath folder id)).isSome = (table.lookup id).isSome := by
  cases hlookup : table.lookup id with
  | none => rw [h.lookup_none hsafe hlookup]; rfl
  | some record =>
    obtain ⟨file, hfile, -⟩ := (h.kept _ (Entries.mem_of_lookup hlookup)).held
    rw [hfile]
    rfl

/-- Under an identifier is found what the table has there. -/
theorem foundAt_eq (h : Shelf folder files table) (hid : NamesFile folder id) :
    foundAt (recordPath folder id) (files.lookup (recordPath folder id)) =
      .ok (Tables.valueAt table id) := by
  rw [foundAt, if_pos hid.2, Tables.valueAt]
  cases hlookup : table.lookup id with
  | none => rw [h.lookup_none hid.1 hlookup]; rfl
  | some record =>
    obtain ⟨file, hfile, hvalue⟩ := (h.kept _ (Entries.mem_of_lookup hlookup)).held
    rw [hfile]
    exact hvalue

/-- A file that is no record of the folder may change. -/
theorem foreign (h : Shelf folder files table) (hpath : isRecord folder path = false)
    (file : File) : Shelf folder (Entries.put path file files) table where
  nodup := h.nodup
  paths := by rw [recordFiles_put, hpath]; exact h.paths
  kept e he := by
    refine (h.kept e he).of_lookup ?_
    have hne : recordPath folder e.1 ≠ path := by
      rintro rfl
      exact Bool.false_ne_true (hpath.symm.trans (isRecord_recordPath (h.kept e he).named.1 folder))
    rw [Entries.lookup_put, if_neg (by simpa using hne)]

theorem foreign_erase (h : Shelf folder files table) (hpath : isRecord folder path = false) :
    Shelf folder (Entries.erase path files) table where
  nodup := h.nodup
  paths := by
    rw [recordFiles_erase, ← h.paths, List.filter_eq_self]
    intro other hother
    have hne : path ≠ other := by
      rintro rfl
      exact Bool.false_ne_true (hpath.symm.trans (mem_recordFiles.1 hother).1)
    simpa using hne
  kept e he := by
    refine (h.kept e he).of_lookup ?_
    have hne : recordPath folder e.1 ≠ path := by
      rintro rfl
      exact Bool.false_ne_true (hpath.symm.trans (isRecord_recordPath (h.kept e he).named.1 folder))
    rw [Entries.lookup_erase, if_neg (by simpa using hne)]

/-- A record is written to its file. -/
theorem put {record : Value} {file : File} (h : Shelf folder files table)
    (hid : NamesFile folder id) (decoded : record.Decoded)
    (isObject : ∃ fields, record = .dict fields) (hvalue : valueOf file = .ok record) :
    Shelf folder (Entries.put (recordPath folder id) file files) (Entries.put id record table) where
  nodup := Entries.nodup_put h.nodup id record
  paths := by
    have hmap : (Entries.put id record table).map (fun e => recordPath folder e.1) =
        ((Entries.put id record table).map Prod.fst).map (recordPath folder) := by
      rw [List.map_map]
      rfl
    rw [recordFiles_put, isRecord_recordPath hid.1, hmap, Entries.keys_put, h.paths]
    have hsome := h.isSome_lookup hid.1
    cases hlookup : table.lookup id with
    | none =>
      rw [h.lookup_none hid.1 hlookup]
      simp
    | some old =>
      rw [hlookup] at hsome
      simp [Option.isNone_eq_false_iff.2 hsome]
  kept e he := by
    by_cases heq : e.1 = id
    · have hrecord : e.2 = record := by
        have hlookup := Entries.lookup_of_mem (Entries.nodup_put h.nodup id record) he
        rw [Entries.lookup_put, heq, if_pos (beq_self_eq_true _)] at hlookup
        exact (Option.some.inj hlookup).symm
      rw [heq, hrecord]
      refine ⟨hid, decoded, isObject, file, ?_, hvalue⟩
      rw [Entries.lookup_put, if_pos (beq_self_eq_true _)]
    · have hold : e ∈ table := (Entries.mem_put he).resolve_left fun h => heq (by rw [h])
      refine (h.kept e hold).of_lookup ?_
      rw [Entries.lookup_put, if_neg fun hpath => heq (recordPath_injective (eq_of_beq hpath))]

theorem erase (h : Shelf folder files table) (id : String) :
    Shelf folder (Entries.erase (recordPath folder id) files) (Entries.erase id table) where
  nodup := h.nodup.sublist ((List.filter_sublist).map _)
  paths := by
    rw [recordFiles_erase, h.paths, List.filter_map, Entries.erase]
    refine congrArg _ (List.filter_congr fun e _ => ?_)
    change (!(recordPath folder id == recordPath folder e.1)) = !(id == e.1)
    refine congrArg _ ?_
    rw [Bool.eq_iff_iff, beq_iff_eq, beq_iff_eq]
    exact ⟨recordPath_injective, congrArg _⟩
  kept e he := by
    obtain ⟨hold, hne⟩ := List.mem_filter.1 he
    refine (h.kept e hold).of_lookup ?_
    rw [Entries.lookup_erase, if_neg fun hpath => ?_]
    rw [recordPath_injective (eq_of_beq hpath)] at hne
    simp at hne

end Shelf

end Files

/-! ## Listing -/

/-- Adding the same text in front changes nothing of the order. -/
theorem append_le_append_iff (front a b : String) : front ++ a ≤ front ++ b ↔ a ≤ b := by
  rw [← not_iff_not, String.not_le, String.not_le, String.lt_iff_toList_lt,
    String.lt_iff_toList_lt, String.toList_append, String.toList_append]
  induction front.toList with
  | nil => rfl
  | cons c cs ih =>
    rw [List.cons_append, List.cons_append, List.cons_lt_cons_iff, ih]
    simp

theorem recordPath_le_iff (folder id id' : String) :
    recordPath folder id ≤ recordPath folder id' ↔ id ++ extension ≤ id' ++ extension := by
  simp only [recordPath, String.append_assoc, append_le_append_iff]

/-- The files of the workflows are listed in the order of their names. -/
theorem Shelf.workflowFiles_eq {files : Files} {table : List (String × Value)}
    (h : Shelf workflowFolder files table) : workflowFiles files =
      (table.mergeSort fun a b => decide (a.1 ++ extension ≤ b.1 ++ extension)).map
        fun e => recordPath workflowFolder e.1 := by
  rw [workflowFiles, h.paths]
  refine (List.map_mergeSort fun a _ b _ => ?_).symm
  rw [Bool.eq_iff_iff, decide_eq_true_iff, decide_eq_true_iff, recordPath_le_iff]

theorem Shelf.workflowsAt_eq {files : Files} {table : List (String × Value)}
    (h : Shelf workflowFolder files table) :
    workflowsAt files (workflowFiles files) = .ok (Tables.inOrder table) := by
  have hread : ∀ rows : List (String × Value), rows ⊆ table →
      (rows.map fun e => recordPath workflowFolder e.1).mapM
        (fun path => foundAt path (files.lookup path)) = .ok (rows.map Prod.snd) := by
    intro rows hrows
    induction rows with
    | nil => rfl
    | cons e rest ih =>
      have hmem := hrows List.mem_cons_self
      have hfound := h.foundAt_eq (h.kept e hmem).named
      rw [Tables.valueAt, Entries.lookup_of_mem h.nodup hmem] at hfound
      rw [List.map_cons, List.mapM_cons, hfound, ih fun e he => hrows (List.mem_cons_of_mem _ he)]
      rfl
  have hsorted := (List.mergeSort_perm table fun a b =>
    decide (a.1 ++ extension ≤ b.1 ++ extension)).subset
  have hobjects : ∀ v ∈ Tables.inOrder table, (!v.isNull) = true := by
    intro v hv
    obtain ⟨e, he, rfl⟩ := List.mem_map.1 hv
    obtain ⟨fields, hfields⟩ := (h.kept e (hsorted he)).isObject
    rw [hfields]
    rfl
  rw [workflowsAt, h.workflowFiles_eq, hread _ hsorted]
  exact congrArg Except.ok (List.filter_eq_self.2 hobjects)

/-! ## The data values -/

/-- The data values are those of a table. -/
structure Ledger (files : Files) (data : List (String × Value)) : Prop where
  nodup : (data.map Prod.fst).Nodup
  decoded : ∀ e ∈ data, e.2.Decoded
  held : dataIn files = .ok (.object data)

namespace Ledger

variable {files : Files} {data : List (String × Value)}

theorem of_lookup {files' : Files} (h : Ledger files data)
    (hfiles : files'.lookup dataFile = files.lookup dataFile) : Ledger files' data where
  nodup := h.nodup
  decoded := h.decoded
  held := by rw [dataIn, hfiles]; exact h.held

theorem get (h : Ledger files data) (key : String) :
    (dataIn files >>= entryOf (.text key)) = .ok (Tables.valueAt data key) := by
  rw [h.held, Tables.valueAt, ← Value.lookup_object]
  rfl

theorem put {v : Value} (h : Ledger files data) (key : String) (decoded : v.Decoded) :
    ∃ file, (dataIn files >>= fun data => putEntry data (.text key) v) =
        .ok (.object (Entries.put key v data)) ∧
      writtenTo dataFile (.object (Entries.put key v data)) files =
        (.ok (), Entries.put dataFile file files) ∧
      Ledger (Entries.put dataFile file files) (Entries.put key v data) := by
  have hnodup := Entries.nodup_put h.nodup key v
  have hdecoded : ∀ e ∈ Entries.put key v data, e.2.Decoded := by
    intro e he
    rcases Entries.mem_put he with rfl | he
    · exact decoded
    · exact h.decoded e he
  obtain ⟨file, hwritten, hvalue⟩ := writtenTo_decoded accepts_dataFile housed_dataFile
    (Value.decoded_object hnodup hdecoded) files
  refine ⟨file, ?_, hwritten, hnodup, hdecoded, ?_⟩
  · rw [h.held]
    change Except.ok (Value.dict (Entries.put (.text key) v (data.map _))) = _
    rw [Value.put_object]
    rfl
  · rw [dataIn, Entries.lookup_put, if_pos (beq_self_eq_true _), foundAt, if_pos accepts_dataFile,
      Option.elim_some, hvalue]
    cases hput : Entries.put key v data with
    | nil => rfl
    | cons e rest => rfl

end Ledger

/-! ## One operation -/

/-- Tables are found in the files. -/
structure Mirrors (files : Files) (t : Tables) : Prop where
  workflows : Shelf workflowFolder files t.workflows
  executions : Shelf executionFolder files t.executions
  data : Ledger files t.data

variable {w : World} {t : Tables} {folder : String}

/-- What a record that names its file says of itself. -/
theorem IsRecord.spec {record : Value} (h : IsRecord Value.Decoded folder record) :
    (∃ fields, record = .dict fields) ∧ record.entry "id" = .ok (.text (Tables.idOf record)) ∧
      record.get "id" = .ok (.text (Tables.idOf record)) ∧
      NamesFile folder (Tables.idOf record) := by
  obtain ⟨decoded, id, hid, hnames⟩ := h
  have hidOf : Tables.idOf record = id := by rw [Tables.idOf, hid]
  rw [hidOf]
  cases record with
  | dict entries mark =>
    have hmark := decoded.mark_eq
    subst hmark
    refine ⟨⟨entries, rfl⟩, hid, ?_, hnames⟩
    simp only [Value.entry] at hid
    split at hid
    · rename_i v hlookup
      cases hid
      rw [Value.get, Value.find?, hlookup]
      rfl
    · cases hid
  | _ => cases hid

/-- A record that JSON can say is kept in the file that it names. -/
theorem keptIn_decoded {id : String} {v : Value} (hfolder : folder ∈ [workflowFolder, executionFolder])
    (hid : NamesFile folder id) (decoded : v.Decoded) (w : World) : ∃ file,
      keptIn w folder (.text id) v = (.ok v, Entries.put (recordPath folder id) file w.files) ∧
        valueOf file = .ok v := by
  obtain ⟨file, hwritten, hvalue⟩ :=
    writtenTo_decoded hid.2 (housed_recordPath hfolder hid.1) decoded w.files
  refine ⟨file, ?_, hvalue⟩
  rw [keptIn, recordFile_text hid.1]
  simp only [hwritten]
  rfl

theorem Mirrors.putWorkflow {id : String} {v : Value} {file : File} {files : Files}
    (h : Mirrors files t) (hid : NamesFile workflowFolder id) (decoded : v.Decoded)
    (isObject : ∃ fields, v = .dict fields) (hvalue : valueOf file = .ok v) :
    Mirrors (Entries.put (recordPath workflowFolder id) file files)
      { t with workflows := Entries.put id v t.workflows } where
  workflows := h.workflows.put hid decoded isObject hvalue
  executions := h.executions.foreign (isRecord_workflow id) file
  data := h.data.of_lookup <| by
    rw [Entries.lookup_put, if_neg (by simpa using dataFile_ne_workflow id)]

theorem Mirrors.eraseWorkflow {files : Files} (h : Mirrors files t) (id : String) :
    Mirrors (Entries.erase (recordPath workflowFolder id) files)
      { t with workflows := Entries.erase id t.workflows } where
  workflows := h.workflows.erase id
  executions := h.executions.foreign_erase (isRecord_workflow id)
  data := h.data.of_lookup <| by
    rw [Entries.lookup_erase, if_neg (by simpa using dataFile_ne_workflow id)]

theorem Mirrors.putExecution {id : String} {v : Value} {file : File} {files : Files}
    (h : Mirrors files t) (hid : NamesFile executionFolder id) (decoded : v.Decoded)
    (isObject : ∃ fields, v = .dict fields) (hvalue : valueOf file = .ok v) :
    Mirrors (Entries.put (recordPath executionFolder id) file files)
      { t with executions := Entries.put id v t.executions } where
  workflows := h.workflows.foreign (isRecord_execution id) file
  executions := h.executions.put hid decoded isObject hvalue
  data := h.data.of_lookup <| by
    rw [Entries.lookup_put, if_neg (by simpa using dataFile_ne_execution id)]

theorem saved_tables {workflow : Value} (record : IsRecord Value.Decoded workflowFolder workflow)
    (h : Mirrors w.files t) : (saved w workflow).1 = .ok workflow ∧
      Mirrors (saved w workflow).2
        { t with workflows := Entries.put (Tables.idOf workflow) workflow t.workflows } := by
  obtain ⟨isObject, -, hid, hnames⟩ := record.spec
  obtain ⟨file, hkept, hvalue⟩ := keptIn_decoded (by simp) hnames record.1 w
  have hholds : (Value.text (Tables.idOf workflow)).holds = true :=
    Value.holds_text (isSafeId_ne hnames.1)
  rw [saved, hid]
  dsimp only
  rw [if_pos hholds, hkept]
  exact ⟨rfl, h.putWorkflow hnames record.1 isObject hvalue⟩

theorem created_tables {execution : Value}
    (record : IsRecord Value.Decoded executionFolder execution) (h : Mirrors w.files t) :
    (created w execution).1 = .ok execution ∧ Mirrors (created w execution).2
      { t with executions := Entries.put (Tables.idOf execution) execution t.executions } := by
  obtain ⟨isObject, hid, -, hnames⟩ := record.spec
  obtain ⟨file, hkept, hvalue⟩ := keptIn_decoded (by simp) hnames record.1 w
  rw [created, hid]
  dsimp only
  rw [hkept]
  exact ⟨rfl, h.putExecution hnames record.1 isObject hvalue⟩

theorem updated_tables {id : String} {news : Fields} (hnames : NamesFile executionFolder id)
    (decoded : (Value.dict news).Decoded) (h : Mirrors w.files t) :
    (updated w (.text id) (.dict news)).1 =
        .ok (t.perform (.updateExecution id (.dict news))).1 ∧
      Mirrors (updated w (.text id) (.dict news)).2
        (t.perform (.updateExecution id (.dict news))).2 := by
  rw [updated, foundIn_text hnames.1, h.executions.foundAt_eq hnames, Tables.valueAt,
    Tables.perform]
  cases hlookup : t.executions.lookup id with
  | none => exact ⟨rfl, h⟩
  | some record =>
    have kept := h.executions.kept _ (Entries.mem_of_lookup hlookup)
    obtain ⟨fields, rfl⟩ := kept.isObject
    have hmerged := kept.decoded.putAll decoded
    obtain ⟨file, hkept, hvalue⟩ := keptIn_decoded (by simp) hnames hmerged w
    change (keptIn w executionFolder (.text id) (.dict (Entries.putAll fields news))).1 = _ ∧
      Mirrors (keptIn w executionFolder (.text id) (.dict (Entries.putAll fields news))).2 _
    rw [hkept]
    exact ⟨rfl, h.putExecution hnames hmerged ⟨_, rfl⟩ hvalue⟩

theorem deleted_tables {id : String} (hnames : NamesFile workflowFolder id)
    (h : Mirrors w.files t) :
    (deleted w id).1 = .ok (.bool (Entries.contains id t.workflows)) ∧
      Mirrors (deleted w id).2 { t with workflows := Entries.erase id t.workflows } := by
  have hcontains : Entries.contains (recordPath workflowFolder id) w.files =
      Entries.contains id t.workflows := by
    rw [Bool.eq_iff_iff, Entries.contains_iff, Entries.contains_iff,
      h.workflows.isSome_lookup hnames.1]
  rw [deleted, if_pos hnames.1]
  dsimp only
  rw [if_pos hnames.2]
  cases hpresent : Entries.contains id t.workflows with
  | true =>
    rw [if_pos (hcontains.trans hpresent)]
    exact ⟨rfl, h.eraseWorkflow id⟩
  | false =>
    rw [if_neg (by rw [hcontains, hpresent]; exact Bool.false_ne_true),
      Entries.erase_of_absent hpresent]
    exact ⟨rfl, h⟩

theorem dataSet_tables {value : Value} (key : String) (decoded : value.Decoded)
    (h : Mirrors w.files t) : (dataSet w (.text key) value).1 = .ok .null ∧
      Mirrors (dataSet w (.text key) value).2
        { t with data := Entries.put key value t.data } := by
  obtain ⟨file, hput, hwritten, hledger⟩ := h.data.put key decoded
  rw [dataSet, hput]
  dsimp only
  rw [hwritten]
  exact ⟨rfl, h.workflows.foreign isRecord_dataFile.1 file,
    h.executions.foreign isRecord_dataFile.2 file, hledger⟩

/-- **An operation is answered as by the tables**, which are found in the files again. -/
theorem Operation.effect_tables {op : Operation} (proper : op.Proper Value.Decoded)
    (h : Mirrors w.files t) :
    (op.effect w).1 = .ok (t.perform op).1 ∧ Mirrors (op.effect w).2 (t.perform op).2 := by
  cases op with
  | saveWorkflow workflow => exact saved_tables proper h
  | createExecution execution => exact created_tables proper h
  | updateExecution id updates =>
    obtain ⟨hnames, news, rfl, hnews⟩ := proper
    exact updated_tables hnames hnews h
  | deleteWorkflow id => exact deleted_tables proper h
  | setData key value => exact dataSet_tables key proper h
  | getWorkflow id =>
    rw [effect, foundIn_text proper.1, h.workflows.foundAt_eq proper]
    exact ⟨rfl, h⟩
  | getExecution id =>
    rw [effect, foundIn_text proper.1, h.executions.foundAt_eq proper]
    exact ⟨rfl, h⟩
  | listWorkflows =>
    rw [effect, h.workflows.workflowsAt_eq]
    exact ⟨rfl, h⟩
  | getData key =>
    rw [effect, h.data.get key]
    exact ⟨rfl, h⟩
  | listExecutions workflow limit => cases proper
  | reopen => exact ⟨rfl, h⟩

/-! ## Sessions -/

theorem Mirrors.empty : Mirrors [] {} where
  workflows := ⟨List.nodup_nil, rfl, by simp⟩
  executions := ⟨List.nodup_nil, rfl, by simp⟩
  data := ⟨List.nodup_nil, by simp, by rw [dataIn, foundAt, if_pos accepts_dataFile]; rfl⟩

theorem Operation.performAll_tables {ops : List Operation}
    (proper : ∀ op ∈ ops, op.Proper Value.Decoded) (h : Mirrors w.files t) :
    (performAll ops w).1 = (Tables.answers ops t).map .ok := by
  induction ops generalizing w t with
  | nil => rfl
  | cons op ops ih =>
    obtain ⟨journal, hrun⟩ := op.perform_comesTo w
    obtain ⟨hanswer, hfiles⟩ := effect_tables (proper op List.mem_cons_self) h
    have hrest := @ih { w with files := (op.effect w).2, journal := journal } (t.perform op).2
      (fun op hop => proper op (List.mem_cons_of_mem _ hop)) hfiles
    rw [performAll, Tables.answers]
    dsimp only
    rw [hrun, hanswer, List.map_cons, hrest]

/-- **A session at an empty store is answered as by three tables**, if the values are such as JSON can
say and the identifiers name files. -/
theorem session_tables (ops : List Operation) (proper : ∀ op ∈ ops, op.Proper Value.Decoded)
    (w : World) (empty : w.files = []) :
    (Operation.performAll ops w).1 = (Tables.answers ops {}).map .ok :=
  Operation.performAll_tables proper (empty ▸ Mirrors.empty)

/-- A session with records of both kinds and a data value. -/
def keeping : List Operation :=
  [.saveWorkflow (.object [("id", .text "a")]), .createExecution (.object [("id", .text "e")]),
    .updateExecution "e" (.object [("status", .text "success")]), .setData "k" (.list [.null]),
    .deleteWorkflow "a", .reopen, .getExecution "e", .getWorkflow "a", .getData "k"]

theorem session_tables_keeping :
    (∀ op ∈ keeping, op.Proper Value.Decoded) ∧
      (Operation.performAll keeping {}).1.drop 6 =
        [.ok (.object [("id", .text "e"), ("status", .text "success")]), .ok .null,
          .ok (.list [.null])] := by
  have decoded (key s : String) : (Value.object [(key, .text s)]).Decoded :=
    ⟨.object [(key, .text s)], ⟨List.nodup_singleton _, trivial, trivial⟩, rfl⟩
  have hworkflow : NamesFile workflowFolder "a" := by decide +kernel
  have hexecution : NamesFile executionFolder "e" := by decide +kernel
  have proper : ∀ op ∈ keeping, op.Proper Value.Decoded := by
    simp only [keeping, List.forall_mem_cons]
    exact ⟨⟨decoded _ _, "a", rfl, hworkflow⟩, ⟨decoded _ _, "e", rfl, hexecution⟩,
      ⟨hexecution, _, rfl, decoded _ _⟩, ⟨.list [.null], ⟨trivial, trivial⟩, rfl⟩, hworkflow,
      trivial, hexecution, hworkflow, trivial, by simp⟩
  refine ⟨proper, ?_⟩
  rw [session_tables keeping proper {} rfl]
  rfl

/-- A session that writes an integer of more digits than can be written. -/
def overlong : List Operation :=
  [.createExecution (.object [("id", .text "e")]),
    .updateExecution "e" (.object [("n", .int longIntegerBound)]), .getExecution "e"]

/-- An integer that is too long to be written is refused, so that tables would answer otherwise. -/
theorem session_tables_overlong :
    (∀ op ∈ overlong, op.Proper fun v => ∃ j : Json, j.toValue = v) ∧
      (Operation.performAll overlong {}).1 ≠ (Tables.answers overlong {}).map .ok := by
  have hexecution : NamesFile executionFolder "e" := by decide +kernel
  refine ⟨?_, fun h => ?_⟩
  · simp only [overlong, List.forall_mem_cons]
    exact ⟨⟨⟨.object [("id", .text "e")], rfl⟩, "e", rfl, hexecution⟩,
      ⟨hexecution, _, rfl, .object [("n", .int longIntegerBound)], rfl⟩, hexecution, by simp⟩
  · have hshape := congrArg (List.map Except.isOk) h
    revert hshape
    decide +kernel

end LocalStore

end WorkflowEngine
