import WorkflowEngine.Proofs.Storage.Operations

/-!
# Operations stay in the store

Whatever identifiers a session at the local store is given, each operation works on the file of its
record, which is right in one of the two folders, or on that of the data values; a listing reads the
records of one folder. No other file changes (`Operation.effect_elsewhere`), and no other file decides
what is answered (`Operation.effect_congr`). Both are shown of one operation on the files and carried
over a session by induction.
-/

namespace WorkflowEngine

namespace LocalStore

open Work

/-! ## What an operation is about -/

namespace Operation

/-- The folder and the identifier of the record that an operation is about. -/
def target? : Operation → Option (String × String)
  | saveWorkflow workflow =>
    match workflow.get "id" with
    | .ok (.text id _) => some (workflowFolder, id)
    | _ => none
  | createExecution execution =>
    match execution.entry "id" with
    | .ok (.text id _) => some (executionFolder, id)
    | _ => none
  | getWorkflow id | deleteWorkflow id => some (workflowFolder, id)
  | updateExecution id _ | getExecution id => some (executionFolder, id)
  | _ => none

/-- The file that an operation works on: that of its record, or that of the data values. -/
def file? : Operation → Option String
  | setData _ _ | getData _ => some dataFile
  | op =>
    match op.target? with
    | some (folder, id) => if isSafeId id then some (recordPath folder id) else none
    | none => none

/-- The folder whose records an operation lists. -/
def listed? : Operation → Option String
  | listWorkflows => some workflowFolder
  | listExecutions _ _ => some executionFolder
  | _ => none

/-- The files that an operation may read. -/
def Reads (op : Operation) (path : String) : Prop :=
  op.file? = some path ∨ ∃ folder, op.listed? = some folder ∧ isRecord folder path = true

/-- An identifier that an operation finds in its record is a text, if it is anything. -/
def Textual : Operation → Prop
  | saveWorkflow workflow =>
    ∀ id, workflow.get "id" = .ok id → id.holds = true → ∃ s mark, id = .text s mark
  | createExecution execution =>
    ∀ id, execution.entry "id" = .ok id → id.holds = true → ∃ s mark, id = .text s mark
  | _ => True

/-- What an operation answers that is given an identifier which names no record. -/
def Refuses : Operation → Attempt Value → Prop
  | saveWorkflow _, answer | createExecution _, answer =>
    ∃ f, answer = .error f ∧ f.kind = "ValueError"
  | deleteWorkflow _, answer => answer = .ok (.bool false)
  | _, answer => answer = .ok .null

end Operation

/-! ## Identifiers that name no record -/

section Rejected

variable {w : World} {folder id : String}

/-- An identifier that does not hold is not safe. -/
theorem isSafe_of_not_holds {v : Value} (h : v.holds = false) : isSafe v = .ok false := by
  cases v with
  | text s mark => simp_all [Value.holds, Value.isTrue, isSafe, isSafeId]
  | list items mark => simp_all [Value.holds, Value.isTrue, isSafe]
  | tuple items mark => simp_all [Value.holds, Value.isTrue, isSafe]
  | set items frozen mark => simp_all [Value.holds, Value.isTrue, isSafe]
  | dict entries mark => simp_all [Value.holds, Value.isTrue, isSafe]
  | _ => simp_all [Value.holds, Value.isTrue, isSafe]

/-- An unsafe text is refused as the name of a record. -/
theorem recordFile_rejected (h : isSafeId id = false) (mark : Option Stamp) (folder : String)
    (w : World) : recordFile w folder (.text id mark) = .error (.unsafeRecordId (Text.quoted id)) := by
  rw [recordFile, isSafe, h]
  rfl

/-- Where an identifier is a text, if it is anything, a record is kept under a safe one alone. -/
theorem recordFile_textual {v : Value} {path : String}
    (textual : v.holds = true → ∃ s mark, v = .text s mark)
    (h : recordFile w folder v = .ok path) :
    ∃ s mark, v = .text s mark ∧ isSafeId s = true ∧ path = recordPath folder s := by
  cases hholds : v.holds with
  | false =>
    rw [recordFile, isSafe_of_not_holds hholds] at h
    obtain ⟨_, ⟨⟩, h⟩ := Attempt.bind_ok h
    obtain ⟨_, -, h⟩ := Attempt.bind_ok h
    cases h
  | true =>
    obtain ⟨s, mark, rfl⟩ := textual hholds
    cases hsafe : isSafeId s with
    | false =>
      rw [recordFile_rejected hsafe] at h
      cases h
    | true =>
      rw [recordFile_text hsafe] at h
      exact ⟨s, mark, rfl, hsafe, (Except.ok.inj h).symm⟩

theorem keptIn_rejected (h : isSafeId id = false) (mark : Option Stamp) (folder : String)
    (v : Value) (w : World) : keptIn w folder (.text id mark) v =
      (.error (.unsafeRecordId (Text.quoted id)), w.files) := by
  rw [keptIn, recordFile_rejected h]

theorem foundIn_rejected (h : isSafeId id = false) (folder : String) (w : World) :
    foundIn w folder (.text id) = .ok .null := by
  rw [foundIn, isSafe, h]
  rfl

/-- **An identifier that names no record is refused or finds nothing**, and nothing happens. -/
theorem Operation.effect_rejected {op : Operation} (htarget : op.target? = some (folder, id))
    (h : isSafeId id = false) (w : World) :
    op.Refuses (op.effect w).1 ∧ (op.effect w).2 = w.files := by
  cases op with
  | saveWorkflow workflow =>
    rw [effect, saved]
    simp only [target?] at htarget
    split at htarget
    · rename_i id' mark hid
      cases htarget
      rw [hid]
      dsimp only
      split
      · rw [keptIn_rejected h]
        exact ⟨⟨_, rfl, rfl⟩, rfl⟩
      · exact ⟨⟨_, rfl, rfl⟩, rfl⟩
    · cases htarget
  | createExecution execution =>
    rw [effect, created]
    simp only [target?] at htarget
    split at htarget
    · rename_i id' mark hid
      cases htarget
      rw [hid]
      dsimp only
      rw [keptIn_rejected h]
      exact ⟨⟨_, rfl, rfl⟩, rfl⟩
    · cases htarget
  | getWorkflow id' =>
    cases htarget
    exact ⟨foundIn_rejected h _ w, rfl⟩
  | getExecution id' =>
    cases htarget
    exact ⟨foundIn_rejected h _ w, rfl⟩
  | updateExecution id' updates =>
    cases htarget
    rw [effect, updated, foundIn_rejected h]
    exact ⟨rfl, rfl⟩
  | deleteWorkflow id' =>
    cases htarget
    rw [effect, deleted, if_neg (by rw [h]; exact Bool.false_ne_true)]
    exact ⟨rfl, rfl⟩
  | _ => cases htarget

end Rejected

/-! ## No other file changes -/

section Elsewhere

variable {w : World} {folder path other : String} {files : Files} {op : Operation}

/-- Keeping a value changes the file of its identifier alone. -/
theorem lookup_keptIn {id : Value} (textual : id.holds = true → ∃ s mark, id = .text s mark)
    (h : ∀ s mark, id = .text s mark → isSafeId s = true → other ≠ recordPath folder s)
    (v : Value) (w : World) : (keptIn w folder id v).2.lookup other = w.files.lookup other := by
  rw [keptIn]
  cases hpath : recordFile w folder id with
  | error f => rfl
  | ok path =>
    obtain ⟨s, mark, rfl, hsafe, rfl⟩ := recordFile_textual textual hpath
    exact lookup_writtenTo (h s mark rfl hsafe) v w.files

theorem Operation.target?_folder {id : String} (h : op.target? = some (folder, id)) :
    folder ∈ [workflowFolder, executionFolder] := by
  cases op with
  | saveWorkflow workflow =>
    simp only [target?] at h
    split at h
    · cases h
      exact List.mem_cons_self
    · cases h
  | createExecution execution =>
    simp only [target?] at h
    split at h
    · cases h
      simp
    · cases h
  | getWorkflow id | deleteWorkflow id =>
    cases h
    exact List.mem_cons_self
  | updateExecution id updates | getExecution id =>
    cases h
    simp
  | _ => cases h

/-- The file that an operation works on is that of the data values, or right in one of the folders
and named by the identifier that is given. -/
theorem Operation.file?_cases (h : op.file? = some path) : path = dataFile ∨
    ∃ folder ∈ [workflowFolder, executionFolder], ∃ id, op.target? = some (folder, id) ∧
      '/' ∉ id.toList ∧ path = recordPath folder id := by
  have hrecord (hfile : (match op.target? with
        | some (folder, id) => if isSafeId id then some (recordPath folder id) else none
        | none => none) = some path) :
      ∃ folder ∈ [workflowFolder, executionFolder], ∃ id, op.target? = some (folder, id) ∧
        '/' ∉ id.toList ∧ path = recordPath folder id := by
    cases htarget : op.target? with
    | none =>
      rw [htarget] at hfile
      cases hfile
    | some target =>
      obtain ⟨folder, id⟩ := target
      rw [htarget] at hfile
      obtain ⟨hsafe, hpath⟩ := Option.ite_none_right_eq_some.1 hfile
      exact ⟨folder, target?_folder htarget, id, rfl, isSafeId_noSlash hsafe,
        (Option.some.inj hpath).symm⟩
  cases op with
  | setData key value => exact .inl (Option.some.inj h).symm
  | getData key => exact .inl (Option.some.inj h).symm
  | _ => exact .inr (hrecord h)

/-- An operation that is about a record with a safe identifier works on its file. -/
theorem Operation.file?_of_target {id : String} (htarget : op.target? = some (folder, id))
    (hsafe : isSafeId id = true) : op.file? = some (recordPath folder id) := by
  cases op with
  | listWorkflows | listExecutions _ _ | setData _ _ | getData _ | reopen => cases htarget
  | _ =>
    simp only [file?, htarget]
    exact if_pos hsafe

theorem lookup_saved {workflow : Value}
    (textual : ∀ id, workflow.get "id" = .ok id → id.holds = true → ∃ s mark, id = .text s mark)
    (h : ∀ s mark, workflow.get "id" = .ok (.text s mark) → isSafeId s = true →
      other ≠ recordPath workflowFolder s) (w : World) :
    (saved w workflow).2.lookup other = w.files.lookup other := by
  rw [saved]
  cases hid : workflow.get "id" with
  | error f => rfl
  | ok id =>
    dsimp only
    split
    · exact lookup_keptIn (textual id hid) (fun s mark heq => h s mark (heq ▸ hid)) workflow w
    · rfl

theorem lookup_created {execution : Value}
    (textual : ∀ id, execution.entry "id" = .ok id → id.holds = true → ∃ s mark, id = .text s mark)
    (h : ∀ s mark, execution.entry "id" = .ok (.text s mark) → isSafeId s = true →
      other ≠ recordPath executionFolder s) (w : World) :
    (created w execution).2.lookup other = w.files.lookup other := by
  rw [created]
  cases hid : execution.entry "id" with
  | error f => rfl
  | ok id =>
    exact lookup_keptIn (textual id hid) (fun s mark heq => h s mark (heq ▸ hid)) execution w

theorem lookup_updated {id : String}
    (h : isSafeId id = true → other ≠ recordPath executionFolder id) (updates : Value) (w : World) :
    (updated w (.text id) updates).2.lookup other = w.files.lookup other := by
  rw [updated]
  split
  · rfl
  · split
    · rfl
    · split
      · rfl
      · refine lookup_keptIn (fun _ => ⟨id, none, rfl⟩) (fun s mark heq => ?_) _ w
        cases heq
        exact h

theorem lookup_deleted {id : String}
    (h : isSafeId id = true → other ≠ recordPath workflowFolder id) (w : World) :
    (deleted w id).2.lookup other = w.files.lookup other := by
  rw [deleted]
  split
  · rename_i hsafe
    dsimp only
    split
    · split
      · rw [Entries.lookup_erase, if_neg (by simpa using h hsafe)]
      · rfl
    · rfl
  · rfl

theorem lookup_dataSet (h : other ≠ dataFile) (key value : Value) (w : World) :
    (dataSet w key value).2.lookup other = w.files.lookup other := by
  rw [dataSet]
  split
  · rfl
  · exact lookup_writtenTo h _ _

/-- **What an operation does not work on stays as it is.** -/
theorem Operation.effect_elsewhere (textual : op.Textual) (h : op.file? ≠ some other) (w : World) :
    (op.effect w).2.lookup other = w.files.lookup other := by
  -- the file of a safe identifier that the operation is about is another one
  have hne {folder id : String} (htarget : op.target? = some (folder, id))
      (hsafe : isSafeId id = true) : other ≠ recordPath folder id :=
    fun heq => h (heq ▸ file?_of_target htarget hsafe)
  cases op with
  | saveWorkflow workflow =>
    exact lookup_saved textual (fun s mark hid => hne (by rw [target?, hid])) w
  | createExecution execution =>
    exact lookup_created textual (fun s mark hid => hne (by rw [target?, hid])) w
  | updateExecution id updates => exact lookup_updated (hne rfl) updates w
  | deleteWorkflow id => exact lookup_deleted (hne rfl) w
  | setData key value => exact lookup_dataSet (fun heq => h (congrArg some heq.symm)) _ value w
  | _ => rfl

/-- The files that a session works on are the only ones that it changes. -/
theorem Operation.performAll_elsewhere {ops : List Operation} (textual : ∀ op ∈ ops, op.Textual)
    (h : ∀ op ∈ ops, op.file? ≠ some other) (w : World) :
    (performAll ops w).2.files.lookup other = w.files.lookup other := by
  induction ops generalizing w with
  | nil => rfl
  | cons op ops ih =>
    obtain ⟨journal, hrun⟩ := op.perform_comesTo w
    have hstep := effect_elsewhere (textual op List.mem_cons_self) (h op List.mem_cons_self) w
    have hrest := ih (fun op hop => textual op (List.mem_cons_of_mem _ hop))
      (fun op hop => h op (List.mem_cons_of_mem _ hop)) (op.perform.runIn w).2
    rw [performAll]
    dsimp only
    rw [hrest, hrun]
    exact hstep

end Elsewhere

/-! ## No other file is read -/

/-- Two worlds have the store at the same place, and some of its files are the same, in order. -/
structure Alike (within : String → Bool) (w w' : World) : Prop where
  place : w'.settings = w.settings ∧ w'.workingFolder = w.workingFolder
  files : w'.files.filter (fun e => within e.1) = w.files.filter fun e => within e.1

/-- Two outcomes are the same, and so are some of the files that are left, in order. -/
structure Agree {α : Type} (within : String → Bool) (a b : Attempt α × Files) : Prop where
  answer : a.1 = b.1
  files : a.2.filter (fun e => within e.1) = b.2.filter fun e => within e.1

section Alike

variable {within : String → Bool} {w w' : World} {folder path : String} {op : Operation}

namespace Alike

theorem lookup (h : Alike within w w') (hpath : within path = true) :
    w'.files.lookup path = w.files.lookup path := by
  rw [← Entries.lookup_filter hpath w'.files, h.files, Entries.lookup_filter hpath]

/-- Alike worlds stay alike if the files come to be the same again. -/
theorem after {files files' : Files} (h : Alike within w w')
    (hfiles : files'.filter (fun e => within e.1) = files.filter fun e => within e.1)
    (journal journal' : List Entry) :
    Alike within { w with files := files, journal := journal }
      { w' with files := files', journal := journal' } :=
  ⟨h.place, hfiles⟩

theorem put (h : Alike within w w') (hpath : within path = true) (file : File) :
    (Entries.put path file w'.files).filter (fun e => within e.1) =
      (Entries.put path file w.files).filter fun e => within e.1 := by
  rw [Entries.filter_put hpath, Entries.filter_put hpath, h.files]

theorem recordFiles_eq (h : Alike within w w')
    (hfolder : ∀ path, isRecord folder path = true → within path = true) :
    recordFiles folder w'.files = recordFiles folder w.files := by
  have hcut (files : Files) : recordFiles folder (files.filter fun e => within e.1) =
      recordFiles folder files := by
    rw [recordFiles, recordFiles, List.filter_map, List.filter_map, List.filter_filter]
    refine congrArg _ (List.filter_congr fun e _ => ?_)
    dsimp only [Function.comp]
    cases hrecord : isRecord folder e.1 with
    | true => rw [hfolder e.1 hrecord]; rfl
    | false => rfl
  rw [← hcut w'.files, h.files, hcut]

theorem writtenTo_eq (h : Alike within w w') (hpath : within path = true) (v : Value) :
    Agree within (writtenTo path v w'.files) (writtenTo path v w.files) := by
  rw [writtenTo, writtenTo]
  split
  · split
    · cases v.fileText with
      | ok text => exact ⟨rfl, h.put hpath _⟩
      | error f =>
        dsimp only [Files.putContent]
        rw [h.lookup hpath]
        exact ⟨rfl, h.put hpath _⟩
    · exact ⟨rfl, h.files⟩
  · exact ⟨rfl, h.files⟩

theorem foundIn_eq {id : String} (h : Alike within w w')
    (hpath : isSafeId id = true → within (recordPath folder id) = true) :
    foundIn w' folder (.text id) = foundIn w folder (.text id) := by
  cases hsafe : isSafeId id with
  | false => rw [foundIn_rejected hsafe, foundIn_rejected hsafe]
  | true => rw [foundIn_text hsafe, foundIn_text hsafe, h.lookup (hpath hsafe)]

theorem keptIn_eq {id : Value} (h : Alike within w w')
    (textual : id.holds = true → ∃ s mark, id = .text s mark)
    (hpath : ∀ s mark, id = .text s mark → isSafeId s = true →
      within (recordPath folder s) = true) (v : Value) :
    Agree within (keptIn w' folder id v) (keptIn w folder id v) := by
  rw [keptIn, keptIn, recordFile_congr h.place]
  cases hfile : recordFile w folder id with
  | error f => exact ⟨rfl, h.files⟩
  | ok path =>
    obtain ⟨s, mark, rfl, hsafe, rfl⟩ := recordFile_textual textual hfile
    obtain ⟨hanswer, hfiles⟩ := h.writtenTo_eq (hpath s mark rfl hsafe) v
    exact ⟨congrArg (Except.map _) hanswer, hfiles⟩

theorem saved_eq {workflow : Value} (h : Alike within w w')
    (textual : ∀ id, workflow.get "id" = .ok id → id.holds = true → ∃ s mark, id = .text s mark)
    (hpath : ∀ s mark, workflow.get "id" = .ok (.text s mark) → isSafeId s = true →
      within (recordPath workflowFolder s) = true) :
    Agree within (saved w' workflow) (saved w workflow) := by
  rw [saved, saved]
  cases hid : workflow.get "id" with
  | error f => exact ⟨rfl, h.files⟩
  | ok id =>
    dsimp only
    split
    · exact h.keptIn_eq (textual id hid) (fun s mark heq => hpath s mark (heq ▸ hid)) workflow
    · exact ⟨rfl, h.files⟩

theorem created_eq {execution : Value} (h : Alike within w w')
    (textual : ∀ id, execution.entry "id" = .ok id → id.holds = true → ∃ s mark, id = .text s mark)
    (hpath : ∀ s mark, execution.entry "id" = .ok (.text s mark) → isSafeId s = true →
      within (recordPath executionFolder s) = true) :
    Agree within (created w' execution) (created w execution) := by
  rw [created, created]
  cases hid : execution.entry "id" with
  | error f => exact ⟨rfl, h.files⟩
  | ok id =>
    exact h.keptIn_eq (textual id hid) (fun s mark heq => hpath s mark (heq ▸ hid)) execution

theorem updated_eq {id : String} (h : Alike within w w')
    (hpath : isSafeId id = true → within (recordPath executionFolder id) = true)
    (updates : Value) :
    Agree within (updated w' (.text id) updates) (updated w (.text id) updates) := by
  rw [updated, updated, h.foundIn_eq hpath]
  split
  · exact ⟨rfl, h.files⟩
  · split
    · exact ⟨rfl, h.files⟩
    · split
      · exact ⟨rfl, h.files⟩
      · refine h.keptIn_eq (fun _ => ⟨id, none, rfl⟩) (fun s mark heq => ?_) _
        cases heq
        exact hpath

theorem deleted_eq {id : String} (h : Alike within w w')
    (hpath : isSafeId id = true → within (recordPath workflowFolder id) = true) :
    Agree within (deleted w' id) (deleted w id) := by
  rw [deleted, deleted]
  split
  · rename_i hsafe
    have hcontains : Entries.contains (recordPath workflowFolder id) w'.files =
        Entries.contains (recordPath workflowFolder id) w.files := by
      rw [Bool.eq_iff_iff, Entries.contains_iff, Entries.contains_iff, h.lookup (hpath hsafe)]
    dsimp only
    rw [hcontains]
    split
    · split
      · refine ⟨rfl, ?_⟩
        rw [Entries.filter_erase, Entries.filter_erase, h.files]
      · exact ⟨rfl, h.files⟩
    · exact ⟨rfl, h.files⟩
  · exact ⟨rfl, h.files⟩

theorem dataIn_eq (h : Alike within w w') (hpath : within dataFile = true) :
    dataIn w'.files = dataIn w.files := by
  rw [dataIn, dataIn, h.lookup hpath]

theorem dataSet_eq (h : Alike within w w') (hpath : within dataFile = true) (key value : Value) :
    Agree within (dataSet w' key value) (dataSet w key value) := by
  rw [dataSet, dataSet, h.dataIn_eq hpath]
  split
  · exact ⟨rfl, h.files⟩
  · rename_i data _
    obtain ⟨hanswer, hfiles⟩ := h.writtenTo_eq hpath data
    exact ⟨congrArg (Except.map _) hanswer, hfiles⟩

theorem workflowsAt_eq {paths : List String} (h : Alike within w w')
    (hpaths : ∀ path ∈ paths, within path = true) :
    workflowsAt w'.files paths = workflowsAt w.files paths := by
  rw [workflowsAt, workflowsAt]
  refine congrArg _ ?_
  induction paths with
  | nil => rfl
  | cons path rest ih =>
    rw [List.mapM_cons, List.mapM_cons, h.lookup (hpaths path List.mem_cons_self),
      ih fun path hpath => hpaths path (List.mem_cons_of_mem _ hpath)]

theorem executionsAt_eq {paths : List String} (h : Alike within w w') (workflow : Value)
    (hpaths : ∀ path ∈ paths, within path = true) :
    executionsAt w'.files workflow paths = executionsAt w.files workflow paths := by
  induction paths with
  | nil => rfl
  | cons path rest ih =>
    rw [executionsAt, executionsAt, h.lookup (hpaths path List.mem_cons_self),
      ih fun path hpath => hpaths path (List.mem_cons_of_mem _ hpath)]

end Alike

theorem isRecord_of_mem {files : Files} (h : path ∈ recordFiles folder files) :
    isRecord folder path = true :=
  (List.mem_filter.1 h).2

/-- **What an operation does not read has no part in what it does.** -/
theorem Operation.effect_congr (textual : op.Textual)
    (hreads : ∀ path, op.Reads path → within path = true) (h : Alike within w w') :
    Agree within (op.effect w') (op.effect w) := by
  -- the file of a safe identifier that the operation is about is among those that it reads
  have hown {folder id : String} (htarget : op.target? = some (folder, id))
      (hsafe : isSafeId id = true) : within (recordPath folder id) = true :=
    hreads _ (.inl (file?_of_target htarget hsafe))
  have hlisted {folder : String} (hfolder : op.listed? = some folder) (path : String)
      (hrecord : isRecord folder path = true) : within path = true :=
    hreads path (.inr ⟨folder, hfolder, hrecord⟩)
  cases op with
  | saveWorkflow workflow =>
    exact h.saved_eq textual fun s mark hid => hown (by rw [target?, hid])
  | createExecution execution =>
    exact h.created_eq textual fun s mark hid => hown (by rw [target?, hid])
  | updateExecution id updates => exact h.updated_eq (hown rfl) updates
  | deleteWorkflow id => exact h.deleted_eq (hown rfl)
  | setData key value => exact h.dataSet_eq (hreads dataFile (.inl rfl)) _ value
  | getData key =>
    rw [effect, effect, h.dataIn_eq (hreads dataFile (.inl rfl))]
    exact ⟨rfl, h.files⟩
  | getWorkflow id =>
    rw [effect, effect, h.foundIn_eq (hown rfl)]
    exact ⟨rfl, h.files⟩
  | getExecution id =>
    rw [effect, effect, h.foundIn_eq (hown rfl)]
    exact ⟨rfl, h.files⟩
  | listWorkflows =>
    have hpaths : ∀ path ∈ workflowFiles w.files, within path = true := fun path hpath =>
      hlisted rfl path (isRecord_of_mem (List.mem_mergeSort.1 hpath))
    have hfiles : workflowFiles w'.files = workflowFiles w.files := by
      rw [workflowFiles, workflowFiles, h.recordFiles_eq (hlisted rfl)]
    rw [effect, effect, hfiles, h.workflowsAt_eq hpaths]
    exact ⟨rfl, h.files⟩
  | listExecutions workflow limit =>
    have hpaths : ∀ path ∈ recordFiles executionFolder w.files, within path = true :=
      fun path hpath => hlisted rfl path (isRecord_of_mem hpath)
    rw [effect, effect, executionsOf, executionsOf, h.recordFiles_eq (hlisted rfl),
      h.executionsAt_eq workflow hpaths]
    exact ⟨rfl, h.files⟩
  | reopen => exact ⟨rfl, h.files⟩

/-- A session gives the same answers wherever the files that it reads are the same. -/
theorem Operation.performAll_congr {ops : List Operation} (textual : ∀ op ∈ ops, op.Textual)
    (hreads : ∀ op ∈ ops, ∀ path, op.Reads path → within path = true) (h : Alike within w w') :
    (performAll ops w').1 = (performAll ops w).1 := by
  induction ops generalizing w w' with
  | nil => rfl
  | cons op ops ih =>
    obtain ⟨journal, hrun⟩ := op.perform_comesTo w
    obtain ⟨journal', hrun'⟩ := op.perform_comesTo w'
    obtain ⟨hanswer, hfiles⟩ :=
      effect_congr (textual op List.mem_cons_self) (hreads op List.mem_cons_self) h
    have hrest := ih (fun op hop => textual op (List.mem_cons_of_mem _ hop))
      (fun op hop => hreads op (List.mem_cons_of_mem _ hop)) (h.after hfiles journal journal')
    rw [performAll, performAll]
    dsimp only
    rw [hrun, hrun', hanswer, hrest]

end Alike

/-! ## Confinement -/

/-- **A session stays in the store.** Whatever identifiers it is given, the files that change are that
of the data values and those of records it is asked about, right in their folders; only these and,
for a listing, the other records of the folder decide what is answered. An identifier that is not
safe is refused or finds nothing, and the files stay as they are; one that is safe names a file that
is right in the folder. -/
theorem session_confined (ops : List Operation) (textual : ∀ op ∈ ops, op.Textual) (w : World) :
    (∀ path, (Operation.performAll ops w).2.files.lookup path ≠ w.files.lookup path →
      path = dataFile ∨ ∃ op ∈ ops, ∃ folder ∈ [workflowFolder, executionFolder], ∃ id,
        op.target? = some (folder, id) ∧ '/' ∉ id.toList ∧ path = recordPath folder id) ∧
    (∀ (within : String → Bool) (files : Files),
      (∀ op ∈ ops, ∀ path, op.Reads path → within path = true) →
      files.filter (fun e => within e.1) = w.files.filter (fun e => within e.1) →
      (Operation.performAll ops { w with files := files }).1 = (Operation.performAll ops w).1) ∧
    (∀ op ∈ ops, ∀ folder id, op.target? = some (folder, id) → isSafeId id = false →
      op.Refuses (op.perform.runIn w).1 ∧ (op.perform.runIn w).2.files = w.files) ∧
    (∀ id, isSafeId id = true → ∀ folder, recordFile w folder (.text id) = .ok (recordPath folder id) ∧
      ((directory w folder).join (.ofText (id ++ extension))).resolve w.workingFolder =
        (directory w folder).resolve w.workingFolder ++ [id ++ extension]) := by
  refine ⟨fun path hchanged => ?_, fun within files hreads hfiles => ?_,
    fun op hop folder id htarget hunsafe => ?_, fun id hsafe folder => ?_⟩
  · by_cases hworks : ∃ op ∈ ops, op.file? = some path
    · obtain ⟨op, hop, hfile⟩ := hworks
      exact (Operation.file?_cases hfile).imp_right fun hrecord => ⟨op, hop, hrecord⟩
    · refine absurd (Operation.performAll_elsewhere textual (fun op hop hfile => ?_) w) hchanged
      exact hworks ⟨op, hop, hfile⟩
  · exact Operation.performAll_congr textual hreads ⟨⟨rfl, rfl⟩, hfiles⟩
  · obtain ⟨hrefuses, hfiles⟩ := Operation.effect_rejected htarget hunsafe w
    obtain ⟨journal, hrun⟩ := op.perform_comesTo w
    rw [hrun]
    exact ⟨hrefuses, hfiles⟩
  · exact ⟨recordFile_text hsafe none folder w, resolve_name hsafe folder w⟩

/-- A session with identifiers that lead out of the folders. -/
def escaping : List Operation :=
  [.createExecution (.dict [(.text "id", .text "../e")]),
    .saveWorkflow (.dict [(.text "id", .text "/w")]), .getWorkflow ".."]

theorem session_confined_escaping :
    (∀ op ∈ escaping, op.Textual) ∧
      (∃ f, ((createExecution (.dict [(.text "id", .text "../e")])).runIn {}).1 = .error f ∧
        f.kind = "ValueError") ∧
      (Operation.performAll escaping {}).2.files.lookup "e.json" = none := by
  have textual : ∀ op ∈ escaping, op.Textual := by
    intro op hop
    simp only [escaping, List.mem_cons, List.not_mem_nil, or_false] at hop
    obtain rfl | rfl | rfl := hop
    · rintro id ⟨⟩ -
      exact ⟨_, _, rfl⟩
    · rintro id ⟨⟩ -
      exact ⟨_, _, rfl⟩
    · trivial
  obtain ⟨hchanged, -, hrefused, -⟩ := session_confined escaping textual {}
  refine ⟨textual, (hrefused _ List.mem_cons_self executionFolder "../e" rfl (by decide)).1, ?_⟩
  by_contra hfound
  rcases hchanged "e.json" hfound with hdata | ⟨_, _, folder, hfolder, id, _, _, hpath⟩
  · exact absurd hdata (by decide)
  · have hslash : '/' ∈ "e.json".toList := by simp [hpath, recordPath]
    exact absurd hslash (by decide)

end LocalStore

end WorkflowEngine
