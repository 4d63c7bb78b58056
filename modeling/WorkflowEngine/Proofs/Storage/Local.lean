import WorkflowEngine.Proofs.Storage.Paths

/-!
# What the local store keeps

A value that JSON can say is read back from the file it is written to (`writeFile_decoded`,
`readFile_holds`), and the other files stay as they are. So a record that is created or changed is
found again as it was given back, and what the store finds under an identifier depends on one file
alone (`getExecution_congr`, `getWorkflow_congr`).
-/

namespace WorkflowEngine

open Number Text

/-! ## Running work -/

namespace Work

variable {α β : Type} {work : Work α} {next : α → Work β} {w w' : World}

@[simp] theorem runIn_pure (a : α) (w : World) : (pure a : Work α).runIn w = (.ok a, w) := rfl

@[simp] theorem runIn_ofAttempt (a : Attempt α) (w : World) :
    (ofAttempt a).runIn w = (a, w) := by
  cases a <;> rfl

@[simp] theorem runIn_remark (level : Level) (source message : String) (w : World) :
    (remark level source message).runIn w = (.ok (), w.note (.note level source message)) := rfl

/-- Work whose first part is done goes on in the world that this leaves. -/
theorem runIn_step {a : α} (h : work.runIn w = (.ok a, w')) :
    (work >>= next).runIn w = (next a).runIn w' := by
  rw [runIn, Keeps.run_bind, show StateT.run (ExceptT.run work) w = _ from h]
  rfl

/-- Work whose first part is given up is given up with it. -/
theorem runIn_error {f : Failure} (h : work.runIn w = (.error f, w')) :
    (work >>= next).runIn w = (.error f, w') := by
  rw [runIn, Keeps.run_bind, show StateT.run (ExceptT.run work) w = _ from h]

theorem runIn_get (next : World → Work β) (w : World) :
    (get >>= next).runIn w = (next w).runIn w :=
  runIn_step rfl

/-- Of an attempt that makes a value, only the value counts. -/
theorem runIn_attempt {a : Attempt α} {v : α} (h : a = .ok v) :
    (ofAttempt a >>= next).runIn w = (next v).runIn w :=
  runIn_step (by rw [runIn_ofAttempt, h])

end Work

theorem Store.on_local {α : Type} {here there : Work α} {w : World} (h : w.backend = .local) :
    (Store.on here there).runIn w = here.runIn w := by
  rw [Store.on, Work.runIn_get, h]

namespace LocalStore

/-! ## Files -/

/-- Whether a file holds the JSON of a value. -/
def Holds (w : World) (path : String) (v : Value) : Prop :=
  ∃ file text j, w.files.lookup path = some file ∧ file.content = .text text ∧
    Json.read text = .ok j ∧ j.toValue = v

variable {w w' : World} {path : String} {v : Value}

theorem Holds.of_sameFilesBut {paths : List String} (h : w.SameFilesBut paths w')
    (hpath : path ∉ paths) (hv : Holds w path v) : Holds w' path v := by
  obtain ⟨file, text, j, hlookup, hrest⟩ := hv
  exact ⟨file, text, j, (h.files path hpath).trans hlookup, hrest⟩

/-- What is read from a file: nothing if it holds no JSON. -/
def valueOf (file : File) : Attempt Value :=
  match file.content.read? with
  | none => .fault .undecodable
  | some text =>
    match Json.read text with
    | .ok j => .ok j.toValue
    | .error c => if c.cause = .longInteger then .fault .malformed else .ok .null

/-- What is read from under a path, where a file stands or not. -/
def foundAt (path : String) (file : Option File) : Attempt Value :=
  if Accepts path then file.elim (.ok .null) valueOf else .fault .refused

theorem checkName_runIn (h : Accepts path) : (checkName path).runIn w = (.ok (), w) := by
  have hname : ¬ nameLimit < (toUtf8 (String.ofList (behindLast '/' path.toList))).length :=
    Nat.not_lt.2 h
  rw [checkName]
  simp only [hname, if_false]
  rfl

theorem checkName_refused (h : ¬ Accepts path) :
    (checkName path).runIn w = (.error (.data .refused), w) := by
  have hname : nameLimit < (toUtf8 (String.ofList (behindLast '/' path.toList))).length :=
    Nat.not_le.1 h
  rw [checkName]
  simp only [hname, if_true]
  rfl

theorem checkFolder_runIn (h : Housed path) : (checkFolder path).runIn w = (.ok (), w) := by
  rw [checkFolder]
  simp only [List.contains_iff_mem.2 h, Bool.not_true, Bool.false_eq_true, if_false]
  rfl

theorem checkFolder_absent (h : ¬ Housed path) :
    (checkFolder path).runIn w = (.error (.data .absent), w) := by
  have habsent := Bool.eq_false_iff.2 fun hmem => h (List.contains_iff_mem.1 hmem)
  rw [checkFolder]
  simp only [habsent, Bool.not_false, if_true]
  rfl

/-- **What is read from a file is up to the file alone**, and nothing but the journal changes. -/
theorem readFile_runIn (path : String) (w : World) : ∃ journal,
    (readFile path).runIn w =
      (foundAt path (w.files.lookup path), { w with journal := journal }) := by
  by_cases haccepted : Accepts path
  · rw [readFile, Work.runIn_step (checkName_runIn haccepted), Work.runIn_get, foundAt,
      if_pos haccepted]
    cases hlookup : w.files.lookup path with
    | none => exact ⟨w.journal, rfl⟩
    | some file =>
      simp only [Option.elim_some, valueOf]
      cases hcontent : file.content.read? with
      | none => exact ⟨w.journal, rfl⟩
      | some text =>
        dsimp only
        cases hread : Json.read text with
        | ok j => exact ⟨w.journal, rfl⟩
        | error c =>
          dsimp only
          split
          · exact ⟨w.journal, rfl⟩
          · simp only [Work.runIn_get, Work.runIn_step (Work.runIn_remark _ _ _ _),
              Work.runIn_pure]
            exact ⟨_, rfl⟩
  · rw [readFile, Work.runIn_error (checkName_refused haccepted), foundAt, if_neg haccepted]
    exact ⟨w.journal, rfl⟩

/-- What JSON can say is written as JSON that is read as the same value. -/
theorem fileText_decoded (h : v.Decoded) :
    ∃ text j, v.fileText = .ok text ∧ Json.read text = .ok j ∧ j.toValue = v := by
  obtain ⟨j, hj, rfl⟩ := h
  refine ⟨j.render (some "  "), j, ?_, Json.read_render ?_ hj, rfl⟩
  · rw [Value.fileText, Json.toJson_toValue true j hj]
    rfl
  · rintro s ⟨⟩
    exact List.all_eq_true.1 (show "  ".toList.all Json.isGap = true by decide)

/-- What comes of writing a value to a file, and what the files are then. -/
def writtenTo (path : String) (v : Value) (files : Files) : Attempt Unit × Files :=
  if Accepts path then
    if Housed path then
      match v.fileText with
      | .ok text => (.ok (), Files.putOwned path text files)
      | .error f => (.error f, Files.putContent path (.text (v.spill Value.fileLayout).1) files)
    else (.fault .absent, files)
  else (.fault .refused, files)

/-- Writing to a file leaves the others as they are. -/
theorem lookup_writtenTo {other : String} (h : other ≠ path) (v : Value) (files : Files) :
    (writtenTo path v files).2.lookup other = files.lookup other := by
  have hput (file : File) : (Entries.put path file files).lookup other = files.lookup other := by
    rw [Entries.lookup_put, if_neg (by simpa using h)]
  rw [writtenTo]
  split
  · split
    · split
      · exact hput _
      · exact hput _
    · rfl
  · rfl

/-- What JSON can say is written to a file from which it is read again. -/
theorem writtenTo_decoded (haccepted : Accepts path) (housed : Housed path) (h : v.Decoded)
    (files : Files) : ∃ file, writtenTo path v files = (.ok (), Entries.put path file files) ∧
      valueOf file = .ok v := by
  obtain ⟨text, j, htext, hread, hvalue⟩ := fileText_decoded h
  refine ⟨⟨.text text, ownerOnly⟩, ?_, ?_⟩
  · rw [writtenTo, if_pos haccepted, if_pos housed, htext]
    rfl
  · rw [valueOf]
    simp only [Content.read?, hread, hvalue]

/-- **Writing a file changes no other**, and nothing but files. -/
theorem writeFile_runIn (path : String) (v : Value) (w : World) :
    (writeFile path v).runIn w =
      ((writtenTo path v w.files).1, { w with files := (writtenTo path v w.files).2 }) := by
  by_cases haccepted : Accepts path
  · rw [writeFile, Work.runIn_step (checkName_runIn haccepted), writtenTo, if_pos haccepted]
    by_cases housed : Housed path
    · rw [Work.runIn_step (checkFolder_runIn housed), if_pos housed]
      cases v.fileText with
      | ok text => rfl
      | error f => rfl
    · rw [Work.runIn_error (checkFolder_absent housed), if_neg housed]
      rfl
  · rw [writeFile, Work.runIn_error (checkName_refused haccepted), writtenTo, if_neg haccepted]
    rfl

/-- Writing a value changes its file alone, which holds it from then on. -/
theorem writeFile_decoded (haccepted : Accepts path) (housed : Housed path) (h : v.Decoded)
    (w : World) :
    ∃ w', (writeFile path v).runIn w = (.ok (), w') ∧ w.SameFilesBut [path] w' ∧
      Holds w' path v := by
  obtain ⟨text, j, htext, hread, hvalue⟩ := fileText_decoded h
  refine ⟨_, ?_, .put w path ⟨.text text, ownerOnly⟩, ⟨.text text, ownerOnly⟩, text, j, ?_, rfl,
    hread, hvalue⟩
  · rw [writeFile_runIn, writtenTo, if_pos haccepted, if_pos housed, htext]
    rfl
  · rw [Entries.lookup_put, if_pos (beq_self_eq_true path)]

/-- A value that cannot be written is refused, and its file broken off. -/
theorem writeFile_error {f : Failure} (haccepted : Accepts path) (housed : Housed path)
    (h : v.fileText = .error f) (w : World) :
    (writeFile path v).runIn w = (.error f, { w with
      files := Files.putContent path (.text (v.spill Value.fileLayout).1) w.files }) := by
  rw [writeFile_runIn, writtenTo, if_pos haccepted, if_pos housed, h]

theorem readFile_holds (haccepted : Accepts path) (h : Holds w path v) :
    (readFile path).runIn w = (.ok v, w) := by
  obtain ⟨file, text, j, hlookup, htext, hread, rfl⟩ := h
  rw [readFile, Work.runIn_step (checkName_runIn haccepted), Work.runIn_get, hlookup]
  simp only [htext, Content.read?, hread, Work.runIn_pure]

/-! ## Records -/

theorem executionFile_ne_dataFile (id : String) : executionFile id ≠ dataFile := by
  intro h
  have hhead := congrArg (List.take 1 ∘ String.toList) h
  simp [executionFile, executionFolder, dataFile] at hhead

theorem recordPath_injective {folder id id' : String}
    (h : recordPath folder id = recordPath folder id') : id = id' := by
  simpa [recordPath] using h

theorem executionFile_injective {id id' : String} (h : executionFile id = executionFile id') :
    id = id' :=
  recordPath_injective (show recordPath executionFolder id = recordPath executionFolder id' from h)

theorem workflowFile_ne (name id : String) :
    workflowFolder ++ "/" ++ name ++ extension ≠ executionFile id ∧
      workflowFolder ++ "/" ++ name ++ extension ≠ dataFile := by
  constructor
  all_goals
    intro h
    have hhead := congrArg (List.take 1 ∘ String.toList) h
    simp [executionFile, executionFolder, workflowFolder, dataFile] at hhead

/-! ## The files of a folder -/

section Folder

variable {folder id : String} {files : Files}

/-- The file of a safe identifier is one of those that are listed. -/
theorem isRecord_recordPath (h : isSafeId id = true) (folder : String) :
    isRecord folder (recordPath folder id) = true := by
  have hpath : (recordPath folder id).toList =
      (folder ++ "/").toList ++ (id ++ extension).toList := by
    simp [recordPath]
  have hslash := fileName_noSlash (isSafeId_noSlash h)
  rw [isRecord, hpath, Text.behind?, if_pos (List.isPrefixOf_iff_prefix.2 (List.prefix_append _ _)),
    List.drop_left]
  have hend : extension.toList.isSuffixOf (id ++ extension).toList = true := by
    rw [List.isSuffixOf_iff_suffix, String.toList_append]
    exact List.suffix_append _ _
  simp only [hend, Bool.and_true, Bool.not_eq_true', List.contains_eq_mem, decide_eq_false_iff_not]
  exact hslash

/-- A folder lists no record of the other. -/
theorem isRecord_workflow (id : String) :
    isRecord executionFolder (recordPath workflowFolder id) = false := by
  simp [isRecord, Text.behind?, recordPath, workflowFolder, executionFolder]

theorem isRecord_execution (id : String) :
    isRecord workflowFolder (recordPath executionFolder id) = false := by
  simp [isRecord, Text.behind?, recordPath, workflowFolder, executionFolder]

/-- No folder lists the data values. -/
theorem isRecord_dataFile :
    isRecord workflowFolder dataFile = false ∧ isRecord executionFolder dataFile = false := by
  decide

theorem dataFile_ne_workflow (id : String) : dataFile ≠ recordPath workflowFolder id :=
  (workflowFile_ne id "").2.symm

theorem dataFile_ne_execution (id : String) : dataFile ≠ recordPath executionFolder id :=
  (executionFile_ne_dataFile id).symm

theorem recordFiles_put (path : String) (file : File) (files : Files) :
    recordFiles folder (Entries.put path file files) =
      if isRecord folder path && (files.lookup path).isNone then recordFiles folder files ++ [path]
      else recordFiles folder files := by
  rw [recordFiles, Entries.keys_put]
  cases hlookup : files.lookup path with
  | some old => simp [recordFiles]
  | none =>
    cases hrecord : isRecord folder path with
    | true => simp [recordFiles, hrecord]
    | false => simp [recordFiles, hrecord]

theorem recordFiles_erase (path : String) (files : Files) :
    recordFiles folder (Entries.erase path files) =
      (recordFiles folder files).filter fun other => !(path == other) := by
  rw [recordFiles, recordFiles, Entries.erase, List.filter_filter, List.filter_map, List.filter_map,
    List.filter_filter]
  refine congrArg _ (List.filter_congr fun e _ => ?_)
  exact Bool.and_comm _ _

theorem mem_recordFiles : path ∈ recordFiles folder files ↔
    isRecord folder path = true ∧ (files.lookup path).isSome = true := by
  rw [recordFiles, List.mem_filter, Entries.mem_keys_iff, and_comm]

end Folder

/-! ## Looking for records -/

/-- What the store finds under an identifier in a folder, null if there is nothing. -/
def foundIn (w : World) (folder : String) (id : Value) : Attempt Value := do
  if ← isSafe id then
    let path ← recordFile w folder id
    foundAt path (w.files.lookup path)
  else pure .null

/-- Looking for a record changes nothing but the journal. -/
theorem find_runIn (folder : String) (id : Value) (w : World) : ∃ journal,
    (do if ← Work.ofAttempt (isSafe id) then
          readFile (← Work.ofAttempt (recordFile (← get) folder id))
        else pure .null : Work Value).runIn w =
      (foundIn w folder id, { w with journal := journal }) := by
  rw [foundIn]
  cases hsafe : isSafe id with
  | error f => exact ⟨w.journal, rfl⟩
  | ok safe =>
    cases safe with
    | false => exact ⟨w.journal, rfl⟩
    | true =>
      cases hfile : recordFile w folder id with
      | error f =>
        refine ⟨w.journal, ?_⟩
        rw [Work.runIn_step (Work.runIn_ofAttempt _ w), if_pos rfl, Work.runIn_get, hfile]
        rfl
      | ok path =>
        obtain ⟨journal, hread⟩ := readFile_runIn path w
        refine ⟨journal, ?_⟩
        rw [Work.runIn_step (Work.runIn_ofAttempt _ w), if_pos rfl, Work.runIn_get, hfile,
          Work.runIn_step (Work.runIn_ofAttempt _ w), hread]
        rfl

theorem getExecution_runIn (id : Value) (w : World) : ∃ journal,
    (getExecution id).runIn w =
      (foundIn w executionFolder id, { w with journal := journal }) :=
  find_runIn executionFolder id w

theorem getWorkflow_runIn (id : Value) (w : World) : ∃ journal,
    (getWorkflow id).runIn w = (foundIn w workflowFolder id, { w with journal := journal }) :=
  find_runIn workflowFolder id w

/-- Under a safe identifier the store finds what its file holds. -/
theorem foundIn_text {id : String} (h : isSafeId id = true) (folder : String) (w : World) :
    foundIn w folder (.text id) =
      foundAt (recordPath folder id) (w.files.lookup (recordPath folder id)) := by
  rw [foundIn, isSafe, h, recordFile_text h]
  rfl

/-- What the store finds under an identifier depends on one file alone. -/
theorem foundIn_congr {paths : List String} (h : w.SameFilesBut paths w') {folder : String}
    {id : Value} (hid : ∀ name, id.plain = .ok name → recordPath folder name ∉ paths) :
    foundIn w' folder id = foundIn w folder id := by
  rw [foundIn, foundIn, recordFile_congr h.place]
  refine congrArg _ (funext fun safe => ?_)
  cases safe with
  | false => rfl
  | true =>
    cases hfile : recordFile w folder id with
    | error f => rfl
    | ok path =>
      obtain ⟨name, hname, rfl⟩ := recordFile_ok hfile
      exact congrArg (foundAt _) (h.files _ (hid name hname))

variable {id : String} {record : Value}

theorem getExecution_holds (hsafe : isSafeId id = true) (haccepted : Accepts (executionFile id))
    (h : Holds w (executionFile id) record) :
    (getExecution (.text id)).runIn w = (.ok record, w) := by
  rw [getExecution, Work.runIn_attempt (show isSafe (.text id) = .ok true by rw [isSafe, hsafe]),
    if_pos rfl, Work.runIn_get, Work.runIn_attempt (recordFile_text hsafe _ _ w)]
  exact readFile_holds haccepted h

theorem housed_executionFile (hsafe : isSafeId id = true) : Housed (executionFile id) :=
  housed_recordPath (by simp) hsafe

/-- A record that is created is given back, and found from then on. -/
theorem createExecution_decoded (hsafe : isSafeId id = true)
    (haccepted : Accepts (executionFile id)) (hrecord : record.Decoded)
    (hid : record.entry "id" = .ok (.text id)) (w : World) :
    ∃ w', (createExecution record).runIn w = (.ok record, w') ∧
      w.SameFilesBut [executionFile id] w' ∧ Holds w' (executionFile id) record := by
  obtain ⟨w', hwrite, hsame, hholds⟩ :=
    writeFile_decoded haccepted (housed_executionFile hsafe) hrecord w
  refine ⟨w'.note (.note .debug "local_json" ("Created execution " ++ id)), ?_,
    hsame.trans (.of_eq rfl rfl), hholds.of_sameFilesBut (.of_eq rfl rfl) List.not_mem_nil⟩
  rw [createExecution, Work.runIn_attempt hid, Work.runIn_get,
    Work.runIn_attempt (recordFile_text hsafe _ _ w),
    Work.runIn_step (show (writeFile (recordPath executionFolder id) record).runIn w = _ from hwrite),
    shown,
    Work.runIn_attempt (show (Value.text id).plain = .ok id from rfl),
    Work.runIn_step (Work.runIn_remark _ _ _ _)]
  rfl

/-- Changing a record comes to writing the changed one. -/
theorem updateExecution_eq {updates final : Value} (hsafe : isSafeId id = true)
    (haccepted : Accepts (executionFile id)) (hholds : Holds w (executionFile id) record)
    (hrecord : record.isNull = false) (hfinal : overwrite record updates = .ok final) :
    (updateExecution (.text id) updates).runIn w =
      (writeFile (executionFile id) final >>= fun _ => pure final : Work Value).runIn w := by
  rw [updateExecution, Work.runIn_attempt (show isSafe (.text id) = .ok true by rw [isSafe, hsafe]),
    if_pos rfl, Work.runIn_step (getExecution_holds hsafe haccepted hholds), hrecord,
    if_neg Bool.false_ne_true, Work.runIn_attempt hfinal, Work.runIn_get,
    Work.runIn_attempt (recordFile_text hsafe _ _ w)]
  rfl

/-- A record that is changed is given back as it is found from then on. -/
theorem updateExecution_decoded {updates final : Value} (hsafe : isSafeId id = true)
    (haccepted : Accepts (executionFile id)) (hholds : Holds w (executionFile id) record)
    (hrecord : record.isNull = false) (hfinal : overwrite record updates = .ok final)
    (hdecoded : final.Decoded) :
    ∃ w', (updateExecution (.text id) updates).runIn w = (.ok final, w') ∧
      w.SameFilesBut [executionFile id] w' ∧ Holds w' (executionFile id) final := by
  obtain ⟨w', hwrite, hkept⟩ :=
    writeFile_decoded haccepted (housed_executionFile hsafe) hdecoded w
  refine ⟨w', ?_, hkept⟩
  rw [updateExecution_eq hsafe haccepted hholds hrecord hfinal, Work.runIn_step hwrite]
  rfl

theorem getExecution_congr {paths : List String} (h : w.SameFilesBut paths w') {other : Value}
    (hother : ∀ name, other.plain = .ok name → executionFile name ∉ paths) :
    ((getExecution other).runIn w').1 = ((getExecution other).runIn w).1 := by
  obtain ⟨_, hfound⟩ := getExecution_runIn other w
  obtain ⟨_, hfound'⟩ := getExecution_runIn other w'
  rw [hfound, hfound']
  exact foundIn_congr h hother

theorem getWorkflow_congr {paths : List String} (h : w.SameFilesBut paths w') (other : Value)
    (hother : ∀ name, workflowFolder ++ "/" ++ name ++ extension ∉ paths) :
    ((getWorkflow other).runIn w').1 = ((getWorkflow other).runIn w).1 := by
  obtain ⟨_, hfound⟩ := getWorkflow_runIn other w
  obtain ⟨_, hfound'⟩ := getWorkflow_runIn other w'
  rw [hfound, hfound']
  exact foundIn_congr h fun name _ => hother name

end LocalStore

end WorkflowEngine
