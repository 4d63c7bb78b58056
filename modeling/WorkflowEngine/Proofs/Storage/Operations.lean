import WorkflowEngine.Proofs.Storage.Local

/-!
# The operations of the local store

The operations that a session at the store is made of, and what each comes to as a function of the
files (`Operation.effect`). Nothing else decides an answer, and nothing else but the journal changes
(`perform_comesTo`); so what is shown of a session is shown on the files alone. A failure is an answer
too, after which the session goes on.
-/

namespace WorkflowEngine

/-! ## Work that changes files -/

namespace Work

variable {α β : Type} {work : Work α} {next : α → Work β} {w : World} {a : Attempt α}
  {b : Attempt β} {files files' : Files}

/-- Work comes to an outcome and leaves some files, and nothing else has changed but the journal. -/
def ComesTo (work : Work α) (w : World) (a : Attempt α) (files : Files) : Prop :=
  ∃ journal, work.runIn w = (a, { w with files := files, journal := journal })

namespace ComesTo

theorem pure (a : α) (w : World) : (Pure.pure a : Work α).ComesTo w (.ok a) w.files :=
  ⟨w.journal, rfl⟩

theorem ofAttempt (a : Attempt α) (w : World) : (Work.ofAttempt a).ComesTo w a w.files :=
  ⟨w.journal, runIn_ofAttempt a w⟩

theorem remark (level : Level) (source message : String) (w : World) :
    (Work.remark level source message).ComesTo w (.ok ()) w.files :=
  ⟨_, rfl⟩

theorem bind {v : α} (h : work.ComesTo w (.ok v) files)
    (hnext : ∀ journal, (next v).ComesTo { w with files := files, journal := journal } b files') :
    (work >>= next).ComesTo w b files' := by
  obtain ⟨journal, hrun⟩ := h
  obtain ⟨journal', hrun'⟩ := hnext journal
  exact ⟨journal', (runIn_step hrun).trans hrun'⟩

theorem bind_error {f : Failure} (h : work.ComesTo w (.error f) files) :
    (work >>= next).ComesTo w (.error f) files := by
  obtain ⟨journal, hrun⟩ := h
  exact ⟨journal, runIn_error hrun⟩

theorem get {next : World → Work β} (h : (next w).ComesTo w b files) :
    (MonadState.get >>= next).ComesTo w b files := by
  obtain ⟨journal, hrun⟩ := h
  exact ⟨journal, (runIn_get next w).trans hrun⟩

theorem attempt {a : Attempt α} {v : α} (ha : a = .ok v) (h : (next v).ComesTo w b files) :
    (Work.ofAttempt a >>= next).ComesTo w b files := by
  obtain ⟨journal, hrun⟩ := h
  exact ⟨journal, (runIn_attempt ha).trans hrun⟩

theorem attempt_error {a : Attempt α} {f : Failure} (ha : a = .error f) :
    (Work.ofAttempt a >>= next).ComesTo w (.error f) w.files :=
  bind_error (ha ▸ ofAttempt a w)

/-- Work at a store that is kept in files is the work of the local store. -/
theorem on_local {here there : Work α} (hlocal : w.backend = .local) (h : here.ComesTo w a files) :
    (Store.on here there).ComesTo w a files := by
  obtain ⟨journal, hrun⟩ := h
  exact ⟨journal, (Store.on_local hlocal).trans hrun⟩

/-- An attempt, and what follows it if it comes to a value. -/
theorem bind_attempt {rest : α → Attempt β} (a : Attempt α)
    (hnext : ∀ v, (next v).ComesTo w (rest v) w.files) :
    (Work.ofAttempt a >>= next).ComesTo w (a >>= rest) w.files := by
  cases a with
  | error f => exact attempt_error rfl
  | ok v => exact attempt rfl (hnext v)

end ComesTo

end Work

namespace LocalStore

open Work

theorem readFile_comesTo (path : String) (w : World) :
    (readFile path).ComesTo w (foundAt path (w.files.lookup path)) w.files :=
  readFile_runIn path w

theorem writeFile_comesTo (path : String) (v : Value) (w : World) :
    (writeFile path v).ComesTo w (writtenTo path v w.files).1 (writtenTo path v w.files).2 :=
  ⟨w.journal, writeFile_runIn path v w⟩

/-! ## Sessions -/

/-- What can be asked of the store. -/
inductive Operation where
  | saveWorkflow (workflow : Value)
  | getWorkflow (id : String)
  | listWorkflows
  | deleteWorkflow (id : String)
  | createExecution (execution : Value)
  | updateExecution (id : String) (updates : Value)
  | getExecution (id : String)
  | listExecutions (workflow limit : Value)
  | setData (key : String) (value : Value)
  | getData (key : String)
  /-- The store is opened anew. It keeps nothing outside its files. -/
  | reopen

namespace Operation

/-- The work that an operation does. -/
def perform : Operation → Work Value
  | saveWorkflow workflow => LocalStore.saveWorkflow workflow
  | getWorkflow id => LocalStore.getWorkflow (.text id)
  | listWorkflows => LocalStore.listWorkflows
  | deleteWorkflow id => LocalStore.deleteWorkflow (.text id)
  | createExecution execution => LocalStore.createExecution execution
  | updateExecution id updates => LocalStore.updateExecution (.text id) updates
  | getExecution id => LocalStore.getExecution (.text id)
  | listExecutions workflow limit => LocalStore.listExecutions workflow limit
  | setData key value => LocalStore.setData (.text key) value
  | getData key => LocalStore.getData (.text key)
  | reopen => pure .null

/-- The answers to a row of operations, and the world after them. -/
def performAll : List Operation → World → List (Attempt Value) × World
  | [], w => ([], w)
  | op :: ops, w =>
    let (answer, w) := op.perform.runIn w
    let (answers, w) := performAll ops w
    (answer :: answers, w)

end Operation

/-! ## What comes of an operation -/

/-- What comes of keeping a value in a folder under an identifier, and the files then. -/
def keptIn (w : World) (folder : String) (id v : Value) : Attempt Value × Files :=
  match recordFile w folder id with
  | .error f => (.error f, w.files)
  | .ok path => ((writtenTo path v w.files).1.map fun _ => v, (writtenTo path v w.files).2)

/-- The workflows that some files hold. -/
def workflowsAt (files : Files) (paths : List String) : Attempt (List Value) :=
  (fun found => found.filter fun v => !v.isNull) <$>
    paths.mapM fun path => foundAt path (files.lookup path)

/-- The files of the workflows, in order. -/
def workflowFiles (files : Files) : List String :=
  (recordFiles workflowFolder files).mergeSort fun a b => decide (a ≤ b)

/-- The execution records that some files hold, of one workflow or of all. -/
def executionsAt (files : Files) (workflow : Value) : List String → Attempt (List Value)
  | [] => .ok []
  | path :: rest =>
    foundAt path (files.lookup path) >>= fun record =>
      if record.isNull then executionsAt files workflow rest
      else if workflow.holds then
        record.get "workflow_id" >>= fun owner =>
          if owner.equal workflow then (record :: ·) <$> executionsAt files workflow rest
          else executionsAt files workflow rest
      else (record :: ·) <$> executionsAt files workflow rest

/-- The execution records in the order in which they are listed. -/
def executionsOf (files : Files) (workflow limit : Value) : Attempt Value := do
  let records ← executionsAt files workflow (recordFiles executionFolder files)
  let keyed ← records.mapM fun r => do pure (← startTime r, r)
  let ordered ← latestFirst keyed
  let cut ← limited (ordered.map Prod.snd) limit
  pure (.list cut)

/-- The data values. -/
def dataIn (files : Files) : Attempt Value :=
  (fun data => data.orElse (.dict [])) <$> foundAt dataFile (files.lookup dataFile)

/-- The entry of a value that is to be an object, null if there is none. -/
def entryOf (key : Value) : Value → Attempt Value
  | .dict entries _ => (fun k => (entries.lookup k).getD .null) <$> key.key
  | _ => .fault .missingMember

/-- What comes of keeping a new execution record. -/
def created (w : World) (execution : Value) : Attempt Value × Files :=
  match execution.entry "id" with
  | .error f => (.error f, w.files)
  | .ok id => keptIn w executionFolder id execution

/-- What comes of changing an execution record. -/
def updated (w : World) (id updates : Value) : Attempt Value × Files :=
  match foundIn w executionFolder id with
  | .error f => (.error f, w.files)
  | .ok record =>
    if record.isNull then (.ok .null, w.files)
    else
      match overwrite record updates with
      | .error f => (.error f, w.files)
      | .ok record => keptIn w executionFolder id record

/-- What comes of keeping a workflow. -/
def saved (w : World) (workflow : Value) : Attempt Value × Files :=
  match workflow.get "id" with
  | .error f => (.error f, w.files)
  | .ok id =>
    if id.holds then keptIn w workflowFolder id workflow
    else (.error .workflowWithoutId, w.files)

/-- What comes of dropping the workflow under a text. -/
def deleted (w : World) (id : String) : Attempt Value × Files :=
  if isSafeId id then
    let path := recordPath workflowFolder id
    if Accepts path then
      if Entries.contains path w.files then (.ok (.bool true), Entries.erase path w.files)
      else (.ok (.bool false), w.files)
    else (.fault .refused, w.files)
  else (.ok (.bool false), w.files)

/-- What comes of keeping a data value. -/
def dataSet (w : World) (key value : Value) : Attempt Value × Files :=
  match dataIn w.files >>= fun data => putEntry data key value with
  | .error f => (.error f, w.files)
  | .ok data =>
    ((writtenTo dataFile data w.files).1.map fun _ => .null, (writtenTo dataFile data w.files).2)

/-- What an operation answers, and the files that it leaves. -/
def Operation.effect (w : World) : Operation → Attempt Value × Files
  | saveWorkflow workflow => saved w workflow
  | getWorkflow id => (foundIn w workflowFolder (.text id), w.files)
  | listWorkflows => (Value.list <$> workflowsAt w.files (workflowFiles w.files), w.files)
  | deleteWorkflow id => deleted w id
  | createExecution execution => created w execution
  | updateExecution id updates => updated w (.text id) updates
  | getExecution id => (foundIn w executionFolder (.text id), w.files)
  | listExecutions workflow limit => (executionsOf w.files workflow limit, w.files)
  | setData key value => dataSet w (.text key) value
  | getData key => (dataIn w.files >>= entryOf (.text key), w.files)
  | reopen => (.ok .null, w.files)

/-! ## The operations come to their effects -/

/-- A value is kept, and what follows only remarks on it. -/
theorem keep_comesTo (folder : String) (id v : Value) {after : Work Value} (w : World)
    (hafter : ∀ name w', id.plain = .ok name → after.ComesTo w' (.ok v) w'.files) :
    (do
      let path ← Work.ofAttempt (recordFile (← get) folder id)
      writeFile path v
      after).ComesTo w (keptIn w folder id v).1 (keptIn w folder id v).2 := by
  unfold keptIn
  cases hpath : recordFile w folder id with
  | error f => exact .get (.attempt_error hpath)
  | ok path =>
    obtain ⟨name, hname, -⟩ := recordFile_ok hpath
    have hwrite := writeFile_comesTo path v w
    refine .get (.attempt hpath ?_)
    dsimp only
    cases hwritten : (writtenTo path v w.files).1 with
    | error f =>
      rw [hwritten] at hwrite
      exact .bind_error hwrite
    | ok _ =>
      rw [hwritten] at hwrite
      exact .bind hwrite fun journal => hafter name _ hname

/-- A value is kept, noted, and given back. -/
theorem keepNoted_comesTo (folder note : String) (id v : Value) (w : World) :
    (do
      let path ← Work.ofAttempt (recordFile (← get) folder id)
      writeFile path v
      Work.remark .debug "local_json" (note ++ (← shown id))
      pure v).ComesTo w (keptIn w folder id v).1 (keptIn w folder id v).2 :=
  keep_comesTo folder id v w fun _ _ hname =>
    .attempt hname (.bind (.remark _ _ _ _) fun _ => .pure v _)

theorem createExecution_comesTo (execution : Value) (w : World) :
    (createExecution execution).ComesTo w (created w execution).1 (created w execution).2 := by
  unfold created
  cases hid : execution.entry "id" with
  | error f => exact .attempt_error hid
  | ok id =>
    exact .attempt hid (keepNoted_comesTo executionFolder "Created execution " id execution w)

theorem saveWorkflow_comesTo (workflow : Value) (w : World) :
    (saveWorkflow workflow).ComesTo w (saved w workflow).1 (saved w workflow).2 := by
  unfold saved
  cases hid : workflow.get "id" with
  | error f => exact .attempt_error hid
  | ok id =>
    refine .attempt hid ?_
    cases hholds : id.holds with
    | false =>
      simp only [hholds, Bool.not_false, if_true, Bool.false_eq_true, if_false]
      exact ⟨w.journal, rfl⟩
    | true =>
      simp only [hholds, Bool.not_true, Bool.false_eq_true, if_false, if_true]
      exact keepNoted_comesTo workflowFolder "Saved workflow " id workflow w

/-- An identifier under which the store looks for a file has a plain form. -/
theorem plain_of_foundIn {w : World} {folder : String} {id v : Value} (hsafe : isSafe id = .ok true)
    (h : foundIn w folder id = .ok v) : ∃ name, id.plain = .ok name := by
  rw [foundIn, hsafe] at h
  obtain ⟨_, ⟨⟩, h⟩ := Attempt.bind_ok h
  obtain ⟨path, hpath, _⟩ := Attempt.bind_ok h
  obtain ⟨name, hname, _⟩ := recordFile_ok hpath
  exact ⟨name, hname⟩

theorem updateExecution_comesTo (id updates : Value) (w : World) :
    (updateExecution id updates).ComesTo w (updated w id updates).1 (updated w id updates).2 := by
  unfold updated
  have hfind := getExecution_runIn id w
  cases hsafe : isSafe id with
  | error f =>
    rw [foundIn, hsafe]
    exact .attempt_error hsafe
  | ok safe =>
    refine .attempt hsafe ?_
    cases safe with
    | false =>
      rw [foundIn, hsafe]
      exact .pure Value.null w
    | true =>
      cases hfound : foundIn w executionFolder id with
      | error f =>
        rw [hfound] at hfind
        exact .bind_error hfind
      | ok record =>
        rw [hfound] at hfind
        refine .bind hfind fun journal => ?_
        cases hnull : record.isNull with
        | true =>
          obtain ⟨name, hname⟩ := plain_of_foundIn hsafe hfound
          simp only [hnull, if_true]
          exact .attempt hname (.bind (.remark _ _ _ _) fun _ => .pure Value.null _)
        | false =>
          simp only [hnull, Bool.false_eq_true, if_false]
          cases hfinal : overwrite record updates with
          | error f => exact .attempt_error rfl
          | ok final =>
            exact .attempt rfl (keep_comesTo executionFolder id final
              { w with journal := journal } fun _ _ _ => .pure final _)

theorem deleteWorkflow_comesTo (id : String) (w : World) :
    (deleteWorkflow (.text id)).ComesTo w (deleted w id).1 (deleted w id).2 := by
  unfold deleted
  refine .attempt (show isSafe (.text id) = .ok (isSafeId id) from rfl) ?_
  cases hsafe : isSafeId id with
  | false => exact .pure (Value.bool false) w
  | true =>
    refine .get (.attempt (recordFile_text hsafe none workflowFolder w) ?_)
    dsimp only
    by_cases haccepted : Accepts (recordPath workflowFolder id)
    · rw [if_pos rfl, if_pos haccepted]
      refine .bind ⟨w.journal, checkName_runIn haccepted⟩ fun journal => .get ?_
      dsimp only
      cases Entries.contains (recordPath workflowFolder id) w.files with
      | false => exact .pure (Value.bool false) _
      | true => exact ⟨_, rfl⟩
    · rw [if_pos rfl, if_neg haccepted]
      exact .bind_error ⟨w.journal, checkName_refused haccepted⟩

theorem loadData_comesTo (w : World) : loadData.ComesTo w (dataIn w.files) w.files := by
  have hread := readFile_comesTo dataFile w
  unfold dataIn
  cases hfound : foundAt dataFile (w.files.lookup dataFile) with
  | error f =>
    rw [hfound] at hread
    exact .bind_error hread
  | ok data =>
    rw [hfound] at hread
    exact .bind hread fun _ => .pure _ _

theorem setData_comesTo (key value : Value) (w : World) :
    (setData key value).ComesTo w (dataSet w key value).1 (dataSet w key value).2 := by
  have hload := loadData_comesTo w
  unfold dataSet
  cases hdata : dataIn w.files with
  | error f =>
    rw [hdata] at hload
    exact .bind_error hload
  | ok data =>
    rw [hdata] at hload
    refine .bind hload fun journal => ?_
    cases hput : putEntry data key value with
    | error f =>
      rw [show (Except.ok data >>= fun data => putEntry data key value) = _ from hput]
      exact .attempt_error rfl
    | ok news =>
      rw [show (Except.ok data >>= fun data => putEntry data key value) = _ from hput]
      refine .attempt rfl ?_
      have hwrite := writeFile_comesTo dataFile news { w with journal := journal }
      dsimp only at hwrite ⊢
      cases hwritten : (writtenTo dataFile news w.files).1 with
      | error f =>
        rw [hwritten] at hwrite
        exact .bind_error hwrite
      | ok _ =>
        rw [hwritten] at hwrite
        exact .bind hwrite fun _ => .pure _ _

theorem getData_comesTo (key : Value) (w : World) :
    (getData key).ComesTo w (dataIn w.files >>= entryOf key) w.files := by
  have hload := loadData_comesTo w
  cases hdata : dataIn w.files with
  | error f =>
    rw [hdata] at hload
    exact .bind_error hload
  | ok data =>
    rw [hdata] at hload
    refine .bind hload fun journal => ?_
    cases data with
    | dict entries mark =>
      change (Work.ofAttempt key.key >>= fun k => pure ((entries.lookup k).getD .null) :
        Work Value).ComesTo _ ((fun k => (entries.lookup k).getD .null) <$> key.key) _
      cases hkey : key.key with
      | error f => exact .attempt_error rfl
      | ok k => exact .attempt rfl (.pure _ _)
    | _ => exact ⟨journal, rfl⟩

/-- A workflow that is null is left out. -/
theorem workflowsAt_cons (files : Files) (path : String) (rest : List String) :
    workflowsAt files (path :: rest) = foundAt path (files.lookup path) >>= fun v =>
      (fun others => if v.isNull then others else v :: others) <$> workflowsAt files rest := by
  unfold workflowsAt
  rw [List.mapM_cons]
  cases foundAt path (files.lookup path) with
  | error f => rfl
  | ok v =>
    cases rest.mapM fun path => foundAt path (files.lookup path) with
    | error f => rfl
    | ok others =>
      cases hnull : v.isNull with
      | true =>
        change Except.ok ((v :: others).filter fun v => !v.isNull) = Except.ok _
        simp [hnull]
      | false =>
        change Except.ok ((v :: others).filter fun v => !v.isNull) = Except.ok _
        simp [hnull]

theorem readWorkflows_comesTo (paths : List String) (w : World) :
    (readWorkflows paths).ComesTo w (workflowsAt w.files paths) w.files := by
  induction paths generalizing w with
  | nil => exact .pure [] w
  | cons path rest ih =>
    have hread := readFile_comesTo path w
    rw [workflowsAt_cons]
    cases hfound : foundAt path (w.files.lookup path) with
    | error f =>
      rw [hfound] at hread
      exact .bind_error hread
    | ok workflow =>
      rw [hfound] at hread
      refine .bind hread fun journal => ?_
      have hrest := ih { w with journal := journal }
      dsimp only at hrest
      cases hothers : workflowsAt w.files rest with
      | error f =>
        rw [hothers] at hrest
        exact .bind_error hrest
      | ok others =>
        rw [hothers] at hrest
        exact .bind hrest fun _ => .pure _ _

theorem listWorkflows_comesTo (w : World) : listWorkflows.ComesTo w
    (Value.list <$> workflowsAt w.files (workflowFiles w.files)) w.files := by
  have hread := readWorkflows_comesTo (workflowFiles w.files) w
  cases hfound : workflowsAt w.files (workflowFiles w.files) with
  | error f =>
    rw [hfound] at hread
    exact .get (.bind_error hread)
  | ok workflows =>
    rw [hfound] at hread
    exact .get (.bind hread fun _ => .pure _ _)

/-- A record that is read is left out if it is null or of another workflow. -/
theorem executionsAt_cons {files : Files} {path : String} {record : Value}
    (h : foundAt path (files.lookup path) = .ok record) (workflow : Value) (rest : List String) :
    executionsAt files workflow (path :: rest) =
      if record.isNull then executionsAt files workflow rest
      else if workflow.holds then
        record.get "workflow_id" >>= fun owner =>
          if owner.equal workflow then (record :: ·) <$> executionsAt files workflow rest
          else executionsAt files workflow rest
      else (record :: ·) <$> executionsAt files workflow rest := by
  rw [executionsAt, h]
  rfl

theorem readExecutions_comesTo (workflow : Value) (paths : List String) (w : World) :
    (readExecutions workflow paths).ComesTo w (executionsAt w.files workflow paths) w.files := by
  induction paths generalizing w with
  | nil => exact .pure [] w
  | cons path rest ih =>
    have hread := readFile_comesTo path w
    cases hfound : foundAt path (w.files.lookup path) with
    | error f =>
      rw [executionsAt, hfound]
      rw [hfound] at hread
      exact .bind_error hread
    | ok record =>
      rw [executionsAt_cons hfound]
      rw [hfound] at hread
      refine .bind hread fun journal => ?_
      have hrest := ih { w with journal := journal }
      have hkept : (readExecutions workflow rest >>= fun others => pure (record :: others)).ComesTo
          { w with journal := journal }
          ((record :: ·) <$> executionsAt w.files workflow rest) w.files := by
        cases hothers : executionsAt w.files workflow rest with
        | error f => exact .bind_error (hothers ▸ hrest)
        | ok others => exact .bind (hothers ▸ hrest) fun _ => .pure _ _
      cases hnull : record.isNull with
      | true =>
        simp only [if_true]
        exact hrest
      | false =>
        cases hholds : workflow.holds with
        | false =>
          simp only [Bool.false_eq_true, if_false]
          exact hkept
        | true =>
          simp only [Bool.false_eq_true, if_false, if_true]
          refine .bind_attempt _ fun owner => ?_
          cases hequal : owner.equal workflow with
          | true => exact hkept
          | false => exact hrest

theorem listExecutions_comesTo (workflow limit : Value) (w : World) :
    (listExecutions workflow limit).ComesTo w (executionsOf w.files workflow limit) w.files := by
  have hread := readExecutions_comesTo workflow (recordFiles executionFolder w.files) w
  rw [executionsOf]
  cases hfound : executionsAt w.files workflow (recordFiles executionFolder w.files) with
  | error f => exact .get (.bind_error (hfound ▸ hread))
  | ok records =>
    refine .get (.bind (hfound ▸ hread) fun journal => ?_)
    refine .bind_attempt _ fun keyed => .bind_attempt _ fun ordered => .bind_attempt _ fun cut => ?_
    exact .pure _ _

/-- **An operation comes to its effect.** -/
theorem Operation.perform_comesTo (op : Operation) (w : World) :
    op.perform.ComesTo w (op.effect w).1 (op.effect w).2 := by
  cases op with
  | saveWorkflow workflow => exact saveWorkflow_comesTo workflow w
  | getWorkflow id => exact getWorkflow_runIn _ w
  | listWorkflows => exact listWorkflows_comesTo w
  | deleteWorkflow id => exact deleteWorkflow_comesTo id w
  | createExecution execution => exact createExecution_comesTo execution w
  | updateExecution id updates => exact updateExecution_comesTo _ updates w
  | getExecution id => exact getExecution_runIn _ w
  | listExecutions workflow limit => exact listExecutions_comesTo workflow limit w
  | setData key value => exact setData_comesTo _ value w
  | getData key => exact getData_comesTo _ w
  | reopen => exact Work.ComesTo.pure Value.null w

end LocalStore

end WorkflowEngine
