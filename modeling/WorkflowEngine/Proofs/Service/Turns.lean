import WorkflowEngine.Proofs.Service.Handling
import WorkflowEngine.Proofs.Time.Order

/-!
# One request and its answer

What a request asks for, and the books that say how it is answered: the workflows that are kept, and
what is found of the executions (`Turn`). The books of a store are kept up to date by every request,
whatever it asks for (`respond_settles`); a request is left without an answer only if it has a
workflow executed whose run has no end.
-/

namespace WorkflowEngine.Service

open LocalStore Number

/-! ## What is asked for -/

/-- What a request asks for. -/
inductive Ask where
  | save (sent : Value)
  | get (id : String)
  | list
  | delete (id : String)
  | execute (id : String) (occasion : Occasion)
  | executeSent (sent : Value) (occasion : Occasion)
  | execution (id : String)
  /-- Something that is not about one of these, or is not in the form that it has to have. -/
  | other

/-- The occasion of an execution of a workflow that is kept; it may be left out. -/
def occasionOf? : Option Value → Option Occasion
  | none | some .null => some {}
  | some v => readOccasion? v

/-- What a request to a resource asks for. -/
def Resource.ask (resource : Resource) (method : String) (body : Option Value) : Ask :=
  match resource with
  | .workflows =>
    if method == "POST" then (body.bind readWorkflow?).elim .other .save else .list
  | .workflow id => if method == "DELETE" then .delete id else .get id
  | .executionOf id => (occasionOf? body).elim .other (.execute id)
  | .execute => (body.bind readExecution?).elim .other fun e => .executeSent e.1 e.2
  | .execution id => .execution id
  | _ => .other

/-- What a request asks for. -/
@[irreducible] def Request.ask (request : Request) : Ask :=
  match Resource.ofAddress? (Address.read request.address) with
  | none => .other
  | some resource =>
    if resource.methods.contains request.method then
      match if resource.takesBody request.method then readBody request.body else .ok none with
      | .ok body => resource.ask request.method body
      | .error _ => .other
    else .other

/-- Whether a request keeps to finite numbers in a workflow that it brings along, and to identifiers
that are short enough to name files. -/
def Ask.Proper : Ask → Prop
  | .save sent => isFinite sent = true ∧
    ∀ workflow, Workflow.parse sent = .ok workflow → Fits workflowFolder (Tables.idOf workflow)
  | .executeSent sent _ => isFinite sent = true
  | .get id | .delete id | .execute id _ => Fits workflowFolder id
  | .execution id => Fits executionFolder id
  | .list | .other => True

instance (ask : Ask) : Decidable ask.Proper :=
  match ask with
  | .save sent =>
    match h : Workflow.parse sent with
    | .ok workflow =>
      decidable_of_iff (isFinite sent = true ∧ Fits workflowFolder (Tables.idOf workflow))
        (by simp [Ask.Proper, h])
    | .error _ => decidable_of_iff (isFinite sent = true) (by simp [Ask.Proper, h])
  | .executeSent sent _ => inferInstanceAs (Decidable (isFinite sent = true))
  | .get id | .delete id | .execute id _ => inferInstanceAs (Decidable (Fits workflowFolder id))
  | .execution id => inferInstanceAs (Decidable (Fits executionFolder id))
  | .list | .other => inferInstanceAs (Decidable True)

/-! ## The books -/

/-- Workflows by identifier, and by identifier what is found of the executions. -/
structure Books where
  workflows : List (String × Value) := []
  executions : List (String × Value) := []

/-- The workflow that a request has executed, and the occasion. -/
def Books.executed? (b : Books) : Ask → Option (Value × Occasion)
  | .execute id occasion => (b.workflows.lookup id).map fun workflow => (workflow, occasion)
  | .executeSent sent occasion =>
    (Workflow.parse sent).toOption.map fun workflow => (workflow, occasion)
  | _ => none

/-- What runs the workflows of requests under some settings. -/
def Server.runnerFor (server : Server) (settings : Settings) : Runner where
  budget := settings.visitLimit
  fuel := server.fuel

/-- Whether how a run has ended can be told as JSON: it was not interrupted, and its results can be
recorded and written, and hold no infinite numbers. -/
structure Told (ending : Ending) (results : Json) : Prop where
  unbroken : ending.result ≠ .error .interrupted
  recorded : ending.recordedResults = .ok results
  written : ∃ text, results.toValue.fileText = .ok text
  finite : isFinite results.toValue = true

section

variable (server : Server) (w : World)

/-- The execution of a workflow in a world, of which a record is found from then on: its run begins
when the record has been kept, and the record tells how it has ended. -/
inductive Server.Executes (workflow : Value) (occasion : Occasion) : Value → Prop
  | intro {begun : World} {record found : Value} {result : Attempt Unit} {run : Run} {results : Json}
      (begins : newRecord w.newId.1 workflow occasion.reason w.now = .ok record)
      (opens : (Runner.openRecord workflow occasion).runIn w = some (.ok record, begun))
      (ends : (courseOf .builtin w.settings.visitLimit server.fuel workflow).run
        ((server.runnerFor w.settings).freshRun occasion w.newId.1 begun) = (some result, run))
      (told : Told (run.ending result) results)
      (shows : ShowsEnding (run.ending result) results record found)
      (sendable : isFinite found = true) :
      Server.Executes workflow occasion found

/-- The execution of a workflow in a world that breaks the service, and what is found of it from then
on: how its run has ended cannot be told. -/
inductive Server.Breaks (workflow : Value) (occasion : Occasion) : Value → Prop
  | intro {begun : World} {record found : Value} {result : Attempt Unit} {run : Run}
      {outcome : Attempt Value}
      (opens : (Runner.openRecord workflow occasion).runIn w = some (.ok record, begun))
      (ends : (courseOf .builtin w.settings.visitLimit server.fuel workflow).run
        ((server.runnerFor w.settings).freshRun occasion w.newId.1 begun) = (some result, run))
      (untold : ∀ results, ¬ Told (run.ending result) results)
      (leaves : (run.ending result).Leaves record outcome found) :
      Server.Breaks workflow occasion found

/-- Whether the run of a workflow in a world has no end within the steps that are granted. -/
inductive Server.Endless (workflow : Value) (occasion : Occasion) : Prop
  | intro {begun : World} {record : Value} {run : Run}
      (opens : (Runner.openRecord workflow occasion).runIn w = some (.ok record, begun))
      (endless : (courseOf .builtin w.settings.visitLimit server.fuel workflow).run
        ((server.runnerFor w.settings).freshRun occasion w.newId.1 begun) = (none, run)) :
      Server.Endless workflow occasion

/-- How a request is answered by the books, and the books after it. -/
inductive Server.Turn (b : Books) : Ask → Answer → Books → Prop
  | saved {sent workflow : Value} (accepted : Workflow.parse sent = .ok workflow) :
      Server.Turn b (.save sent) (.good workflow)
        { b with workflows := Entries.put (Tables.idOf workflow) workflow b.workflows }
  | refused {sent : Value} {fault : FormatFault}
      (complaint : Workflow.parse sent = .error (.format fault)) :
      Server.Turn b (.save sent) (.detail 400 fault.message) b
  | shown {id : String} {workflow : Value} (kept : b.workflows.lookup id = some workflow) :
      Server.Turn b (.get id) (.good workflow) b
  | unknown {id : String} (missing : b.workflows.lookup id = none) :
      Server.Turn b (.get id) (.missing "Workflow" id) b
  | listed : Server.Turn b .list
      (.good (.object [("workflows", .list (Tables.inOrder b.workflows))])) b
  | deleted {id : String} {workflow : Value} (kept : b.workflows.lookup id = some workflow) :
      Server.Turn b (.delete id) (.good (.object [("deleted", .bool true), ("id", .text id)]))
        { b with workflows := Entries.erase id b.workflows }
  | undeleted {id : String} (missing : b.workflows.lookup id = none) :
      Server.Turn b (.delete id) (.missing "Workflow" id) b
  | executed {ask : Ask} {workflow : Value} {occasion : Occasion} {found : Value}
      {journal : List Entry} (asked : b.executed? ask = some (workflow, occasion))
      (new : b.executions.lookup w.newId.1 = none)
      (executes : server.Executes { w with journal := journal } workflow occasion found) :
      Server.Turn b ask (.good found)
        { b with executions := Entries.put w.newId.1 found b.executions }
  | broken {ask : Ask} {workflow : Value} {occasion : Occasion} {found : Value}
      {journal : List Entry} (asked : b.executed? ask = some (workflow, occasion))
      (new : b.executions.lookup w.newId.1 = none)
      (breaks : server.Breaks { w with journal := journal } workflow occasion found) :
      Server.Turn b ask .broken
        { b with executions := Entries.put w.newId.1 found b.executions }
  | unexecuted {id : String} {occasion : Occasion} (missing : b.workflows.lookup id = none) :
      Server.Turn b (.execute id occasion) (.missing "Workflow" id) b
  | refusedExecution {sent : Value} {occasion : Occasion} {fault : FormatFault}
      (complaint : Workflow.parse sent = .error (.format fault)) :
      Server.Turn b (.executeSent sent occasion) (.detail 400 fault.message) b
  | execution {id : String} : Server.Turn b (.execution id)
      (if (Tables.valueAt b.executions id).isNull then .missing "Execution" id
        else answerOf (.ok (.ok (Tables.valueAt b.executions id)))) b
  | other {answer : Answer} : Server.Turn b .other answer b

end

/-! ## The books of a store -/

/-- The identifier of the record with a number. -/
def recordId (n : Nat) : String := padded 8 n ++ "-0000-4000-8000-000000000000"

/-- Records with different numbers have different identifiers. -/
theorem recordId_injective {n m : Nat} (h : recordId n = recordId m) : n = m :=
  padded_injective (by simpa [recordId] using h)

theorem recordPath_ne (execution workflow : String) :
    recordPath executionFolder execution ≠ recordPath workflowFolder workflow :=
  (workflowFile_ne workflow execution).1.symm

/-- The books are those of a store. -/
structure Books.Of (b : Books) (w : World) : Prop where
  here : w.backend = .local
  workflows : Shelf workflowFolder w.files b.workflows
  finite : ∀ e ∈ b.workflows, isFinite e.2 = true
  executions : ∀ id, Fits executionFolder id →
    foundIn w executionFolder (.text id) = .ok (Tables.valueAt b.executions id)
  issued : ∀ e ∈ b.executions, ∃ n ≤ w.issued, e.1 = recordId n

/-- What comes of a request at a store with some books: an answer by them, after which the store has
books again, or none at all, if a run has no end. -/
inductive Server.Settles (server : Server) (w : World) (b : Books) (ask : Ask) :
    Option (Answer × World) → Prop
  | turn {answer : Answer} {w' : World} {b' : Books} (turn : server.Turn w b ask answer b')
      (books : b'.Of w') (issued : w'.issued ≤ w.issued + 1) :
      Server.Settles server w b ask (some (answer, w'))
  | endless {workflow : Value} {occasion : Occasion} {journal : List Entry}
      (asked : b.executed? ask = some (workflow, occasion))
      (endless : server.Endless { w with journal := journal } workflow occasion) :
      Server.Settles server w b ask none

/-- What the handling of a request comes to, as an answer. -/
def answered (outcome : Option (Attempt (Except Answer Value) × World)) : Option (Answer × World) :=
  outcome.map fun (result, w) => (answerOf result, w)

section Settling

variable {server : Server} {w : World} {b b' : Books} {ask : Ask}

namespace Books.Of

theorem new_none (h : b.Of w) : b.executions.lookup w.newId.1 = none := by
  cases hlookup : b.executions.lookup w.newId.1 with
  | none => rfl
  | some record =>
    obtain ⟨n, hn, hid⟩ := h.issued _ (Entries.mem_of_lookup hlookup)
    have hnumber : w.issued + 1 = n := recordId_injective hid
    omega

/-- The books keep up with a change of the workflows. -/
theorem rewritten {workflows : List (String × Value)} {w' : World} (h : b.Of w)
    (here : w'.backend = w.backend) (issued : w'.issued = w.issued)
    (hshelf : Shelf workflowFolder w'.files workflows)
    (hfinite : ∀ e ∈ workflows, isFinite e.2 = true)
    (hfiles : ∀ id, w'.files.lookup (recordPath executionFolder id) =
      w.files.lookup (recordPath executionFolder id)) :
    Books.Of { b with workflows := workflows } w' where
  here := here.trans h.here
  workflows := hshelf
  finite := hfinite
  executions id fits := by
    rw [← h.executions id fits]
    cases hsafe : isSafeId id with
    | false => rw [foundIn_rejected hsafe, foundIn_rejected hsafe]
    | true => rw [foundIn_text hsafe, foundIn_text hsafe, hfiles]
  issued e he := by
    rw [issued]
    exact h.issued e he

/-- The books are those of every world with the same store. -/
theorem of_store {w' : World} (h : b.Of w) (here : w'.backend = w.backend)
    (issued : w'.issued = w.issued) (files : w'.files = w.files) : b.Of w' :=
  h.rewritten here issued (files ▸ h.workflows) h.finite fun id => by rw [files]

theorem noted (h : b.Of w) (journal : List Entry) :
    b.Of { w with files := w.files, journal := journal } :=
  h.of_store rfl rfl rfl

theorem saved {form : Workflow.Form} {file : File} (h : b.Of w)
    (accepted : Accepts (recordPath workflowFolder form.id)) (hvalue : valueOf file = .ok form.value)
    (hfinite : isFinite form.value = true) (journal : List Entry) :
    Books.Of { b with workflows := Entries.put form.id form.value b.workflows } { w with
      files := Entries.put (recordPath workflowFolder form.id) file w.files
      journal := journal } := by
  refine h.rewritten rfl rfl (h.workflows.put ⟨form.safe, accepted⟩ form.decoded ⟨_, rfl⟩ hvalue)
    ?_ ?_
  · intro e he
    rcases Entries.mem_put he with rfl | he
    · exact hfinite
    · exact h.finite e he
  · intro id
    rw [Entries.lookup_put, if_neg fun hpath => recordPath_ne id form.id (eq_of_beq hpath)]

theorem deleted (h : b.Of w) (id : String) (journal : List Entry) :
    Books.Of { b with workflows := Entries.erase id b.workflows } { w with
      files := Entries.erase (recordPath workflowFolder id) w.files
      journal := journal } := by
  refine h.rewritten rfl rfl (h.workflows.erase id)
    (fun e he => h.finite e (List.mem_filter.1 he).1) fun other => ?_
  rw [Entries.lookup_erase, if_neg fun hpath => recordPath_ne other id (eq_of_beq hpath)]

/-- The books keep up with an execution. -/
theorem executed {found : Value} {after : World} (h : b.Of w) (hexecutes : w.Executes found after) :
    Books.Of { b with executions := Entries.put w.newId.1 found b.executions } after where
  here := hexecutes.workflows.backend.trans h.here
  workflows := hexecutes.workflows.shelf _ h.workflows
  finite := h.finite
  executions id fits := by
    rw [Tables.valueAt, Entries.lookup_put]
    by_cases hid : id = w.newId.1
    · rw [if_pos (by simpa using hid), hid, foundIn_text (isSafeId_newId w)]
      exact hexecutes.found
    -- another execution may only be found elsewhere, and that is where nothing has changed
    · rw [if_neg (by simpa using hid)]
      refine (foundIn_congr hexecutes.others fun name hname => ?_).trans (h.executions id fits)
      obtain rfl := Except.ok.inj hname
      have hne : executionFile id ≠ executionFile w.newId.1 := fun hfile =>
        hid (executionFile_injective hfile)
      have hdata := executionFile_ne_dataFile id
      simpa using ⟨hne, hdata⟩
  issued e he := by
    have hissued : after.issued = w.issued + 1 := hexecutes.workflows.issued
    rcases Entries.mem_put he with rfl | he
    · exact ⟨w.issued + 1, by omega, rfl⟩
    · obtain ⟨n, hn, hid⟩ := h.issued e he
      exact ⟨n, by omega, hid⟩

end Books.Of

/-- A request that leaves the store as it is. -/
theorem settles_unchanged (h : b.Of w) {handling : Handling Value}
    {result : Attempt (Except Answer Value)} (hcomes : handling.ComesTo w result w.files)
    (hturn : server.Turn w b ask (answerOf result) b) :
    server.Settles w b ask (answered (handling.runIn w)) := by
  obtain ⟨journal, hrun⟩ := hcomes
  rw [hrun]
  exact .turn hturn (h.noted journal) (Nat.le_succ _)

/-- A request that changes the workflows. -/
theorem settles_changed {handling : Handling Value} {result : Attempt (Except Answer Value)}
    {files : Files} (hcomes : handling.ComesTo w result files)
    (hbooks : ∀ journal, b'.Of { w with files := files, journal := journal })
    (hturn : server.Turn w b ask (answerOf result) b') :
    server.Settles w b ask (answered (handling.runIn w)) := by
  obtain ⟨journal, hrun⟩ := hcomes
  rw [hrun]
  exact .turn hturn (hbooks journal) (Nat.le_succ _)

theorem answerOf_good {v : Value} (h : isFinite v = true) : answerOf (.ok (.ok v)) = .good v := by
  rw [answerOf, if_pos h]

theorem isFinite_entry {v part : Value} {name : String} (h : isFinite v = true)
    (hpart : v.entry name = .ok part) : isFinite part = true := by
  cases v with
  | dict entries mark =>
    simp only [Value.entry] at hpart
    split at hpart
    · rename_i hlookup
      obtain rfl := Except.ok.inj hpart
      exact isFinite_lookup h hlookup
    · cases hpart
  | _ => cases hpart

/-- The record of an execution holds no infinite numbers if the workflow and the results do not. -/
theorem finite_closed {fields : Fields} {id reason start : String} {ending : Ending} {results : Json}
    {began ended : Instant} {final : Value} (hfields : isFinite (.dict fields) = true)
    (hresults : isFinite results.toValue = true)
    (closes : overwrite (Origin.ofWorkflow id fields reason start).running
      (ending.changes results began ended) = .ok final) : isFinite final = true := by
  have hpart : ∀ (name : String) (other : Value), isFinite other = true →
      isFinite ((fields.lookup (.text name)).getD other) = true := by
    intro name other hother
    cases hlookup : fields.lookup (.text name) with
    | none => exact hother
    | some v => exact isFinite_lookup hfields hlookup
  have hid : isFinite (Origin.ofWorkflow id fields reason start).workflowId = true :=
    hpart "id" _ rfl
  have hname : isFinite (Origin.ofWorkflow id fields reason start).workflowName = true :=
    hpart "name" _ hid
  rw [Ending.overwrite_running] at closes
  obtain rfl := Except.ok.inj closes
  obtain ⟨made, scopes, result⟩ := ending
  rcases result with f | ⟨⟨⟩⟩
  all_goals
    rw [Origin.ended, isFinite_object]
    simp only [List.cons_append, List.nil_append, List.forall_mem_cons]
    simp [isFinite, hid, hname, hresults]

/-- How a run has ended is told, or it breaks the service. -/
theorem turn_ended {begun : World} {fields : Fields} {occasion : Occasion} {reason : String}
    {record found : Value} {journal : List Entry} {result : Attempt Unit} {run : Run}
    {outcome : Attempt Value} (asked : b.executed? ask = some (.dict fields, occasion))
    (new : b.executions.lookup w.newId.1 = none) (finite : isFinite (.dict fields) = true)
    (given : occasion.reason = .text reason)
    (begins : newRecord w.newId.1 (.dict fields) occasion.reason w.now = .ok record)
    (opens : (Runner.openRecord (.dict fields) occasion).runIn { w with journal := journal } =
      some (.ok record, begun))
    (ends : (courseOf .builtin w.settings.visitLimit server.fuel (.dict fields)).run
      ((server.runnerFor w.settings).freshRun occasion w.newId.1 begun) = (some result, run))
    (leaves : (run.ending result).Leaves record outcome found) :
    server.Turn w b ask (answerOf (outcome.map .ok))
      { b with executions := Entries.put w.newId.1 found b.executions } := by
  have hbroken : (∀ results, ¬ Told (run.ending result) results) →
      answerOf (outcome.map .ok) = .broken → server.Turn w b ask (answerOf (outcome.map .ok))
        { b with executions := Entries.put w.newId.1 found b.executions } := by
    intro untold hanswer
    have breaks : server.Breaks { w with journal := journal } (.dict fields) occasion found :=
      .intro opens ends untold leaves
    rw [hanswer]
    exact .broken asked new breaks
  cases leaves with
  | @closed results text final began ended unbroken recorded written closes shows =>
    by_cases hresults : isFinite results.toValue = true
    · have hfound : isFinite found = true := by
        have hrecord := begins
        rw [given, newRecord_object] at hrecord
        obtain rfl := Except.ok.inj hrecord
        exact finite_closed finite hresults closes
      have told : Told (run.ending result) results := ⟨unbroken, recorded, ⟨text, written⟩, hresults⟩
      rw [show answerOf ((Except.ok found).map .ok) = .good found from answerOf_good hfound]
      have executes : server.Executes { w with journal := journal } (.dict fields) occasion found :=
        .intro begins opens ends told shows hfound
      exact .executed asked new executes
    -- results with infinite numbers are kept all right, but they cannot be sent
    · refine hbroken (fun results' told => ?_) ?_
      · obtain rfl := Except.ok.inj (recorded.symm.trans told.recorded)
        exact hresults told.finite
      · exact if_neg fun hfound => hresults (isFinite_entry hfound shows.results)
  | torn unbroken recorded unwritten =>
    refine hbroken (fun results' told => ?_) rfl
    obtain ⟨text, written⟩ := told.written
    obtain rfl := Except.ok.inj (recorded.symm.trans told.recorded)
    exact unwritten text written
  | unrecorded unbroken failure =>
    refine hbroken (fun results' told => ?_) rfl
    cases failure.symm.trans told.recorded
  | interrupted broken => exact hbroken (fun results' told => told.unbroken broken) rfl

/-- A request that has a workflow executed. -/
theorem settles_execution (h : b.Of w) {fields : Fields} {occasion : Occasion}
    (asked : b.executed? ask = some (.dict fields, occasion))
    (decoded : (Value.dict fields).Decoded) (finite : isFinite (.dict fields) = true)
    (known : ∃ reason ∈ triggerReasons, occasion.reason = .text reason)
    (accepted : Accepts (executionFile w.newId.1)) {handling : Handling Value}
    (journal : List Entry)
    (hrun : handling.runIn w = (server.execute (.dict fields) occasion).runIn
      { w with files := w.files, journal := journal }) :
    server.Settles w b ask (answered (handling.runIn w)) := by
  have h' := h.noted journal
  obtain ⟨reason, hreason, given⟩ := known
  obtain ⟨record, begun, begins, opens, hends⟩ := execute_outcome (server.runnerFor w.settings) rfl
    decoded ⟨reason, hreason, given⟩ (w := { w with files := w.files, journal := journal }) h.here
      accepted
  have hexecute : (server.execute (.dict fields) occasion).runIn
      { w with files := w.files, journal := journal } =
        (((server.runnerFor w.settings).execute (.dict fields) occasion).runIn
          { w with files := w.files, journal := journal }).map (Prod.map (Except.map .ok) id) := by
    rw [Server.execute, Handling.runIn_bind, Server.runner, Handling.runIn_get]
    exact Handling.runIn_ofJob _ _
  rw [hrun, hexecute]
  rcases hends with ⟨run, hendless, hnone⟩ |
    ⟨result, run, outcome, found, after, ends, leaves, hsome, executes⟩
  · rw [hnone]
    exact .endless asked (.intro opens hendless)
  · rw [hsome]
    exact .turn (turn_ended asked h.new_none finite given begins opens ends leaves)
      (h'.executed executes) (Nat.le_of_eq executes.workflows.issued)

/-! ## Every request -/

theorem idOf_form (form : Workflow.Form) : Tables.idOf form.value = form.id := rfl

variable {body : Option Value} (hbody : ∀ v ∈ body, v.Decoded)

/-- A workflow that is sent is read, or complained about. -/
theorem sent_decides {raw sent : Value} (hraw : raw.Decoded) (hsent : readWorkflow? raw = some sent) :
    (∃ form : Workflow.Form, Workflow.ofValue sent = .ok form.value ∧
      Workflow.parse sent = .ok form.value ∧ (isFinite sent = true → isFinite form.value = true)) ∨
    ∃ fault, Workflow.ofValue sent = .error (.format fault) ∧
      Workflow.parse sent = .error (.format fault) := by
  obtain ⟨decoded, -, htext⟩ := readWorkflow?_spec hraw hsent
  rw [Workflow.parse_eq_ofValue decoded htext]
  obtain ⟨-, _, hread, form, rfl, hof⟩ | ⟨-, fault, hrefused⟩ := Workflow.ofValue_decides decoded
  · exact .inl ⟨form, hread, hread, finite_form hof⟩
  · exact .inr ⟨fault, hrefused, hrefused⟩

include hbody in
theorem workflows_settles (h : b.Of w) (method : String)
    (proper : (Resource.workflows.ask method body).Proper) :
    server.Settles w b (Resource.workflows.ask method body)
      (answered ((handleWorkflows method body).runIn w)) := by
  rw [Resource.ask] at proper ⊢
  cases hmethod : method == "POST" with
  | false =>
    rw [if_neg Bool.false_ne_true]
    have hfinite : isFinite (.object [("workflows", .list (Tables.inOrder b.workflows))]) = true := by
      simp only [isFinite_object, List.mem_singleton, forall_eq, isFinite_list]
      intro v hv
      obtain ⟨e, he, rfl⟩ := List.mem_map.1 hv
      exact h.finite e (List.mem_mergeSort.1 he)
    refine settles_unchanged h (listed_workflows h.here h.workflows hmethod) ?_
    rw [answerOf_good hfinite]
    exact .listed
  | true =>
    rw [hmethod, if_pos rfl] at proper
    rw [if_pos rfl]
    cases hsent : body.bind readWorkflow? with
    | none =>
      have hcomes : (handleWorkflows method body).ComesTo w (.ok (.error .malformed)) w.files := by
        rw [handleWorkflows, if_pos hmethod, hsent]
        exact .bind_answer (.answer _ _)
      exact settles_unchanged h hcomes .other
    | some sent =>
      rw [hsent] at proper
      obtain ⟨hfinite, hfits⟩ := proper
      obtain ⟨raw, hraw, hform⟩ := Option.bind_eq_some_iff.1 hsent
      rcases sent_decides (hbody raw hraw) hform with ⟨form, hread, hparse, hkeeps⟩ |
        ⟨fault, hread, hparse⟩
      · have hfit := hfits _ hparse
        rw [idOf_form] at hfit
        have accepted := hfit form.safe
        obtain ⟨file, hvalue, hcomes⟩ := saved_workflow hmethod hsent h.here hread accepted
        refine settles_changed hcomes (h.saved accepted hvalue (hkeeps hfinite)) ?_
        have hturn : server.Turn w b (.save sent) _ _ := .saved hparse
        rw [idOf_form] at hturn
        rwa [answerOf_good (hkeeps hfinite)]
      · exact settles_unchanged h (refused_workflow hmethod hsent hread) (.refused hparse)

theorem workflow_settles (h : b.Of w) (method id : String) (fits : Fits workflowFolder id) :
    server.Settles w b (Resource.ask (.workflow id) method body)
      (answered ((handleWorkflow method id).runIn w)) := by
  rw [Resource.ask]
  cases hmethod : method == "DELETE" with
  | true =>
    rw [if_pos rfl]
    cases hlookup : b.workflows.lookup id with
    | none =>
      exact settles_unchanged h (deleted_noWorkflow h.here h.workflows hmethod fits hlookup)
        (.undeleted hlookup)
    | some workflow =>
      exact settles_changed (deleted_workflow h.here h.workflows hmethod hlookup) (h.deleted id)
        (.deleted hlookup)
  | false =>
    rw [if_neg Bool.false_ne_true, handleWorkflow, hmethod, if_neg Bool.false_ne_true]
    cases hlookup : b.workflows.lookup id with
    | none =>
      exact settles_unchanged h (found_noWorkflow h.here h.workflows fits hlookup)
        (.unknown hlookup)
    | some workflow =>
      refine settles_unchanged h (found_workflow h.here h.workflows fits hlookup) ?_
      rw [answerOf_good (h.finite _ (Entries.mem_of_lookup hlookup))]
      exact .shown hlookup

theorem execution_settles (h : b.Of w) {id : String} (fits : Fits executionFolder id) :
    server.Settles w b (.execution id)
      (answered ((found "Execution" id Store.getExecution).runIn w)) := by
  have hsearch : (Store.getExecution (.text id)).ComesTo w
      (.ok (Tables.valueAt b.executions id)) w.files := by
    rw [← h.executions id fits]
    exact .on_local h.here (getExecution_runIn _ w)
  have hturn : server.Turn w b (.execution id) _ b := .execution
  refine settles_unchanged h (found_comesTo "Execution" hsearch) ?_
  split at hturn
  · rename_i hnull
    rwa [if_pos hnull]
  · rename_i hnull
    rwa [if_neg hnull]

theorem executeKept_eq (server : Server) (id : String) (body : Option Value) :
    server.executeKept id body = Handling.formed (occasionOf? body) >>= fun occasion =>
      found "Workflow" id Store.getWorkflow >>= fun workflow =>
        server.execute workflow occasion := by
  rcases body with _ | v
  · rfl
  · cases v <;> rfl

include hbody in
theorem occasionOf?_known {occasion : Occasion} (h : occasionOf? body = some occasion) :
    ∃ reason ∈ triggerReasons, occasion.reason = .text reason := by
  unfold occasionOf? at h
  split at h
  · cases h
    exact ⟨"manual", by decide, rfl⟩
  · cases h
    exact ⟨"manual", by decide, rfl⟩
  · exact readOccasion?_known (hbody _ rfl) h

include hbody in
theorem executionOf_settles (h : b.Of w) (id method : String)
    (proper : (Resource.ask (.executionOf id) method body).Proper)
    (accepted : Accepts (executionFile w.newId.1)) :
    server.Settles w b (Resource.ask (.executionOf id) method body)
      (answered ((server.executeKept id body).runIn w)) := by
  rw [Resource.ask] at proper ⊢
  rw [executeKept_eq]
  cases hoccasion : occasionOf? body with
  | none => exact settles_unchanged h (.bind_answer (.answer _ _)) .other
  | some occasion =>
    rw [hoccasion] at proper
    cases hlookup : b.workflows.lookup id with
    | none =>
      have hfound := fun journal =>
        found_noWorkflow (h.noted journal).here (h.noted journal).workflows proper hlookup
      exact settles_unchanged h (.bind (.pure _ _) fun journal => .bind_answer (hfound journal))
        (.unexecuted hlookup)
    | some workflow =>
      have hkept := h.workflows.kept _ (Entries.mem_of_lookup hlookup)
      obtain ⟨fields, rfl⟩ := hkept.isObject
      obtain ⟨journal, hrun⟩ := found_workflow h.here h.workflows proper hlookup
      have asked : b.executed? (.execute id occasion) = some (.dict fields, occasion) := by
        rw [Books.executed?, hlookup]
        rfl
      refine settles_execution h asked hkept.decoded (h.finite _ (Entries.mem_of_lookup hlookup))
        (occasionOf?_known hbody hoccasion) accepted journal ?_
      rw [Handling.runIn_step (Handling.runIn_formed occasion w)]
      exact Handling.runIn_step hrun

/-- What is sent to be executed at once is a workflow and an occasion. -/
theorem readExecution?_spec {raw sent : Value} {occasion : Occasion} (hraw : raw.Decoded)
    (h : readExecution? raw = some (sent, occasion)) :
    (∃ part : Value, part.Decoded ∧ readWorkflow? part = some sent) ∧
      ∃ reason ∈ triggerReasons, occasion.reason = .text reason := by
  cases raw with
  | dict entries mark =>
    obtain ⟨sent', hsent, h⟩ := Option.bind_eq_some_iff.1 h
    obtain ⟨occasion', hoccasion, h⟩ := Option.bind_eq_some_iff.1 h
    obtain ⟨rfl, rfl⟩ := Prod.mk.inj (Option.some.inj h)
    exact ⟨⟨_, hraw.ofField "workflow", hsent⟩, readOccasion?_known hraw hoccasion⟩
  | _ => cases h

theorem executeSent_eq (server : Server) (body : Option Value) :
    server.executeSent body = Handling.formed (body.bind readExecution?) >>= fun e =>
      takeIn e.1 >>= fun workflow => server.execute workflow e.2 :=
  rfl

include hbody in
theorem execute_settles (h : b.Of w) (method : String)
    (proper : (Resource.execute.ask method body).Proper)
    (accepted : Accepts (executionFile w.newId.1)) :
    server.Settles w b (Resource.execute.ask method body)
      (answered ((server.executeSent body).runIn w)) := by
  rw [Resource.ask] at proper ⊢
  rw [executeSent_eq]
  cases hsent : body.bind readExecution? with
  | none => exact settles_unchanged h (.bind_answer (.answer _ _)) .other
  | some e =>
    obtain ⟨sent, occasion⟩ := e
    rw [hsent] at proper
    obtain ⟨raw, hraw, hform⟩ := Option.bind_eq_some_iff.1 hsent
    obtain ⟨⟨part, hpart, hsent⟩, known⟩ := readExecution?_spec (hbody raw hraw) hform
    rcases sent_decides hpart hsent with ⟨form, hread, hparse, hkeeps⟩ | ⟨fault, hread, hparse⟩
    · obtain ⟨fields, hfields⟩ : ∃ fields, form.value = .dict fields := ⟨_, rfl⟩
      have decoded := form.decoded
      rw [hfields] at hread hparse decoded hkeeps
      have asked : b.executed? (.executeSent sent occasion) = some (.dict fields, occasion) := by
        rw [Books.executed?, hparse]
        rfl
      obtain ⟨journal, hrun⟩ := takeIn_accepted (w := w) hread
      refine settles_execution h asked decoded (hkeeps proper) known accepted journal ?_
      rw [Handling.runIn_step (Handling.runIn_formed (sent, occasion) w)]
      exact Handling.runIn_step hrun
    · have hcomes : (Handling.formed (some (sent, occasion)) >>= fun e =>
          takeIn e.1 >>= fun workflow => server.execute workflow e.2).ComesTo w
            (.ok (.error (.detail 400 fault.message))) w.files :=
        .bind (.pure (sent, occasion) w) fun journal => .bind_answer (takeIn_refused hread)
      exact settles_unchanged h hcomes (.refusedExecution hparse)

/-- A request that asks for nothing of this leaves the store as it is. -/
theorem settles_other (h : b.Of w) {handling : Handling Value} (hreads : handling.Reads) :
    server.Settles w b .other (answered (handling.runIn w)) := by
  obtain ⟨result, hcomes⟩ := hreads w h.here
  exact settles_unchanged h hcomes .other

include hbody in
/-- **What is handled is answered by the books.** -/
theorem handle_settles (h : b.Of w) (resource : Resource) (method : String) (a : Address)
    (proper : (resource.ask method body).Proper) (accepted : Accepts (executionFile w.newId.1)) :
    server.Settles w b (resource.ask method body)
      (answered ((server.handle resource method a body).runIn w)) := by
  rw [Server.handle, Handling.runIn_get]
  cases resource with
  | workflows => exact workflows_settles hbody h method proper
  | workflow id =>
    have fits : Fits workflowFolder id := by
      rw [Resource.ask] at proper
      split at proper <;> exact proper
    exact workflow_settles h method id fits
  | executionOf id => exact executionOf_settles hbody h id method proper accepted
  | execute => exact execute_settles hbody h method proper accepted
  | execution id => exact execution_settles h proper
  | executions => exact settles_other h (handleExecutions_reads a)
  | _ => exact settles_other h (.pure _)

/-- The query says nothing of the resource. -/
theorem Resource.ofAddress?_query (a : Address) (query : List (String × String)) :
    Resource.ofAddress? { a with query := query } = Resource.ofAddress? a :=
  rfl

/-- What comes of a request, by what its address stands for. -/
theorem respond_eq (server : Server) (request : Request) (w : World) : ∃ a,
    server.respond request w = match Resource.ofAddress? (Address.read request.address) with
      | none => some (.detail 404 "Not Found", w)
      | some resource =>
        if resource.methods.contains request.method then
          match if resource.takesBody request.method then readBody request.body else .ok none with
          | .error answer => some (answer, w)
          | .ok body => answered ((server.handle resource request.method a body).runIn w)
        else some (.detail 405 "Method Not Allowed", w) := by
  refine ⟨{ Address.read request.address with
    query := (Address.read request.address).query ++ request.query }, ?_⟩
  rw [Server.respond]
  dsimp only
  rw [Resource.ofAddress?_query (Address.read request.address)
    ((Address.read request.address).query ++ request.query)]
  cases Resource.ofAddress? (Address.read request.address) with
  | none => rfl
  | some resource =>
    dsimp only
    split
    · cases (if resource.takesBody request.method then readBody request.body else .ok none) with
      | error answer => rfl
      | ok body => exact Option.map_eq_bind.symm
    · rfl

/-- **Every request is answered by the books of the store**, which stay up to date, unless it has a
workflow executed whose run has no end. -/
theorem respond_settles (h : b.Of w) {request : Request} (asked : request.ask = ask)
    (proper : ask.Proper) (accepted : Accepts (executionFile w.newId.1)) :
    server.Settles w b ask (server.respond request w) := by
  have hunread : ∀ answer, server.Settles w b .other (some (answer, w)) := fun answer =>
    .turn .other (h.noted w.journal) (Nat.le_succ _)
  obtain ⟨a, hrespond⟩ := respond_eq server request w
  rw [hrespond]
  rw [Request.ask] at asked
  cases hresource : Resource.ofAddress? (Address.read request.address) with
  | none =>
    rw [hresource] at asked
    exact asked ▸ hunread _
  | some resource =>
    rw [hresource] at asked
    dsimp only at asked ⊢
    by_cases hmethod : resource.methods.contains request.method = true
    · rw [if_pos hmethod] at asked ⊢
      cases hread : (if resource.takesBody request.method then readBody request.body
        else .ok none) with
      | error answer =>
        rw [hread] at asked
        exact asked ▸ hunread answer
      | ok body =>
        rw [hread] at asked
        -- what is sent along has been read from JSON text, so the store gives it back as it is
        have hbody : ∀ v ∈ body, v.Decoded := by
          intro v hv
          obtain rfl := hv
          split at hread
          · exact readBody_decoded hread
          · cases hread
        dsimp only at asked
        subst asked
        exact handle_settles hbody h resource request.method a proper accepted
    · rw [if_neg hmethod] at asked ⊢
      exact asked ▸ hunread _

end Settling

end WorkflowEngine.Service
