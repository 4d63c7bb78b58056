import WorkflowEngine.Proofs.Execution.Outcome
import WorkflowEngine.Proofs.Service.Bodies

/-!
# What comes of the handling of requests

The handling of a request about workflows comes to an answer and some files, as a function of the
workflows that are kept (`Handling.ComesTo`). The check of an identifier by the reader and the one by
the store agree, so what has been accepted is kept, found again and dropped.
-/

namespace WorkflowEngine

open LocalStore

/-! ## Handling -/

namespace Service

namespace Handling

variable {α β : Type} {handling : Handling α} {next : α → Handling β} {w w' : World}
  {b : Attempt (Except Answer β)} {files files' : Files}

/-- Handles a request in a world. -/
def runIn (handling : Handling α) (w : World) : Option (Attempt (Except Answer α) × World) :=
  (ExceptT.run handling).runIn w

/-- What comes of a sequence: the rest is done where the first part has come to a value. -/
theorem runIn_bind (handling : Handling α) (next : α → Handling β) (w : World) :
    (handling >>= next).runIn w = match handling.runIn w with
      | none => none
      | some (.ok (.ok a), w') => (next a).runIn w'
      | some (.ok (.error answer), w') => some (.ok (.error answer), w')
      | some (.error f, w') => some (.error f, w') := by
  rw [runIn, runIn, ExceptT.run_bind, Job.runIn_bind]
  rcases Job.runIn (ExceptT.run handling) w with _ | ⟨f | answer | a, w'⟩
  · rfl
  · rfl
  · rfl
  · rfl

/-- Handling whose first part is done goes on in the world that this leaves. -/
theorem runIn_step {a : α} (h : handling.runIn w = some (.ok (.ok a), w')) :
    (handling >>= next).runIn w = (next a).runIn w' := by
  rw [runIn_bind, h]

theorem runIn_formed (a : α) (w : World) :
    (formed (some a)).runIn w = some (.ok (.ok a), w) :=
  rfl

theorem runIn_ofJob (job : Job α) (w : World) :
    (ofJob job).runIn w = (job.runIn w).map (Prod.map (Except.map .ok) id) := by
  rw [runIn, ofJob, ExceptT.run_lift, ← bind_pure_comp, Job.runIn_bind]
  rcases job.runIn w with _ | ⟨f | a, w'⟩
  · rfl
  · rfl
  · rfl

theorem runIn_get (next : World → Handling β) (w : World) :
    (ofJob get >>= next).runIn w = (next w).runIn w := by
  rw [runIn_bind, runIn_ofJob]
  rfl

/-- The handling comes to an outcome and leaves some files, and nothing else has changed but the
journal. -/
def ComesTo (handling : Handling α) (w : World) (a : Attempt (Except Answer α)) (files : Files) :
    Prop :=
  ∃ journal, handling.runIn w = some (a, { w with files := files, journal := journal })

namespace ComesTo

theorem pure (a : α) (w : World) : (Pure.pure a : Handling α).ComesTo w (.ok (.ok a)) w.files :=
  ⟨w.journal, rfl⟩

theorem answer (a : Answer) (w : World) :
    (Handling.answer a : Handling α).ComesTo w (.ok (.error a)) w.files :=
  ⟨w.journal, rfl⟩

theorem ofWork {work : Work α} {a : Attempt α} (h : work.ComesTo w a files) :
    (Handling.ofWork work).ComesTo w (a.map .ok) files := by
  obtain ⟨journal, hrun⟩ := h
  refine ⟨journal, ?_⟩
  rw [Handling.ofWork, runIn_ofJob, Job.runIn_ofWork, hrun]
  rfl

theorem bind {v : α} (h : handling.ComesTo w (.ok (.ok v)) files)
    (hnext : ∀ journal, (next v).ComesTo { w with files := files, journal := journal } b files') :
    (handling >>= next).ComesTo w b files' := by
  obtain ⟨journal, hrun⟩ := h
  obtain ⟨journal', hrun'⟩ := hnext journal
  exact ⟨journal', (runIn_step hrun).trans hrun'⟩

/-- An answer cuts the handling short. -/
theorem bind_answer {a : Answer} (h : handling.ComesTo w (.ok (.error a)) files) :
    (handling >>= next).ComesTo w (.ok (.error a)) files := by
  obtain ⟨journal, hrun⟩ := h
  refine ⟨journal, ?_⟩
  rw [runIn_bind, hrun]

theorem bind_error {f : Failure} (h : handling.ComesTo w (.error f) files) :
    (handling >>= next).ComesTo w (.error f) files := by
  obtain ⟨journal, hrun⟩ := h
  refine ⟨journal, ?_⟩
  rw [runIn_bind, hrun]

theorem get {next : World → Handling β} (h : (next w).ComesTo w b files) :
    (Handling.ofJob MonadState.get >>= next).ComesTo w b files := by
  obtain ⟨journal, hrun⟩ := h
  exact ⟨journal, (runIn_get next w).trans hrun⟩

/-- The outcome of work, with which the rest goes on. -/
theorem bind_ofWork {work : Work α} {v : α} (h : work.ComesTo w (.ok v) files)
    (hnext : ∀ journal, (next v).ComesTo { w with files := files, journal := journal } b files') :
    (Handling.ofWork work >>= next).ComesTo w b files' :=
  .bind (.ofWork h) hnext

end ComesTo

/-- The handling leaves the files of the local store as they are, whatever it comes to. -/
def Reads (handling : Handling α) : Prop :=
  ∀ w : World, w.backend = .local → ∃ a, handling.ComesTo w a w.files

namespace Reads

theorem pure (a : α) : (Pure.pure a : Handling α).Reads := fun w _ => ⟨_, .pure a w⟩

theorem formed (o : Option α) : (Handling.formed o).Reads := by
  intro w _
  cases o with
  | none => exact ⟨_, .answer _ w⟩
  | some a => exact ⟨_, .pure a w⟩

theorem ofWork {work : Work α}
    (h : ∀ w : World, w.backend = .local → ∃ a, work.ComesTo w a w.files) :
    (Handling.ofWork work).Reads := by
  intro w here
  obtain ⟨a, hcomes⟩ := h w here
  exact ⟨_, .ofWork hcomes⟩

theorem bind (h : handling.Reads) (hnext : ∀ a, (next a).Reads) : (handling >>= next).Reads := by
  intro w here
  obtain ⟨a, journal, hrun⟩ := h w here
  rcases a with f | answer | v
  · exact ⟨_, .bind_error ⟨journal, hrun⟩⟩
  · exact ⟨_, .bind_answer ⟨journal, hrun⟩⟩
  · obtain ⟨b, journal', hrun'⟩ := hnext v { w with files := w.files, journal := journal } here
    exact ⟨b, journal', (runIn_step hrun).trans hrun'⟩

end Reads

end Handling

/-! ## Looking for records -/

/-- Whether an identifier that can name a record is short enough to name its file. -/
def Fits (folder id : String) : Prop := isSafeId id = true → Accepts (recordPath folder id)

instance (folder id : String) : Decidable (Fits folder id) := inferInstanceAs (Decidable (_ → _))

/-- The answer that something is not there. -/
def Answer.missing (what id : String) : Answer := .detail 404 (what ++ " " ++ id ++ " not found")

section Kept

variable {table : List (String × Value)} {folder id : String} {w : World}

theorem lookup_rejected (h : Shelf folder w.files table) (hsafe : isSafeId id = false) :
    table.lookup id = none := by
  cases hlookup : table.lookup id with
  | none => rfl
  | some record =>
    have hnamed := (h.kept _ (Entries.mem_of_lookup hlookup)).named.1
    exact absurd (hsafe.symm.trans hnamed) Bool.false_ne_true

/-- Under an identifier the store finds what the table has there. -/
theorem foundIn_shelf (h : Shelf folder w.files table) (fits : Fits folder id) :
    foundIn w folder (.text id) = .ok (Tables.valueAt table id) := by
  cases hsafe : isSafeId id with
  | true => rw [foundIn_text hsafe, h.foundAt_eq ⟨hsafe, fits hsafe⟩]
  | false => rw [foundIn_rejected hsafe, Tables.valueAt, lookup_rejected h hsafe]; rfl

theorem found_comesTo {search : Value → Work Value} {v : Value} {files : Files} (what : String)
    (h : (search (.text id)).ComesTo w (.ok v) files) : (found what id search).ComesTo w
      (.ok (if v.isNull then .error (.missing what id) else .ok v)) files := by
  refine .bind_ofWork h fun journal => ?_
  split
  · exact .answer _ _
  · exact .pure _ _

variable (here : w.backend = .local) (h : Shelf workflowFolder w.files table)
include here h

theorem getWorkflow_comesTo (fits : Fits workflowFolder id) :
    (Store.getWorkflow (.text id)).ComesTo w (.ok (Tables.valueAt table id)) w.files := by
  rw [← foundIn_shelf h fits]
  exact .on_local here (getWorkflow_runIn _ w)

theorem found_workflow {workflow : Value} (fits : Fits workflowFolder id)
    (hlookup : table.lookup id = some workflow) :
    (found "Workflow" id Store.getWorkflow).ComesTo w (.ok (.ok workflow)) w.files := by
  obtain ⟨fields, rfl⟩ := (h.kept _ (Entries.mem_of_lookup hlookup)).isObject
  have hfound := found_comesTo "Workflow" (getWorkflow_comesTo here h fits)
  rwa [Tables.valueAt, hlookup] at hfound

theorem found_noWorkflow (fits : Fits workflowFolder id) (hlookup : table.lookup id = none) :
    (found "Workflow" id Store.getWorkflow).ComesTo w (.ok (.error (.missing "Workflow" id)))
      w.files := by
  have hfound := found_comesTo "Workflow" (getWorkflow_comesTo here h fits)
  rwa [Tables.valueAt, hlookup] at hfound

theorem listed_workflows {method : String} {body : Option Value}
    (hmethod : (method == "POST") = false) : (handleWorkflows method body).ComesTo w
      (.ok (.ok (.object [("workflows", .list (Tables.inOrder table))]))) w.files := by
  have hlist := listWorkflows_comesTo w
  rw [h.workflowsAt_eq] at hlist
  rw [handleWorkflows, hmethod, if_neg Bool.false_ne_true]
  exact .bind_ofWork (.on_local here hlist) fun journal => .pure _ _

theorem deleted_workflow {method : String} {workflow : Value}
    (hmethod : (method == "DELETE") = true) (hlookup : table.lookup id = some workflow) :
    (handleWorkflow method id).ComesTo w
      (.ok (.ok (.object [("deleted", .bool true), ("id", .text id)])))
      (Entries.erase (recordPath workflowFolder id) w.files) := by
  have hnamed := (h.kept _ (Entries.mem_of_lookup hlookup)).named
  have hcontains : Entries.contains (recordPath workflowFolder id) w.files = true := by
    rw [Entries.contains_iff, h.isSome_lookup hnamed.1, hlookup]
    rfl
  have hdelete := deleteWorkflow_comesTo id w
  rw [deleted, if_pos hnamed.1] at hdelete
  simp only [if_pos hnamed.2, hcontains, if_true] at hdelete
  rw [handleWorkflow, if_pos hmethod]
  exact .bind_ofWork (.on_local here hdelete) fun journal => .pure _ _

theorem deleted_noWorkflow {method : String} (hmethod : (method == "DELETE") = true)
    (fits : Fits workflowFolder id) (hlookup : table.lookup id = none) :
    (handleWorkflow method id).ComesTo w (.ok (.error (.missing "Workflow" id))) w.files := by
  have hdelete : (LocalStore.deleteWorkflow (.text id)).ComesTo w (.ok (.bool false)) w.files := by
    have hdelete := deleteWorkflow_comesTo id w
    rw [deleted] at hdelete
    -- an identifier that cannot name a file is refused, any other has no file
    cases hsafe : isSafeId id with
    | false => rwa [hsafe, if_neg Bool.false_ne_true] at hdelete
    | true =>
      have hcontains : Entries.contains (recordPath workflowFolder id) w.files = false := by
        rw [Bool.eq_false_iff, Ne, Entries.contains_iff, h.isSome_lookup hsafe, hlookup]
        simp
      simp only [hsafe, if_true, if_pos (fits hsafe), hcontains] at hdelete
      exact hdelete
  rw [handleWorkflow, if_pos hmethod]
  exact .bind_ofWork (.on_local here hdelete) fun journal => .answer _ _

end Kept

/-- The list of the executions is read. -/
theorem handleExecutions_reads (a : Address) : (handleExecutions a).Reads := by
  refine .bind (.formed _) fun limit => .bind (.ofWork fun w here => ?_) fun v => .pure _
  exact ⟨_, .on_local here (listExecutions_comesTo _ _ w)⟩

/-! ## Workflows that are sent -/

section Sent

variable {sent : Value} {w : World}

theorem takeIn_refused {fault : FormatFault}
    (hread : Workflow.ofValue sent = .error (.format fault)) :
    (takeIn sent).ComesTo w (.ok (.error (.detail 400 fault.message))) w.files := by
  rw [takeIn, hread]
  exact .answer _ w

theorem takeIn_accepted {workflow : Value} (hread : Workflow.ofValue sent = .ok workflow) :
    (takeIn sent).ComesTo w (.ok (.ok workflow)) w.files := by
  rw [takeIn, hread]
  have hnoted : (Workflow.takeIn (.ok workflow)).ComesTo w (.ok workflow) w.files := by
    refine .attempt rfl ?_
    split
    · exact .bind (.remark _ _ _ _) fun journal => .pure _ _
    · exact .pure _ _
  exact .ofWork hnoted

variable {method : String} {body : Option Value} (hmethod : (method == "POST") = true)
  (hbody : body.bind readWorkflow? = some sent)
include hmethod hbody

theorem refused_workflow {fault : FormatFault}
    (hread : Workflow.ofValue sent = .error (.format fault)) :
    (handleWorkflows method body).ComesTo w (.ok (.error (.detail 400 fault.message))) w.files := by
  rw [handleWorkflows, if_pos hmethod, hbody]
  exact .bind (.pure _ _) fun journal => .bind_answer (takeIn_refused hread)

/-- A workflow that has been read is kept in the file that its identifier names. -/
theorem saved_workflow (here : w.backend = .local) {form : Workflow.Form}
    (hread : Workflow.ofValue sent = .ok form.value)
    (accepted : Accepts (recordPath workflowFolder form.id)) : ∃ file,
      valueOf file = .ok form.value ∧ (handleWorkflows method body).ComesTo w
        (.ok (.ok form.value)) (Entries.put (recordPath workflowFolder form.id) file w.files) := by
  obtain ⟨file, hkept, hvalue⟩ := keptIn_decoded
    (show workflowFolder ∈ [workflowFolder, executionFolder] by simp) ⟨form.safe, accepted⟩
    form.decoded w
  refine ⟨file, hvalue, ?_⟩
  rw [handleWorkflows, if_pos hmethod, hbody]
  refine .bind (.pure _ _) fun journal => .bind (takeIn_accepted hread) fun journal => ?_
  have hsave := saveWorkflow_comesTo form.value { w with files := w.files, journal := journal }
  rw [form.saved_eq, show keptIn { w with files := w.files, journal := journal } workflowFolder _ _ =
    _ from hkept] at hsave
  exact .ofWork (.on_local (w := { w with files := w.files, journal := journal }) here hsave)

end Sent

end Service

end WorkflowEngine
