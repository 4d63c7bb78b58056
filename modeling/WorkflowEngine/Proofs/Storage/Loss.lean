import Mathlib.Data.List.Sort
import WorkflowEngine.Proofs.Storage.Confinement
import WorkflowEngine.Proofs.Storage.Torn

/-!
# What a failed write costs

A record is written over the one before, and a value is found to be unwritable only while it is
written. So a call that keeps a record and is given up has either changed nothing, or it has broken off
the file of that record, which then counts as missing: every answer is as if the file were not there
(`record_lost`). Other records and the data values are not touched.
-/

namespace WorkflowEngine.LocalStore

open Work

namespace Operation

/-- Whether an operation looks for something. -/
def Looks : Operation → Prop
  | getWorkflow _ | getExecution _ | listWorkflows | getData _ => True
  | _ => False

/-- Whether an operation keeps a record. -/
def Records : Operation → Prop
  | saveWorkflow _ | createExecution _ | updateExecution _ _ => True
  | _ => False

/-- The folder, the identifier and the record that an operation comes to keep, unless it is given up
before. -/
def record? (w : World) : Operation → Option (String × Value × Value)
  | saveWorkflow workflow =>
    match workflow.get "id" with
    | .ok id => if id.holds then some (workflowFolder, id, workflow) else none
    | .error _ => none
  | createExecution execution =>
    match execution.entry "id" with
    | .ok id => some (executionFolder, id, execution)
    | .error _ => none
  | updateExecution id updates =>
    match foundIn w executionFolder (.text id) >>= fun record => overwrite record updates with
    | .ok record => some (executionFolder, .text id, record)
    | .error _ => none
  | _ => none

end Operation

variable {w : World} {op read : Operation} {folder path : String} {f : Failure}

/-- An operation that keeps a record does so, or leaves the files as they are. -/
theorem Operation.effect_record (hop : op.Records) (w : World) :
    (op.effect w).2 = w.files ∨ ∃ folder id record, op.record? w = some (folder, id, record) ∧
      op.effect w = keptIn w folder id record := by
  cases op with
  | saveWorkflow workflow =>
    rw [effect, saved, record?]
    cases workflow.get "id" with
    | error f => exact .inl rfl
    | ok id =>
      dsimp only
      cases id.holds with
      | false => exact .inl rfl
      | true => exact .inr ⟨_, _, _, rfl, rfl⟩
  | createExecution execution =>
    rw [effect, created, record?]
    cases execution.entry "id" with
    | error f => exact .inl rfl
    | ok id => exact .inr ⟨_, _, _, rfl, rfl⟩
  | updateExecution id updates =>
    rw [effect, updated, record?]
    cases foundIn w executionFolder (.text id) with
    | error f => exact .inl rfl
    | ok record =>
      dsimp only
      cases hnull : record.isNull with
      | true => exact .inl rfl
      | false =>
        simp only [Bool.false_eq_true, if_false, bind, Except.bind]
        cases overwrite record updates with
        | error f => exact .inl rfl
        | ok final => exact .inr ⟨_, _, _, rfl, rfl⟩
  | _ => cases hop

/-- Where a record that cannot be written is kept, its file is broken off, or nothing changes. -/
theorem keptIn_error {id record : Value} (h : (keptIn w folder id record).1 = .error f) :
    (keptIn w folder id record).2 = w.files ∨ ∃ name, id.plain = .ok name ∧
      record.fileText = .error f ∧ Accepts (recordPath folder name) ∧
      (keptIn w folder id record).2 = Files.putContent (recordPath folder name)
        (.text (record.spill Value.fileLayout).1) w.files := by
  unfold keptIn at h ⊢
  cases hpath : recordFile w folder id with
  | error f => exact .inl rfl
  | ok path =>
    obtain ⟨name, hname, rfl⟩ := recordFile_ok hpath
    rw [hpath] at h
    dsimp only at h ⊢
    unfold writtenTo at h ⊢
    split at h
    · rename_i haccepted
      split at h
      · rename_i housed
        rw [if_pos haccepted, if_pos housed]
        cases htext : record.fileText with
        | ok text =>
          rw [htext] at h
          cases h
        | error f' =>
          rw [htext] at h
          cases h
          exact .inr ⟨name, hname, rfl, haccepted, rfl⟩
      · rename_i housed
        rw [if_pos ‹_›, if_neg housed]
        exact .inl rfl
    · rename_i haccepted
      rw [if_neg haccepted]
      exact .inl rfl

/-- A file that is broken off counts as missing. -/
theorem foundAt_torn {record : Value} (haccepted : Accepts path)
    (h : record.fileText = .error f) (mode : Nat) :
    foundAt path (some ⟨.text (record.spill Value.fileLayout).1, mode⟩) = .ok .null := by
  obtain ⟨c, hread, hcause⟩ := Value.read_torn h
  rw [foundAt, if_pos haccepted, Option.elim_some, valueOf]
  simp only [Content.read?, hread]
  exact if_neg hcause

/-! ## Listing without a file -/

section Listing

variable {files : Files}

/-- A file that counts as missing may as well be left out. -/
theorem workflowsAt_without {files' : Files}
    (hmissing : foundAt path (files.lookup path) = .ok .null)
    (hothers : ∀ other, other ≠ path → files'.lookup other = files.lookup other)
    (paths : List String) : workflowsAt files paths =
      workflowsAt files' (paths.filter fun other => !(path == other)) := by
  induction paths with
  | nil => rfl
  | cons other rest ih =>
    rw [workflowsAt_cons]
    by_cases heq : path = other
    · subst heq
      rw [hmissing, List.filter_cons_of_neg (by simp), ← ih]
      change (fun others => others) <$> workflowsAt files rest = _
      exact id_map _
    · rw [List.filter_cons_of_pos (by simpa using heq), workflowsAt_cons,
        hothers other (Ne.symm heq), ih]

/-- Leaving out a file leaves the others in their order. -/
theorem workflowFiles_erase (path : String) (files : Files) :
    workflowFiles (Entries.erase path files) =
      (workflowFiles files).filter fun other => !(path == other) := by
  have htrans : ∀ a b c : String, decide (a ≤ b) = true → decide (b ≤ c) = true →
      decide (a ≤ c) = true := by
    simpa using fun a b c => String.le_trans
  have htotal : ∀ a b : String, (decide (a ≤ b) || decide (b ≤ a)) = true := by
    simpa using String.le_total
  have hsorted (paths : List String) :=
    List.pairwise_mergeSort htrans htotal paths
  rw [workflowFiles, workflowFiles, recordFiles_erase]
  refine List.Perm.eq_of_pairwise ?_ (hsorted _) ((hsorted _).filter _) ?_
  · intro a b _ _ hab hba
    exact String.le_antisymm (of_decide_eq_true hab) (of_decide_eq_true hba)
  · exact (List.mergeSort_perm _ _).trans ((List.mergeSort_perm _ _).filter _).symm

end Listing

/-! ## The answers afterwards -/

/-- With a file that counts as missing a search is answered as if the file were not there. -/
theorem Operation.effect_missing {file : File} (hread : read.Looks) (haccepted : Accepts path)
    (hfile : foundAt path (some file) = .ok .null) (w : World) (journal journal' : List Entry) :
    (read.effect { w with files := Entries.put path file w.files, journal := journal }).1 =
      (read.effect { w with files := Entries.erase path w.files, journal := journal' }).1 := by
  have hothers : ∀ other, other ≠ path →
      (Entries.erase path w.files).lookup other = (Entries.put path file w.files).lookup other := by
    intro other hother
    rw [Entries.lookup_erase, Entries.lookup_put]
    simp [hother]
  have hmissing : foundAt path ((Entries.put path file w.files).lookup path) = .ok .null := by
    rw [Entries.lookup_put, if_pos (beq_self_eq_true _), hfile]
  have hfound : ∀ other, foundAt other ((Entries.put path file w.files).lookup other) =
      foundAt other ((Entries.erase path w.files).lookup other) := by
    intro other
    by_cases hother : other = path
    · rw [hother, hmissing, Entries.lookup_erase, if_pos (beq_self_eq_true _), foundAt,
        if_pos haccepted]
      rfl
    · rw [hothers other hother]
  cases read with
  | getWorkflow id | getExecution id =>
    simp only [effect]
    cases hsafe : isSafeId id with
    | false => rw [foundIn_rejected hsafe, foundIn_rejected hsafe]
    | true => rw [foundIn_text hsafe, foundIn_text hsafe, hfound]
  | listWorkflows =>
    simp only [effect]
    rw [workflowsAt_without hmissing hothers, ← workflowFiles_erase, Entries.erase_put]
  | getData key =>
    simp only [effect]
    rw [dataIn, dataIn, hfound]
  | _ => cases hread

theorem Operation.Looks.textual (h : read.Looks) : read.Textual := by
  cases read with
  | saveWorkflow workflow => cases h
  | createExecution execution => cases h
  | _ => trivial

/-- **What a call that keeps a record costs if it is given up.** Either every search is answered as
before, or the record is one that cannot be written. Then every search is answered as if the file of the
record were not there, and so as before unless it reads this file. -/
theorem record_lost (hop : op.Records) {w' : World} (h : op.perform.runIn w = (.error f, w')) :
    (∀ read : Operation, read.Looks →
      (read.perform.runIn w').1 = (read.perform.runIn w).1) ∨
    ∃ folder id record name, op.record? w = some (folder, id, record) ∧ id.plain = .ok name ∧
      record.fileText = .error f ∧
      ∀ read : Operation, read.Looks →
        (read.perform.runIn w').1 = (read.perform.runIn
          { w with files := Entries.erase (recordPath folder name) w.files }).1 ∧
        (¬ read.Reads (recordPath folder name) →
          (read.perform.runIn w').1 = (read.perform.runIn w).1) := by
  obtain ⟨journal, hrun⟩ := op.perform_comesTo w
  rw [h] at hrun
  obtain ⟨herror, rfl⟩ := Prod.mk.inj hrun
  have hanswer (read : Operation) (w : World) : (read.perform.runIn w).1 = (read.effect w).1 := by
    obtain ⟨journal, hread⟩ := read.perform_comesTo w
    rw [hread]
  simp only [hanswer]
  -- what a search does not read has no part in its answer, nor has the journal
  have hsame {read : Operation} {within : String → Bool} {files : Files} (hread : read.Looks)
      (hreads : ∀ path, read.Reads path → within path = true)
      (hfiles : files.filter (fun e => within e.1) = w.files.filter fun e => within e.1) :
      (read.effect { w with files := files, journal := journal }).1 = (read.effect w).1 := by
    have alike : Alike within w { w with files := files, journal := journal } :=
      ⟨⟨rfl, rfl⟩, hfiles⟩
    exact (Operation.effect_congr hread.textual hreads alike).answer
  have hunchanged (hfiles : (op.effect w).2 = w.files) (read : Operation) (hread : read.Looks) :
      (read.effect { w with files := (op.effect w).2, journal := journal }).1 =
        (read.effect w).1 := by
    rw [hfiles]
    exact @hsame read (fun _ => true) w.files hread (fun _ _ => rfl) rfl
  rcases Operation.effect_record hop w with hkept | ⟨folder, id, record, hrecord, hkept⟩
  · exact .inl (hunchanged hkept)
  · rw [hkept] at herror
    rcases keptIn_error herror.symm with hfiles | ⟨name, hname, htext, haccepted, hfiles⟩
    · exact .inl (hunchanged (by rw [hkept, hfiles]))
    · refine .inr ⟨folder, id, record, name, hrecord, hname, htext, fun read hread => ?_⟩
      rw [hkept, hfiles]
      refine ⟨Operation.effect_missing hread haccepted (foundAt_torn haccepted htext _) w journal _,
        fun hreads => ?_⟩
      refine @hsame read (fun path => !(recordPath folder name == path)) _ hread ?_
        (Entries.erase_put _ _ w.files)
      rintro path hpath
      have hne : recordPath folder name ≠ path := by
        rintro rfl
        exact hreads hpath
      simpa using hne

/-- A workflow with an entry whose name JSON cannot say. -/
def unwritable : Value :=
  .object [("id", .text "w"), ("v", .dict [(.pair (.int 1) .unit, .text "2")])]

/-- A store with a workflow. -/
def stocked : World :=
  { files := [(recordPath workflowFolder "w", ⟨.text "\x7b\"id\": \"w\"\x7d", ownerOnly⟩)] }

/-- A workflow is lost to a version of it that cannot be written. -/
theorem record_lost_unwritable : ∃ f w',
    (Operation.saveWorkflow unwritable).perform.runIn stocked = (.error f, w') ∧
      ((Operation.getWorkflow "w").perform.runIn stocked).1.toOption.any (fun v => !v.isNull) ∧
      ((Operation.getWorkflow "w").perform.runIn w').1 = .ok .null := by
  have hstocked : ((Operation.getWorkflow "w").perform.runIn stocked).1.toOption.any
      (fun v => !v.isNull) = true := by decide +kernel
  have hlost : ((Operation.getWorkflow "w").perform.runIn
      ((Operation.saveWorkflow unwritable).perform.runIn stocked).2).1.toOption.any
        (fun v => !v.isNull) = false := by decide +kernel
  have hraised : ((Operation.saveWorkflow unwritable).perform.runIn stocked).1.isOk = false := by
    decide +kernel
  cases hrun : (Operation.saveWorkflow unwritable).perform.runIn stocked with
  | mk answer w' =>
  rw [hrun] at hlost hraised
  cases answer with
  | ok v => cases hraised
  | error f =>
    refine ⟨f, w', rfl, hstocked, ?_⟩
    rcases @record_lost stocked (.saveWorkflow unwritable) f trivial w' hrun with
      same | ⟨folder, id, record, name, hrecord, hname, -, hmissing⟩
    · rw [same (.getWorkflow "w") trivial, hstocked] at hlost
      cases hlost
    · cases hrecord
      cases hname
      rw [(hmissing (.getWorkflow "w") trivial).1]
      obtain ⟨journal, hread⟩ := (Operation.getWorkflow "w").perform_comesTo
        { stocked with files := Entries.erase (recordPath workflowFolder "w") stocked.files }
      have haccepted : Accepts (recordPath workflowFolder "w") := by decide +kernel
      rw [hread, Operation.effect, foundIn_text (by decide), foundAt, if_pos haccepted,
        Entries.lookup_erase, if_pos (beq_self_eq_true _)]
      rfl

end WorkflowEngine.LocalStore
