import WorkflowEngine.Execution
import WorkflowEngine.Proofs.Run.Departure
import WorkflowEngine.Proofs.Storage.Local
import WorkflowEngine.Proofs.Value.Recorded

/-!
# The record of an execution

An execution keeps its record as running before its run begins, and as ended when the run has ended;
what it gives back is what the store finds from then on, and no other record has changed
(`execute_recorded`). It gives back nothing if the results cannot be recorded or written: that
failure is no failure of the run, and the record does not show it.
-/

namespace WorkflowEngine

open LocalStore

/-! ## What a run leaves in the store -/

/-- A move changes no file but that of the data values. -/
theorem Plan.Move.store {plan : Plan} {s t : Stage} (h : plan.Move s t) :
    s.run.world.SameFilesBut [dataFile] t.run.world := by
  cases h with
  | quiet spared => exact spared.world.store
  | _ => exact .of_eq rfl rfl

/-- **A run changes no file but that of the data values**, however it ends. -/
theorem courseOf_store (registry : Registry) (budget : Option Int) (fuel : Nat) (workflow : Value)
    (run : Run) : run.world.SameFilesBut [dataFile]
      ((courseOf registry budget fuel workflow).run run).2.world := by
  rcases courseOf_reaches registry budget fuel workflow run with
    ⟨bench, hrun, hspared⟩ | ⟨departure, -, replays, cause, hreaches⟩
  · rw [hrun]
    exact hspared.world.store
  · exact hreaches.keeps (I := fun t => run.world.SameFilesBut [dataFile] t.run.world)
      (fun s t hmove hs => hs.trans hmove.store) (.of_eq rfl rfl)

/-! ## Jobs -/

namespace Job

variable {α β : Type} {job : Job α} {next : α → Job β} {w w' : World}

/-- A job whose first part is done goes on in the world that this leaves. -/
theorem runIn_step {a : α} (h : job.runIn w = some (.ok a, w')) :
    (job >>= next).runIn w = (next a).runIn w' := by
  rw [runIn, ExceptT.run_bind, StateT.run_bind, show StateT.run (ExceptT.run job) w = _ from h]
  rfl

/-- A job whose first part is given up is given up with it. -/
theorem runIn_error {f : Failure} (h : job.runIn w = some (.error f, w')) :
    (job >>= next).runIn w = some (.error f, w') := by
  rw [runIn, ExceptT.run_bind, StateT.run_bind, show StateT.run (ExceptT.run job) w = _ from h]
  rfl

theorem runIn_ofWork (work : Work α) (w : World) : (ofWork work).runIn w = some (work.runIn w) :=
  rfl

theorem runIn_get (next : World → Job β) (w : World) :
    (get >>= next).runIn w = (next w).runIn w :=
  runIn_step rfl

theorem runIn_set (next : PUnit → Job β) (w w' : World) :
    (set w' >>= next).runIn w = (next ()).runIn w' :=
  runIn_step rfl

theorem runIn_modify (next : PUnit → Job β) (g : World → World) (w : World) :
    (modify g >>= next).runIn w = (next ()).runIn (g w) :=
  runIn_step rfl

theorem runIn_remark (level : Level) (message : String) (next : Unit → Job β) (w : World) :
    (Runner.remark level message >>= next).runIn w =
      (next ()).runIn (w.note (.note level "runner" message)) :=
  runIn_step rfl

/-- Of an attempt that makes a value, only the value counts. -/
theorem runIn_attempt {a : Attempt α} {v : α} (h : a = .ok v) :
    (ofAttempt a >>= next).runIn w = (next v).runIn w := by
  refine runIn_step ?_
  rw [ofAttempt, runIn_ofWork, Work.runIn_ofAttempt, h]

/-- An attempt that is given up ends the job. -/
theorem runIn_attempt_error {a : Attempt α} {f : Failure} (h : a = .error f) :
    (ofAttempt a >>= next).runIn w = some (.error f, w) := by
  refine runIn_error ?_
  rw [ofAttempt, runIn_ofWork, Work.runIn_ofAttempt, h]

/-- Work that is done leaves the rest of the job to be done. -/
theorem runIn_work {work : Work α} {a : α} (h : work.runIn w = (.ok a, w')) :
    (ofWork work >>= next).runIn w = (next a).runIn w' :=
  runIn_step (by rw [runIn_ofWork, h])

end Job

/-! ## Records -/

/-- What a record keeps from the beginning of its execution to the end. -/
structure Origin where
  id : String
  workflowId : Value
  workflowName : Value
  reason : String
  start : String

namespace Origin

/-- The record of an execution that has begun. -/
def running (o : Origin) : Value :=
  .object [("id", .text o.id), ("workflow_id", o.workflowId), ("workflow_name", o.workflowName),
    ("status", .text "running"), ("triggered_by", .text o.reason), ("start_time", .text o.start),
    ("node_results", .list [])]

/-- The record of an execution that has ended. -/
def ended (o : Origin) (result : Attempt Unit) (stop : String) (duration : Int) (results : Value) :
    Value :=
  let (status, cause) : String × List (String × Value) := match result with
    | .ok () => ("success", [])
    | .error f => ("failed", [("error", .text f.recorded)])
  .object ([("id", .text o.id), ("workflow_id", o.workflowId), ("workflow_name", o.workflowName),
    ("status", .text status), ("triggered_by", .text o.reason), ("start_time", .text o.start),
    ("node_results", results)] ++ cause ++
    [("end_time", .text stop), ("duration", .int duration)])

/-- Whether what comes from the workflow is decoded. -/
structure Decoded (o : Origin) : Prop where
  workflowId : o.workflowId.Decoded
  workflowName : o.workflowName.Decoded

variable {o : Origin}

theorem running_id (o : Origin) : o.running.entry "id" = .ok (.text o.id) := rfl

theorem Decoded.running (h : o.Decoded) : o.running.Decoded := by
  refine Value.decoded_object (by simp) ?_
  simp only [List.forall_mem_cons, Value.decoded_text, h.workflowId, h.workflowName, true_and]
  exact ⟨Value.decoded_list (by simp), by simp⟩

theorem Decoded.ended (h : o.Decoded) (result : Attempt Unit) (stop : String) {duration : Int}
    (hduration : duration.natAbs < 10 ^ Json.digitLimit) {results : Value}
    (hresults : results.Decoded) : (o.ended result stop duration results).Decoded := by
  rcases result with f | ⟨⟨⟩⟩
  all_goals
    refine Value.decoded_object (by simp) ?_
    simp only [List.cons_append, List.nil_append, List.forall_mem_cons, Value.decoded_text,
      h.workflowId, h.workflowName, hresults, Value.decoded_int hduration, true_and]
    simp

/-- What the record of an execution of a workflow keeps. -/
def ofWorkflow (id : String) (fields : Fields) (reason start : String) : Origin :=
  let workflowId := (fields.lookup (.text "id")).getD (.text "unknown")
  ⟨id, workflowId, (fields.lookup (.text "name")).getD workflowId, reason, start⟩

theorem ofWorkflow_decoded {fields : Fields} {mark : Option Stamp}
    (h : (Value.dict fields mark).Decoded) (id reason start : String) :
    (ofWorkflow id fields reason start).Decoded := by
  have hpart : ∀ (name : String) (other : Value), other.Decoded →
      ((fields.lookup (.text name)).getD other).Decoded := by
    intro name other hother
    cases hlookup : fields.lookup (.text name) with
    | none => exact hother
    | some v => exact h.lookup hlookup
  exact ⟨hpart "id" _ (Value.decoded_text _), hpart "name" _ (hpart "id" _ (Value.decoded_text _))⟩

end Origin

theorem Runner.entryText_eq {record v : Value} {name : String} (h : record.entry name = .ok v) :
    entryText record name = v.plain := by
  rw [entryText, h]
  rfl

/-! ## The beginning of an execution -/

theorem Value.Decoded.eq_text {v : Value} {s : String} (h : v.Decoded) (hv : v.isText s = true) :
    v = .text s := by
  obtain ⟨j, -, rfl⟩ := h
  cases j with
  | text t => rw [show t = s by simpa [Json.toValue, Value.isText] using hv, Json.toValue]
  | _ => cases hv

theorem checkReason_known {reason : String} (h : reason ∈ triggerReasons) :
    checkReason (.text reason) = .ok () := by
  have hany : triggerReasons.any (fun known => (Value.text reason).isText known) = true :=
    List.any_eq_true.2 ⟨reason, h, beq_self_eq_true reason⟩
  rw [checkReason, hany]
  rfl

theorem checkReason_unknown {reason : Value} (decoded : reason.Decoded)
    (h : ∀ known ∈ triggerReasons, reason ≠ .text known) :
    ∃ s, reason.plain = .ok s ∧ checkReason reason = .error (.unknownReason s) := by
  have hany : triggerReasons.any (fun known => reason.isText known) = false :=
    List.any_eq_false.2 fun known hknown htext => h known hknown (decoded.eq_text htext)
  obtain ⟨s, hs⟩ := decoded.plain_ok
  refine ⟨s, hs, ?_⟩
  rw [checkReason, hany, hs]
  rfl

theorem newRecord_object (id : String) (fields : Fields) (reason start : String) :
    newRecord id (.dict fields) (.text reason) start =
      .ok (Origin.ofWorkflow id fields reason start).running :=
  rfl

/-- The record of an execution for a known reason is kept as running, and nothing else changes in
the files. -/
theorem openRecord_known {fields : Fields} (decoded : (Value.dict fields).Decoded)
    {occasion : Occasion} {reason : String} (known : reason ∈ triggerReasons)
    (given : occasion.reason = .text reason) {w : World} (here : w.backend = .local)
    (accepted : Accepts (executionFile w.newId.1)) :
    ∃ (o : Origin) (begun : World), o.id = w.newId.1 ∧ o.Decoded ∧
      newRecord w.newId.1 (.dict fields) occasion.reason w.now = .ok o.running ∧
      (Runner.openRecord (.dict fields) occasion).runIn w = some (.ok o.running, begun) ∧
      w.SameFilesBut [executionFile o.id] begun ∧ Holds begun (executionFile o.id) o.running := by
  have hfresh := newRecord_object w.newId.1 fields reason w.newId.2.now
  have ho := Origin.ofWorkflow_decoded decoded w.newId.1 reason w.newId.2.now
  have hid : (Origin.ofWorkflow w.newId.1 fields reason w.newId.2.now).id = w.newId.1 := rfl
  -- from here on the record is any record with this identifier
  generalize Origin.ofWorkflow w.newId.1 fields reason w.newId.2.now = o at hfresh ho hid
  rw [← hid] at accepted
  obtain ⟨w', hcreate, hsame, hholds⟩ := createExecution_decoded (hid ▸ isSafeId_newId w) accepted
    ho.running o.running_id w.newId.2
  have hnumbered : w.SameFilesBut [executionFile o.id] w.newId.2 := .of_eq rfl rfl
  have hstore : (Store.createExecution o.running).runIn w.newId.2 = (.ok o.running, w') :=
    (Store.on_local (w := w.newId.2) here).trans hcreate
  obtain ⟨name, hname⟩ := ho.workflowName.plain_ok
  have hshown : Runner.entryText o.running "workflow_name" = .ok name := hname
  refine ⟨o, w'.note (.note .info "runner" ("Starting execution " ++ o.id ++ " of workflow " ++
    name)), hid, ho, given ▸ hfresh, ?_, (hnumbered.trans hsame).trans (.of_eq rfl rfl),
      hholds.of_sameFilesBut (.of_eq rfl rfl) List.not_mem_nil⟩
  rw [Runner.openRecord, given, Job.runIn_attempt (checkReason_known known), Job.runIn_get,
    Job.runIn_set, Job.runIn_attempt hfresh, Job.runIn_work hstore, Job.runIn_attempt hshown,
    Job.runIn_attempt o.running_id, Job.runIn_remark]
  rfl

/-! ## The run of an execution -/

/-- The run that an execution begins. -/
def Runner.freshRun (runner : Runner) (occasion : Occasion) (id : String) (w : World) : Run :=
  { world := { w with tag := w.tag.within { execution := .text id } }
    state := runner.freshState occasion (.text id) }

/-- How a run that has come to an end has ended. -/
def Run.ending (run : Run) (result : Attempt Unit) : Ending :=
  ⟨run.results, run.state.toScopes, result⟩

theorem noteEnding_runIn (id : String) (ending : Ending) (w : World) :
    ∃ w', (Runner.noteEnding id ending).runIn w = some (.ok (), w') ∧
      w.SameFilesBut [dataFile] w' := by
  unfold Runner.noteEnding
  split
  · exact ⟨w, rfl, .of_eq rfl rfl⟩
  · exact ⟨_, rfl, .of_eq rfl rfl⟩

/-- A run that ends has touched no record. -/
theorem walkOut_ended {runner : Runner} {workflow : Value} {occasion : Occasion} {id : String}
    {w : World} {result : Attempt Unit} {run : Run}
    (h : (courseOf runner.registry runner.budget runner.fuel workflow).run
      (runner.freshRun occasion id w) = (some result, run)) :
    (runner.walkOut workflow (runner.freshState occasion (.text id))).runIn
        { w with tag := w.tag.within { execution := .text id } } =
          some (.ok (run.ending result), run.world) ∧
      w.SameFilesBut [dataFile] run.world := by
  constructor
  · have hwalk : StateT.run (ExceptT.run (runWorkflow runner.registry runner.budget runner.fuel
        workflow)) (runner.freshRun occasion id w) = some (result, run) := by
      simp only [runWorkflow, ExceptT.run_mk, StateT.run, h]
    change Option.bind (StateT.run (ExceptT.run (runWorkflow runner.registry runner.budget runner.fuel
      workflow)) (runner.freshRun occasion id w)) _ = _
    rw [hwalk]
    rfl
  · have hcourse := courseOf_store runner.registry runner.budget runner.fuel workflow
      (runner.freshRun occasion id w)
    rw [h] at hcourse
    refine World.SameFilesBut.trans ?_ hcourse
    exact .of_eq rfl rfl

/-- The ending of a run is passed on, unless the user has interrupted it. -/
theorem runTagged_ended {runner : Runner} {workflow : Value} {occasion : Occasion} {id : String}
    {w : World} {result : Attempt Unit} {run : Run}
    (h : (courseOf runner.registry runner.budget runner.fuel workflow).run
      (runner.freshRun occasion id w) = (some result, run)) :
    ∃ ended, (runner.runTagged workflow occasion (.text id)).runIn w =
        some (if result = .error .interrupted then .error .interrupted else .ok (run.ending result),
          ended) ∧ w.SameFilesBut [dataFile] ended := by
  obtain ⟨hwalk, hstore⟩ := walkOut_ended h
  obtain ⟨w', hnote, hsame⟩ := noteEnding_runIn id (run.ending result) run.world
  by_cases hbroken : result = .error .interrupted
  · subst hbroken
    refine ⟨{ run.world with tag := w.tag }, ?_, hstore.trans (.of_eq rfl rfl)⟩
    rw [Runner.runTagged, Job.runIn_get, Job.runIn_modify, Job.runIn_step hwalk, if_pos rfl]
    rfl
  · refine ⟨{ w' with tag := w.tag }, ?_, (hstore.trans hsame).trans (.of_eq rfl rfl)⟩
    rw [Runner.runTagged, Job.runIn_get, Job.runIn_modify, Job.runIn_step hwalk, if_neg hbroken]
    split
    · rename_i hresult
      exact absurd hresult hbroken
    · have hlabel : (Value.text id).label = id := rfl
      rw [hlabel, Job.runIn_step hnote, Job.runIn_modify]
      rfl

/-! ## The end of an execution -/

namespace Ending

variable (ending : Ending) (results : Json) (start stop : Instant)

/-- What changes in the record of an execution whose results have been recorded. -/
def changes : Value :=
  .object (ending.status ++ [("end_time", .text (isoText stop)),
    ("duration", .int (elapsedMilliseconds start stop)), ("node_results", results.toValue)])

variable {ending results} in
theorem updates_ok (h : ending.recordedResults = .ok results) :
    ending.updates start stop = .ok (ending.changes results start stop) := by
  rw [updates, h]
  rfl

variable {ending} in
theorem updates_error {f : Failure} (h : ending.recordedResults = .error f) :
    ending.updates start stop = .error f := by
  rw [updates, h]
  rfl

/-- The changes make an ended record of a running one. -/
theorem overwrite_running (o : Origin) :
    overwrite o.running (ending.changes results start stop) = .ok (o.ended ending.result
      (isoText stop) (elapsedMilliseconds start stop) results.toValue) := by
  obtain ⟨made, scopes, result⟩ := ending
  rcases result with f | ⟨⟨⟩⟩ <;> rfl

/-- Status and duration can be shown. -/
theorem changes_shown :
    (∃ s, Runner.entryText (ending.changes results start stop) "status" = .ok s) ∧
      ∃ s, Runner.entryText (ending.changes results start stop) "duration" = .ok s := by
  obtain ⟨made, scopes, result⟩ := ending
  have hduration : (Ending.changes ⟨made, scopes, result⟩ results start stop).entry "duration" =
      .ok (.int (elapsedMilliseconds start stop)) := by
    rcases result with f | ⟨⟨⟩⟩ <;> rfl
  rw [Runner.entryText_eq hduration]
  refine ⟨?_, (Value.decoded_int (elapsedMilliseconds_short start stop)).plain_ok⟩
  rcases result with f | ⟨⟨⟩⟩
  · exact ⟨"failed", rfl⟩
  · exact ⟨"success", rfl⟩

end Ending

/-- The results stand in the ended record. -/
theorem Origin.mem_ended (o : Origin) (result : Attempt Unit) (stop : String) (duration : Int)
    (results : Value) : ∃ entries, o.ended result stop duration results = .dict entries ∧
      (.text "node_results", results) ∈ entries := by
  rcases result with f | ⟨⟨⟩⟩
  · exact ⟨_, rfl, by simp⟩
  · exact ⟨_, rfl, by simp⟩

section Closing

variable {runner : Runner} {o : Origin} {ending : Ending} {results : Json} {w : World}

theorem updateRecord_eq (kept : runner.update = Store.updateExecution) (here : w.backend = .local)
    (id : String) (updates : Value) :
    (runner.update (.text id) updates).runIn w = (updateExecution (.text id) updates).runIn w := by
  rw [kept, Store.updateExecution, Store.on_local here]

/-- A record that is changed in the store is given back as it is kept. -/
theorem keepEnding_runIn {updates final : Value} {w' : World}
    (h : (runner.update (.text o.id) updates).runIn w = (.ok final, w'))
    (hfinal : final.isNull = false) :
    (runner.keepEnding o.running updates).runIn w = some (.ok final, w') := by
  rw [Runner.keepEnding, Job.runIn_attempt o.running_id, Job.runIn_work h, hfinal]
  rfl

theorem Origin.ended_isNull (o : Origin) (result : Attempt Unit) (stop : String) (duration : Int)
    (results : Value) : (o.ended result stop duration results).isNull = false := by
  rcases result with f | ⟨⟨⟩⟩ <;> rfl

/-- The record of an execution whose results can be written is brought to its end, and is found so
from then on. -/
theorem closeRecord_written (kept : runner.update = Store.updateExecution)
    (here : w.backend = .local) (safe : isSafeId o.id = true)
    (accepted : Accepts (executionFile o.id)) (decoded : o.Decoded)
    (hholds : Holds w (executionFile o.id) o.running)
    (recorded : ending.recordedResults = .ok results) (hresults : results.toValue.Decoded)
    (start : Instant) :
    ∃ w', (runner.closeRecord o.running start ending).runIn w =
        some (.ok (o.ended ending.result (isoText w.clock) (elapsedMilliseconds start w.clock)
          results.toValue), w') ∧
      w.SameFilesBut [executionFile o.id] w' ∧
      Holds w' (executionFile o.id) (o.ended ending.result (isoText w.clock)
        (elapsedMilliseconds start w.clock) results.toValue) := by
  have hfinal := decoded.ended ending.result (isoText w.clock)
    (elapsedMilliseconds_short start w.clock) hresults
  obtain ⟨w', hlocal, hsame, hkept⟩ := updateExecution_decoded safe accepted hholds rfl
    (ending.overwrite_running results start w.clock o) hfinal
  have hupdate := (updateRecord_eq kept here o.id (ending.changes results start w.clock)).trans
    hlocal
  obtain ⟨⟨status, hstatus⟩, duration, hduration⟩ := ending.changes_shown results start w.clock
  refine ⟨w'.note (.note .info "runner" ("Execution " ++ o.id ++ " finished with status " ++
    status ++ " in " ++ duration ++ "ms")), ?_, hsame.trans (.of_eq rfl rfl),
      hkept.of_sameFilesBut (.of_eq rfl rfl) List.not_mem_nil⟩
  rw [Runner.closeRecord, Job.runIn_get,
    Job.runIn_attempt (Ending.updates_ok start w.clock recorded),
    Job.runIn_step (keepEnding_runIn hupdate (o.ended_isNull ..)), Job.runIn_attempt o.running_id,
    Job.runIn_attempt hstatus, Job.runIn_attempt hduration, Job.runIn_remark]
  rfl

/-- The record of an execution whose results cannot be recorded is left as it is. -/
theorem closeRecord_unrecorded {f : Failure} (unrecorded : ending.recordedResults = .error f)
    (record : Value) (start : Instant) :
    (runner.closeRecord record start ending).runIn w = some (.error f, w) := by
  rw [Runner.closeRecord, Job.runIn_get,
    Job.runIn_attempt_error (Ending.updates_error start w.clock unrecorded)]

/-- The record of an execution whose results cannot be written is broken off. -/
theorem closeRecord_torn (kept : runner.update = Store.updateExecution)
    (here : w.backend = .local) (safe : isSafeId o.id = true)
    (accepted : Accepts (executionFile o.id))
    (hholds : Holds w (executionFile o.id) o.running)
    (recorded : ending.recordedResults = .ok results)
    (unwritten : ∀ text, results.toValue.fileText ≠ .ok text) (start : Instant) :
    ∃ f final, Value.fileText final = .error f ∧
      (runner.closeRecord o.running start ending).runIn w = some (.error f, { w with
        files := Files.putContent (executionFile o.id)
          (.text (final.spill Value.fileLayout).1) w.files }) := by
  have hoverwrite := ending.overwrite_running results start w.clock o
  cases htext : (o.ended ending.result (isoText w.clock) (elapsedMilliseconds start w.clock)
      results.toValue).fileText with
  | ok text =>
    -- what is written with the results in it would have them written
    obtain ⟨entries, hentries, hmem⟩ := o.mem_ended ending.result (isoText w.clock)
      (elapsedMilliseconds start w.clock) results.toValue
    rw [hentries] at htext
    obtain ⟨text, hresults⟩ := Value.fileText_of_entry htext _ hmem
    exact absurd hresults (unwritten text)
  | error f =>
    refine ⟨f, _, htext, ?_⟩
    rw [Runner.closeRecord, Job.runIn_get,
      Job.runIn_attempt (Ending.updates_ok start w.clock recorded)]
    refine Job.runIn_error ?_
    rw [Runner.keepEnding, Job.runIn_attempt o.running_id]
    refine Job.runIn_error ?_
    rw [Job.runIn_ofWork, updateRecord_eq kept here,
      updateExecution_eq safe accepted hholds rfl hoverwrite,
      Work.runIn_error (writeFile_error accepted (housed_executionFile safe) htext w)]

/-- The record of an execution whose results cannot be written is not closed. -/
theorem closeRecord_unwritten (kept : runner.update = Store.updateExecution)
    (here : w.backend = .local) (safe : isSafeId o.id = true)
    (accepted : Accepts (executionFile o.id))
    (hholds : Holds w (executionFile o.id) o.running)
    (recorded : ending.recordedResults = .ok results)
    (unwritten : ∀ text, results.toValue.fileText ≠ .ok text) (start : Instant) :
    ∃ f w', (runner.closeRecord o.running start ending).runIn w = some (.error f, w') := by
  obtain ⟨f, _, -, hclose⟩ := closeRecord_torn kept here safe accepted hholds recorded unwritten start
  exact ⟨f, _, hclose⟩

end Closing

/-! ## The whole execution -/

/-- Whether a record shows an execution under way: running, and without results. -/
structure ShowsRunning (record : Value) : Prop where
  status : record.entry "status" = .ok (.text "running")
  results : record.entry "node_results" = .ok (.list [])

/-- Whether a record shows how an execution has ended that had begun with another record. -/
structure ShowsEnding (ending : Ending) (results : Json) (record final : Value) : Prop where
  status : final.entry "status" =
    .ok (.text (match ending.result with | .ok () => "success" | .error _ => "failed"))
  cause : final.find? "error" =
    .ok (match ending.result with | .ok () => none | .error f => some (.text f.recorded))
  results : final.entry "node_results" = .ok results.toValue
  origin : ∀ name ∈ ["id", "workflow_id", "workflow_name", "triggered_by", "start_time"],
    ∃ v, record.entry name = .ok v ∧ final.entry name = .ok v

theorem Origin.running_shows (o : Origin) : ShowsRunning o.running := ⟨rfl, rfl⟩

theorem Origin.ended_shows (o : Origin) (ending : Ending) (results : Json) (stop : String)
    (duration : Int) : ShowsEnding ending results o.running
      (o.ended ending.result stop duration results.toValue) := by
  obtain ⟨made, scopes, result⟩ := ending
  rcases result with f | ⟨⟨⟩⟩
  all_goals
    refine ⟨rfl, rfl, rfl, ?_⟩
    simp only [List.forall_mem_cons]
    exact ⟨⟨_, rfl, rfl⟩, ⟨_, rfl, rfl⟩, ⟨_, rfl, rfl⟩, ⟨_, rfl, rfl⟩, ⟨_, rfl, rfl⟩, by simp⟩

/-- Whether of all records at most that of one execution has changed: no file has changed but this
record and the data values, so every other execution and every workflow is found as before. -/
structure World.OnlyExecution (id : String) (w w' : World) : Prop where
  files : w.SameFilesBut [executionFile id, dataFile] w'
  executions : ∀ other : Value, other.plain ≠ .ok id →
    ((Store.getExecution other).runIn w').1 = ((Store.getExecution other).runIn w).1
  workflows : ∀ other : Value,
    ((Store.getWorkflow other).runIn w').1 = ((Store.getWorkflow other).runIn w).1

theorem World.OnlyExecution.of_sameFilesBut {id : String} {w w' : World}
    (here : w.backend = .local) (h : w.SameFilesBut [executionFile id, dataFile] w') :
    w.OnlyExecution id w' := by
  have here' : w'.backend = .local := h.backend.trans here
  refine ⟨h, fun other hother => ?_, fun other => ?_⟩
  · rw [Store.getExecution, Store.on_local here, Store.on_local here']
    refine getExecution_congr h fun name hname => ?_
    have hne : executionFile name ≠ executionFile id := fun hfile =>
      hother (executionFile_injective hfile ▸ hname)
    simp [hne, executionFile_ne_dataFile]
  · rw [Store.getWorkflow, Store.on_local here, Store.on_local here']
    refine getWorkflow_congr h other fun name => ?_
    simp [workflowFile_ne name id]

/-- What an execution comes to by the ending of its run, in which its record has begun. -/
structure Runner.Concludes (runner : Runner) (workflow : Value) (occasion : Occasion) (w : World)
    (record : Value) (ending : Ending) : Prop where
  /-- If the results can be recorded and written, the record is brought to its end. It is given back
  as it is found from then on, and no other record has changed. -/
  closed : ending.result ≠ .error .interrupted → ∀ results text,
    ending.recordedResults = .ok results → results.toValue.fileText = .ok text →
    ∃ final after, (runner.execute workflow occasion).runIn w = some (.ok final, after) ∧
      ShowsEnding ending results record final ∧
      (Store.getExecution (.text w.newId.1)).runIn after = (.ok final, after) ∧
      w.OnlyExecution w.newId.1 after
  /-- Results that cannot be written are no failure of the run, but one of the execution. -/
  unwritten : ending.result ≠ .error .interrupted → ∀ results,
    ending.recordedResults = .ok results → (∀ text, results.toValue.fileText ≠ .ok text) →
    ∃ f after, (runner.execute workflow occasion).runIn w = some (.error f, after)
  /-- So are results that cannot be recorded, and the record says for good that the execution is
  under way. -/
  unrecorded : ending.result ≠ .error .interrupted → ∀ f, ending.recordedResults = .error f →
    ∃ after, (runner.execute workflow occasion).runIn w = some (.error f, after) ∧
      (Store.getExecution (.text w.newId.1)).runIn after = (.ok record, after)
  /-- An interruption by the user is passed on, and leaves the record as it is. -/
  broken : ending.result = .error .interrupted →
    ∃ after, (runner.execute workflow occasion).runIn w = some (.error .interrupted, after) ∧
      (Store.getExecution (.text w.newId.1)).runIn after = (.ok record, after)

/-- **An execution for a known reason is recorded, and for any other reason nothing is done.**
Before the run begins, its record is kept as running and without results. When the run has ended and
its results can be recorded and written, the record shows success exactly if the run was not given
up, otherwise the cause, and all the results. Results cannot be recorded or written if an integer in
them is too long, or a key refuses to be shown. -/
theorem execute_recorded (runner : Runner) (kept : runner.update = Store.updateExecution)
    {fields : Fields} (decoded : (Value.dict fields).Decoded) (occasion : Occasion)
    (said : occasion.reason.Decoded) (w : World) (here : w.backend = .local)
    (accepted : Accepts (executionFile w.newId.1)) :
    ((∀ known ∈ triggerReasons, occasion.reason ≠ .text known) →
      ∃ s, occasion.reason.plain = .ok s ∧ (Failure.unknownReason s).kind = "ValueError" ∧
        (runner.execute (.dict fields) occasion).runIn w = some (.error (.unknownReason s), w)) ∧
    ((∃ known ∈ triggerReasons, occasion.reason = .text known) →
      ∃ record begun,
        newRecord w.newId.1 (.dict fields) occasion.reason w.now = .ok record ∧
        ShowsRunning record ∧
        (Runner.openRecord (.dict fields) occasion).runIn w = some (.ok record, begun) ∧
        (Store.getExecution (.text w.newId.1)).runIn begun = (.ok record, begun) ∧
        ∀ result run, (courseOf runner.registry runner.budget runner.fuel (.dict fields)).run
            (runner.freshRun occasion w.newId.1 begun) = (some result, run) →
          runner.Concludes (.dict fields) occasion w record (run.ending result)) := by
  refine ⟨fun unknown => ?_, fun ⟨reason, known, given⟩ => ?_⟩
  · obtain ⟨s, hs, hcheck⟩ := checkReason_unknown said unknown
    refine ⟨s, hs, rfl, ?_⟩
    rw [Runner.execute, Job.runIn_error]
    rw [Runner.openRecord, Job.runIn_attempt_error hcheck]
  obtain ⟨o, begun, hid, ho, hfresh, hopen, hopened, hbegun⟩ :=
    openRecord_known decoded known given here accepted
  have safe := isSafeId_newId w
  rw [← hid] at accepted safe hfresh ⊢
  have herebegun : begun.backend = .local := hopened.backend.trans here
  refine ⟨_, begun, hfresh, o.running_shows, hopen, ?_, fun result run hcourse => ?_⟩
  · rw [Store.getExecution, Store.on_local herebegun, getExecution_holds safe accepted hbegun]
  -- a run touches no record, so this one is still the one that was begun
  obtain ⟨ended, hrun, hsame⟩ := runTagged_ended hcourse
  have hended := hbegun.of_sameFilesBut hsame (by simpa using executionFile_ne_dataFile o.id)
  have hereended : ended.backend = .local := hsame.backend.trans herebegun
  have hfound : (Store.getExecution (.text o.id)).runIn ended = (.ok o.running, ended) := by
    rw [Store.getExecution, Store.on_local hereended, getExecution_holds safe accepted hended]
  have hexecute : (runner.execute (.dict fields) occasion).runIn w =
      (runner.runTagged (.dict fields) occasion (.text o.id) >>= fun ending =>
        runner.closeRecord o.running begun.clock ending).runIn begun := by
    rw [Runner.execute, Job.runIn_step hopen, Job.runIn_get, Job.runIn_attempt o.running_id]
  have hends : result ≠ .error .interrupted → (runner.execute (.dict fields) occasion).runIn w =
      (runner.closeRecord o.running begun.clock (run.ending result)).runIn ended := by
    intro unbroken
    rw [if_neg unbroken] at hrun
    rw [hexecute, Job.runIn_step hrun]
  refine ⟨fun unbroken results text recorded written => ?_,
    fun unbroken results recorded unwritten => ?_, fun unbroken f unrecorded => ?_,
    fun broken => ?_⟩
  · obtain ⟨after, hclose, hclosed, hafter⟩ := closeRecord_written kept hereended safe accepted ho
      hended recorded (Value.decoded_recorded recorded written) begun.clock
    have hereafter : after.backend = .local := hclosed.backend.trans hereended
    have honly : w.SameFilesBut [executionFile o.id, dataFile] after :=
      ((hopened.mono (by simp)).trans (hsame.mono (by simp))).trans (hclosed.mono (by simp))
    rw [← hid]
    refine ⟨_, after, (hends unbroken).trans hclose, o.ended_shows _ _ _ _, ?_,
      .of_sameFilesBut here honly⟩
    rw [Store.getExecution, Store.on_local hereafter, getExecution_holds safe accepted hafter]
  · rw [hends unbroken]
    exact closeRecord_unwritten kept hereended safe accepted hended recorded unwritten begun.clock
  · rw [← hid]
    exact ⟨ended, (hends unbroken).trans (closeRecord_unrecorded unrecorded _ _), hfound⟩
  · rw [if_pos (show result = .error .interrupted from broken)] at hrun
    rw [← hid]
    exact ⟨ended, hexecute.trans (Job.runIn_error hrun), hfound⟩

/-- A trigger and a switch whose rules are no list. -/
def unlistedRules : Json := .object [
  ("nodes", .list [
    .object [("id", .text "t"), ("type", .text "manual-trigger")],
    .object [("id", .text "s"), ("type", .text "switch"),
      ("data", .object [("config", .object [("rules", .bool true)])])]]),
  ("edges", .list [.object [("source", .text "t"), ("target", .text "s")]])]

theorem unlistedRules_readable : unlistedRules.Readable := by
  simp [unlistedRules, Json.Readable, Json.ReadableAll, Json.ReadableEntries]

/-- The result of a node that was given a text. -/
def goResult (id : String) (start stop : Instant) (outcome : Attempt Value) : NodeResult where
  node := .text id
  name := .text id
  start := isoText start
  input := .text "go" (some ⟨.given 0, []⟩)
  stop := isoText stop
  duration := elapsedMilliseconds start stop
  outcome := outcome

/-- What a record keeps of it. -/
def goEntry (id : String) (start stop : Instant) (status ending text : String) : Json :=
  .object [("node_id", .text id), ("node_name", .text id), ("status", .text status),
    ("start_time", .text (isoText start)), ("input", .text "go"),
    ("end_time", .text (isoText stop)), ("duration", .int (elapsedMilliseconds start stop)),
    (ending, .text text)]

theorem goEntry_readable {id status ending text : String} {start stop : Instant}
    (h : ending ∉ ["node_id", "node_name", "status", "start_time", "input", "end_time",
      "duration"]) : (goEntry id start stop status ending text).Readable := by
  simp only [List.mem_cons, List.not_mem_nil, or_false, not_or] at h
  simp [goEntry, Json.Readable, Json.ReadableEntries, elapsedMilliseconds_short, Ne.symm, h]

/-- The trigger hands its data on, and the switch fails. The times are those of the world in which
the run begins, whatever it is. -/
theorem unlistedRules_run (begun : World) (id : String) :
    ∃ run start stop start' stop', (courseOf .builtin none 5 unlistedRules.toValue).run
        (Runner.freshRun { fuel := 5 } { data := .text "go" } id begun) =
          (some (.error (.setting .rulesNotListed)), run) ∧
      run.results = [goResult "t" start stop (.ok (.text "go" (some ⟨.given 0, []⟩))),
        goResult "s" start' stop' (.error (.setting .rulesNotListed))] :=
  ⟨_, _, _, _, _, rfl, rfl⟩

theorem execute_recorded_unlistedRules : ∃ final after start stop start' stop',
    (Runner.execute { fuel := 5 } unlistedRules.toValue { data := .text "go" }).runIn {} =
      some (.ok final, after) ∧
    final.entry "status" = .ok (.text "failed") ∧
    final.find? "error" = .ok (some (.text "Switch node rules must be a list")) ∧
    final.entry "node_results" = .ok (Json.list [goEntry "t" start stop "success" "output" "go",
      goEntry "s" start' stop' "failed" "error" "Switch node rules must be a list"]).toValue ∧
    (Store.getExecution (.text "00000001-0000-4000-8000-000000000000")).runIn after =
      (.ok final, after) := by
  have hid : (World.newId {}).1 = "00000001-0000-4000-8000-000000000000" := by decide +kernel
  obtain ⟨record, begun, -, -, -, -, hend⟩ := (execute_recorded { fuel := 5 } rfl
    ⟨unlistedRules, unlistedRules_readable, rfl⟩ { data := .text "go" }
      (Value.decoded_text "manual") {} rfl (by decide +kernel)).2 ⟨"manual", by decide, rfl⟩
  obtain ⟨run, start, stop, start', stop', hrun, hresults⟩ :=
    unlistedRules_run begun (World.newId {}).1
  have hrecorded : (run.ending (.error (.setting .rulesNotListed))).recordedResults =
      .ok (.list [goEntry "t" start stop "success" "output" "go",
        goEntry "s" start' stop' "failed" "error" "Switch node rules must be a list"]) := by
    rw [Ending.recordedResults, Run.ending, hresults]
    rfl
  obtain ⟨text, -, hwritten, -⟩ := fileText_decoded ⟨_, show Json.Readable (.list
    [goEntry "t" start stop "success" "output" "go",
      goEntry "s" start' stop' "failed" "error" "Switch node rules must be a list"]) from
        ⟨goEntry_readable (by decide), goEntry_readable (by decide), trivial⟩, rfl⟩
  have hunbroken : (.error (.setting .rulesNotListed) : Attempt Unit) ≠ .error .interrupted := by
    decide
  obtain ⟨final, after, hexecute, hshows, hfound, -⟩ :=
    (hend _ run hrun).closed hunbroken _ text hrecorded hwritten
  exact ⟨final, after, start, stop, start', stop', hexecute, hshows.status, hshows.cause,
    hshows.results, hid ▸ hfound⟩

end WorkflowEngine
