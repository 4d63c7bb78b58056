import WorkflowEngine.Proofs.Execution.Recorded
import WorkflowEngine.Proofs.Storage.Loss
import WorkflowEngine.Proofs.Storage.Tables

/-!
# What becomes of an execution

However an execution ends, every workflow stays as it is, and of the files that can be found again
only that of its own record has changed (`execute_outcome`). What it gives back and what is found
under its identifier from then on is decided by the ending of its run alone (`Ending.Leaves`).
-/

namespace WorkflowEngine

open LocalStore

/-! ## What a run does to the data values -/

/-- A move gives no record an identifier, and of the files it writes at most that of the data
values. -/
theorem Plan.Move.data {plan : Plan} {s t : Stage} (h : plan.Move s t) :
    s.run.world.WritesData t.run.world := by
  cases h with
  | quiet spared => exact spared.world.data
  | _ => exact .of_eq rfl rfl

/-- **A run gives no record an identifier, and writes at most the data values**, however it ends. -/
theorem courseOf_data (registry : Registry) (budget : Option Int) (fuel : Nat) (workflow : Value)
    (run : Run) : run.world.WritesData
      ((courseOf registry budget fuel workflow).run run).2.world := by
  rcases courseOf_reaches registry budget fuel workflow run with
    ⟨bench, hrun, hspared⟩ | ⟨departure, -, replays, cause, hreaches⟩
  · rw [hrun]
    exact hspared.world.data
  · exact hreaches.keeps (I := fun t => run.world.WritesData t.run.world)
      (fun s t hmove hs => hs.trans hmove.data) (.of_eq rfl rfl)

/-! ## Worlds with the same workflows -/

/-- From one world to the other no record has been given an identifier, and the workflows are kept in
the same files and in the same order. -/
structure World.KeepsWorkflows (w w' : World) : Prop where
  backend : w'.backend = w.backend
  issued : w'.issued = w.issued
  shelf : ∀ table, Shelf workflowFolder w.files table → Shelf workflowFolder w'.files table

namespace World.KeepsWorkflows

variable {w w' w'' : World}

theorem of_eq (backend : w'.backend = w.backend) (issued : w'.issued = w.issued)
    (files : w'.files = w.files) : w.KeepsWorkflows w' :=
  ⟨backend, issued, fun _ h => files ▸ h⟩

theorem trans (h : w.KeepsWorkflows w') (h' : w'.KeepsWorkflows w'') : w.KeepsWorkflows w'' where
  backend := h'.backend.trans h.backend
  issued := h'.issued.trans h.issued
  shelf table hshelf := h'.shelf table (h.shelf table hshelf)

theorem of_data (backend : w'.backend = w.backend) (h : w.WritesData w') :
    w.KeepsWorkflows w' where
  backend := backend
  issued := h.issued
  shelf table hshelf := by
    rcases h.files with hfiles | ⟨file, hfiles⟩
    · rw [hfiles]
      exact hshelf
    · rw [hfiles]
      exact hshelf.foreign isRecord_dataFile.1 file

/-- Work that comes to other files keeps the workflows if these files do. -/
theorem of_comesTo {α : Type} {work : Work α} {a a' : Attempt α} {files : Files}
    (h : work.ComesTo w a files) (hrun : work.runIn w = (a', w'))
    (hshelf : ∀ table, Shelf workflowFolder w.files table → Shelf workflowFolder files table) :
    w.KeepsWorkflows w' := by
  obtain ⟨journal, hcomes⟩ := h
  obtain rfl : w' = _ := congrArg Prod.snd (hrun.symm.trans hcomes)
  exact ⟨rfl, rfl, hshelf⟩

end World.KeepsWorkflows

/-- A record that is kept among the executions leaves the workflows alone. -/
theorem LocalStore.keptIn_shelf {w : World} {id v : Value} {table : List (String × Value)}
    (h : Shelf workflowFolder w.files table) :
    Shelf workflowFolder (keptIn w executionFolder id v).2 table := by
  unfold keptIn
  cases hpath : recordFile w executionFolder id with
  | error f => exact h
  | ok path =>
    obtain ⟨name, -, rfl⟩ := recordFile_ok hpath
    dsimp only
    unfold writtenTo
    split
    · split
      · split
        · exact h.foreign (isRecord_execution name) _
        · exact h.foreign (isRecord_execution name) _
      · exact h
    · exact h

theorem LocalStore.created_shelf {w : World} {execution : Value} {table : List (String × Value)}
    (h : Shelf workflowFolder w.files table) :
    Shelf workflowFolder (created w execution).2 table := by
  unfold created
  split
  · exact h
  · exact keptIn_shelf h

theorem LocalStore.updated_shelf {w : World} {id updates : Value} {table : List (String × Value)}
    (h : Shelf workflowFolder w.files table) :
    Shelf workflowFolder (updated w id updates).2 table := by
  unfold updated
  split
  · exact h
  · split
    · exact h
    · split
      · exact h
      · exact keptIn_shelf h

/-! ## What the jobs of an execution keep -/

/-- Whether a property of the world is one of its store. -/
def World.OfStore (I : World → Prop) : Prop :=
  ∀ ⦃w w' : World⦄, w'.backend = w.backend → w'.issued = w.issued → w'.files = w.files → I w → I w'

namespace Job

variable {α β : Type} {job : Job α} {next : α → Job β} {w w' : World} {I : World → Prop}

/-- What comes of a sequence: the rest is done where the first part has come to a value. -/
theorem runIn_bind (job : Job α) (next : α → Job β) (w : World) :
    (job >>= next).runIn w = match job.runIn w with
      | none => none
      | some (.ok a, w') => (next a).runIn w'
      | some (.error f, w') => some (.error f, w') := by
  rcases h : job.runIn w with _ | ⟨f | a, w'⟩
  · rw [runIn, ExceptT.run_bind, StateT.run_bind, show StateT.run (ExceptT.run job) w = _ from h]
    rfl
  · exact runIn_error h
  · exact runIn_step h

/-- Whether a job keeps a property of the world, however it ends. -/
def Preserves (I : World → Prop) (job : Job α) : Prop :=
  ∀ ⦃w a w'⦄, I w → job.runIn w = some (a, w') → I w'

namespace Preserves

theorem of_runIn (hI : World.OfStore I) (h : ∀ w : World, ∃ a w', job.runIn w = some (a, w') ∧
    w'.backend = w.backend ∧ w'.issued = w.issued ∧ w'.files = w.files) : job.Preserves I := by
  intro w a w' hw hrun
  obtain ⟨_, _, hrun', hbackend, hissued, hfiles⟩ := h w
  obtain ⟨-, rfl⟩ := Prod.mk.inj (Option.some.inj (hrun.symm.trans hrun'))
  exact hI hbackend hissued hfiles hw

theorem bind (h : job.Preserves I) (hnext : ∀ a, (next a).Preserves I) :
    (job >>= next).Preserves I := by
  intro w b w'' hw hrun
  rw [runIn_bind] at hrun
  rcases hjob : job.runIn w with _ | ⟨f | a, w'⟩
  · simp [hjob] at hrun
  · rw [hjob] at hrun
    obtain ⟨-, rfl⟩ := Prod.mk.inj (Option.some.inj hrun)
    exact h hw hjob
  · rw [hjob] at hrun
    exact hnext a (h hw hjob) hrun

/-- The rest is done with what an attempt has come to. -/
theorem attempt {a : Attempt α} (h : ∀ v, a = .ok v → (next v).Preserves I) :
    (Job.ofAttempt a >>= next).Preserves I := by
  intro w b w' hw hrun
  cases ha : a with
  | error f =>
    rw [runIn_attempt_error ha] at hrun
    obtain ⟨-, rfl⟩ := Prod.mk.inj (Option.some.inj hrun)
    exact hw
  | ok v =>
    rw [runIn_attempt ha] at hrun
    exact h v ha hw hrun

variable (hI : World.OfStore I)

include hI

theorem pure (a : α) : (Pure.pure a : Job α).Preserves I :=
  of_runIn hI fun w => ⟨.ok a, w, rfl, rfl, rfl, rfl⟩

theorem throw (f : Failure) : (MonadExcept.throw f : Job α).Preserves I :=
  of_runIn hI fun w => ⟨.error f, w, rfl, rfl, rfl, rfl⟩

theorem get : (MonadState.get : Job World).Preserves I :=
  of_runIn hI fun w => ⟨.ok w, w, rfl, rfl, rfl, rfl⟩

theorem ofAttempt (a : Attempt α) : (Job.ofAttempt a).Preserves I :=
  of_runIn hI fun w => ⟨a, w, by rw [Job.ofAttempt, runIn_ofWork, Work.runIn_ofAttempt],
    rfl, rfl, rfl⟩

theorem remark (level : Level) (message : String) : (Runner.remark level message).Preserves I :=
  of_runIn hI fun _ => ⟨_, _, rfl, rfl, rfl, rfl⟩

/-- A tag that is put on the events to come is nothing to the store. -/
theorem modify_tag (g : World → Tag) :
    (modify fun w => { w with tag := g w } : Job PUnit).Preserves I :=
  of_runIn hI fun _ => ⟨_, _, rfl, rfl, rfl, rfl⟩

end Preserves

end Job

namespace Runner

open Job

variable {runner : Runner} {I : World → Prop} (hI : World.OfStore I)

include hI in
theorem preserves_noteEnding (id : String) (ending : Ending) :
    (noteEnding id ending).Preserves I := by
  unfold noteEnding
  split
  · exact .pure hI ()
  · exact .remark hI _ _

include hI in
/-- A run that is tagged keeps what it keeps without the tag. -/
theorem preserves_runTagged (workflow : Value) (occasion : Occasion) (id : Value)
    (hwalk : ∀ state, (runner.walkOut workflow state).Preserves I) :
    (runner.runTagged workflow occasion id).Preserves I := by
  refine .bind (.get hI) fun w => .bind (.modify_tag hI _) fun _ => .bind (hwalk _) fun ending => ?_
  split
  · exact .bind (.modify_tag hI _) fun _ => .throw hI _
  · exact .bind (preserves_noteEnding hI _ _) fun _ => .bind (.modify_tag hI _) fun _ => .pure hI _

include hI in
/-- The end of an execution keeps what the change of its record keeps. -/
theorem preserves_closeRecord (kept : runner.update = Store.updateExecution) {record : Value}
    {start : Instant} {ending : Ending}
    (hupdate : ∀ id stop updates, record.entry "id" = .ok id →
      ending.updates start stop = .ok updates →
      (Job.ofWork (Store.updateExecution id updates)).Preserves I) :
    (runner.closeRecord record start ending).Preserves I := by
  have hkeep : ∀ stop updates, ending.updates start stop = .ok updates →
      (runner.keepEnding record updates).Preserves I := by
    intro stop updates hupdates
    refine .attempt fun id hid => .bind ?_ fun updated => ?_
    · rw [kept]
      exact hupdate id stop updates hid hupdates
    · split
      · exact .ofAttempt hI _
      · exact .pure hI _
  exact .bind (.get hI) fun w => .attempt fun updates hupdates =>
    .bind (hkeep _ updates hupdates) fun final => .bind (.ofAttempt hI _) fun key =>
      .bind (.ofAttempt hI _) fun status => .bind (.ofAttempt hI _) fun duration =>
        .bind (.remark hI _ _) fun _ => .pure hI _

include hI in
/-- The beginning of an execution keeps what the first writing of its record keeps, once it has been
given an identifier. -/
theorem openRecord_preserves {workflow : Value} {occasion : Occasion} {w begun : World}
    {outcome : Attempt Value} (known : checkReason occasion.reason = .ok ())
    (hcreate : ∀ fresh, newRecord w.newId.1 workflow occasion.reason w.now = .ok fresh →
      (Job.ofWork (Store.createExecution fresh)).Preserves I) (hnumbered : I w.newId.2)
    (h : (openRecord workflow occasion).runIn w = some (outcome, begun)) : I begun := by
  rw [openRecord, runIn_attempt known, runIn_get, runIn_set] at h
  refine Preserves.attempt (fun fresh hfresh => .bind (hcreate fresh hfresh) fun record =>
    .bind (.ofAttempt hI _) fun name => .bind (.ofAttempt hI _) fun key =>
      .bind (.remark hI _ _) fun _ => .pure hI _) hnumbered h

end Runner

/-! ## Jobs that leave the workflows alone -/

namespace Job

variable {α : Type} {job : Job α}

/-- Whether a job leaves the workflows of the local store alone, however it ends. -/
def KeepsWorkflows (job : Job α) : Prop :=
  ∀ ⦃w a w'⦄, w.backend = .local → job.runIn w = some (a, w') → w.KeepsWorkflows w'

/-- At a local store the workflows are still those of a world before. -/
def WorkflowsSince (before : World) (w : World) : Prop :=
  w.backend = .local ∧ before.KeepsWorkflows w

theorem workflowsSince_ofStore (before : World) : World.OfStore (WorkflowsSince before) :=
  fun _ _ backend issued files h =>
    ⟨backend.trans h.1, h.2.trans (.of_eq backend issued files)⟩

namespace KeepsWorkflows

theorem preserves (h : job.KeepsWorkflows) (before : World) :
    job.Preserves (WorkflowsSince before) :=
  fun _ _ _ hw hrun =>
    ⟨(h hw.1 hrun).backend.trans hw.1, hw.2.trans (h hw.1 hrun)⟩

theorem of_preserves (h : ∀ before, job.Preserves (WorkflowsSince before)) : job.KeepsWorkflows :=
  fun w _ _ here hrun => (h w ⟨here, .of_eq rfl rfl rfl⟩ hrun).2

theorem createExecution (execution : Value) :
    (Job.ofWork (Store.createExecution execution)).KeepsWorkflows := by
  intro w a w' here hrun
  have hlocal : (LocalStore.createExecution execution).runIn w = (a, w') :=
    (Store.on_local here).symm.trans (Option.some.inj hrun)
  exact .of_comesTo (createExecution_comesTo execution w) hlocal fun _ => created_shelf

theorem updateExecution (id updates : Value) :
    (Job.ofWork (Store.updateExecution id updates)).KeepsWorkflows := by
  intro w a w' here hrun
  have hlocal : (LocalStore.updateExecution id updates).runIn w = (a, w') :=
    (Store.on_local here).symm.trans (Option.some.inj hrun)
  exact .of_comesTo (updateExecution_comesTo id updates w) hlocal fun _ => updated_shelf

end KeepsWorkflows

end Job

namespace Runner

open Job

variable {runner : Runner}

/-- What comes of a run in the world: nothing at all if its steps are used up. -/
theorem walkOut_runIn (runner : Runner) (workflow : Value) (state : RunState) (w : World) :
    (runner.walkOut workflow state).runIn w =
      match (courseOf runner.registry runner.budget runner.fuel workflow).run
          { world := w, state := state } with
      | (some result, run) => some (.ok (run.ending result), run.world)
      | (none, _) => none := by
  have hwalk : StateT.run (ExceptT.run (runWorkflow runner.registry runner.budget runner.fuel
      workflow)) { world := w, state := state } = match (courseOf runner.registry runner.budget
        runner.fuel workflow).run { world := w, state := state } with
      | (some result, run) => some (result, run)
      | (none, _) => none := rfl
  change Option.bind (StateT.run (ExceptT.run (runWorkflow runner.registry runner.budget runner.fuel
    workflow)) { world := w, state := state }) _ = _
  rw [hwalk]
  rcases (courseOf runner.registry runner.budget runner.fuel workflow).run
    { world := w, state := state } with ⟨_ | result, run⟩
  · rfl
  · rfl

/-- A run in the world writes at most the data values. -/
theorem walkOut_data {workflow : Value} {state : RunState} {w w' : World} {a : Attempt Ending}
    (h : (runner.walkOut workflow state).runIn w = some (a, w')) :
    w'.backend = w.backend ∧ w.WritesData w' := by
  have hdata := courseOf_data runner.registry runner.budget runner.fuel workflow
    { world := w, state := state }
  have hstore := courseOf_store runner.registry runner.budget runner.fuel workflow
    { world := w, state := state }
  rw [walkOut_runIn] at h
  rcases hcourse : (courseOf runner.registry runner.budget runner.fuel workflow).run
    { world := w, state := state } with ⟨_ | result, run⟩
  · simp [hcourse] at h
  · rw [hcourse] at h hdata hstore
    obtain ⟨-, rfl⟩ := Prod.mk.inj (Option.some.inj h)
    exact ⟨hstore.backend, hdata⟩

theorem keepsWorkflows_walkOut (runner : Runner) (workflow : Value) (state : RunState) :
    (runner.walkOut workflow state).KeepsWorkflows := by
  intro w a w' _ hrun
  obtain ⟨hbackend, hdata⟩ := walkOut_data hrun
  exact .of_data hbackend hdata

theorem keepsWorkflows_runTagged (runner : Runner) (workflow : Value) (occasion : Occasion)
    (id : Value) : (runner.runTagged workflow occasion id).KeepsWorkflows :=
  .of_preserves fun before => preserves_runTagged (workflowsSince_ofStore before) workflow occasion id
    fun state => (keepsWorkflows_walkOut runner workflow state).preserves before

theorem keepsWorkflows_closeRecord (kept : runner.update = Store.updateExecution) (record : Value)
    (start : Instant) (ending : Ending) :
    (runner.closeRecord record start ending).KeepsWorkflows :=
  .of_preserves fun before => preserves_closeRecord (workflowsSince_ofStore before) kept
    fun id _ updates _ _ => (KeepsWorkflows.updateExecution id updates).preserves before

/-- The beginning of an execution gives its record an identifier, and no other work of it does. -/
theorem openRecord_keeps {workflow record : Value} {occasion : Occasion} {w begun : World}
    (here : w.backend = .local)
    (h : (openRecord workflow occasion).runIn w = some (.ok record, begun)) :
    w.newId.2.KeepsWorkflows begun := by
  cases hcheck : checkReason occasion.reason with
  | error f =>
    rw [openRecord, runIn_attempt_error hcheck] at h
    cases h
  | ok _ =>
    exact (openRecord_preserves (workflowsSince_ofStore w.newId.2) hcheck
      (fun fresh _ => (KeepsWorkflows.createExecution fresh).preserves _)
      ⟨here, .of_eq rfl rfl rfl⟩ h).2

theorem runTagged_unending {workflow : Value} {occasion : Occasion} {id : String} {w : World}
    {run : Run} (h : (courseOf runner.registry runner.budget runner.fuel workflow).run
      (runner.freshRun occasion id w) = (none, run)) :
    (runner.runTagged workflow occasion (.text id)).runIn w = none := by
  have hwalk : (runner.walkOut workflow (runner.freshState occasion (.text id))).runIn
      { w with tag := w.tag.within { execution := .text id } } = none := by
    rw [walkOut_runIn]
    rw [freshRun] at h
    rw [h]
  rw [runTagged, runIn_get, runIn_modify, runIn_bind, hwalk]

end Runner

/-! ## The outcome -/

/-- What comes of an execution that began with a record, by the ending of its run: what is given
back, and what is found under its identifier from then on. -/
inductive Ending.Leaves (ending : Ending) (record : Value) : Attempt Value → Value → Prop
  /-- The record is brought to its end and given back. -/
  | closed {results : Json} {text : String} {final : Value} {start stop : Instant}
      (unbroken : ending.result ≠ .error .interrupted)
      (recorded : ending.recordedResults = .ok results)
      (written : results.toValue.fileText = .ok text)
      (closes : overwrite record (ending.changes results start stop) = .ok final)
      (shows : ShowsEnding ending results record final) : Leaves ending record (.ok final) final
  /-- Results that cannot be written break the record off, so that nothing is found of it. -/
  | torn {results : Json} {f : Failure} (unbroken : ending.result ≠ .error .interrupted)
      (recorded : ending.recordedResults = .ok results)
      (unwritten : ∀ text, results.toValue.fileText ≠ .ok text) :
      Leaves ending record (.error f) .null
  /-- Results that cannot be recorded leave the record as it began. -/
  | unrecorded {f : Failure} (unbroken : ending.result ≠ .error .interrupted)
      (failure : ending.recordedResults = .error f) : Leaves ending record (.error f) record
  /-- So does an interruption by the user. -/
  | interrupted (broken : ending.result = .error .interrupted) :
      Leaves ending record (.error .interrupted) record

theorem LocalStore.Holds.found {w : World} {path : String} {v : Value} (h : Holds w path v)
    (haccepted : Accepts path) : foundAt path (w.files.lookup path) = .ok v := by
  obtain ⟨file, text, j, hlookup, htext, hread, rfl⟩ := h
  rw [foundAt, if_pos haccepted, hlookup, Option.elim_some, valueOf]
  simp only [htext, Content.read?, hread]

theorem LocalStore.found_putContent {path : String} {files : Files} {v : Value} {f : Failure}
    (haccepted : Accepts path) (h : v.fileText = .error f) :
    foundAt path ((Files.putContent path (.text (v.spill Value.fileLayout).1) files).lookup path) =
      .ok .null := by
  rw [Files.putContent, Entries.lookup_put, if_pos (beq_self_eq_true path)]
  exact foundAt_torn haccepted h _

/-- The end of an execution that was not interrupted. -/
theorem closeRecord_leaves {runner : Runner} (kept : runner.update = Store.updateExecution)
    {o : Origin} {ending : Ending} {w : World} (here : w.backend = .local)
    (safe : isSafeId o.id = true) (accepted : Accepts (executionFile o.id)) (decoded : o.Decoded)
    (hholds : Holds w (executionFile o.id) o.running)
    (unbroken : ending.result ≠ .error .interrupted) (start : Instant) :
    ∃ outcome found after, ending.Leaves o.running outcome found ∧
      (runner.closeRecord o.running start ending).runIn w = some (outcome, after) ∧
      w.SameFilesBut [executionFile o.id] after ∧
      foundAt (executionFile o.id) (after.files.lookup (executionFile o.id)) = .ok found := by
  cases recorded : ending.recordedResults with
  | error f =>
    exact ⟨_, _, w, .unrecorded unbroken recorded, closeRecord_unrecorded recorded _ _,
      .of_eq rfl rfl, hholds.found accepted⟩
  | ok results =>
    by_cases hwritten : ∃ text, results.toValue.fileText = .ok text
    · obtain ⟨text, written⟩ := hwritten
      obtain ⟨after, hclose, hsame, hafter⟩ := closeRecord_written kept here safe accepted decoded
        hholds recorded (Value.decoded_recorded recorded written) start
      have hcloses := ending.overwrite_running results start w.clock o
      exact ⟨_, _, after, .closed unbroken recorded written hcloses (o.ended_shows _ _ _ _), hclose,
        hsame, hafter.found accepted⟩
    · have unwritten : ∀ text, results.toValue.fileText ≠ .ok text := fun text written =>
        hwritten ⟨text, written⟩
      obtain ⟨f, final, htext, hclose⟩ := closeRecord_torn kept here safe accepted hholds recorded
        unwritten start
      exact ⟨_, _, _, .torn unbroken recorded unwritten, hclose, .put w _ _,
        found_putContent accepted htext⟩

/-- What an execution does to the world in which it begins: its record alone is another one. -/
structure World.Executes (w : World) (found : Value) (after : World) : Prop where
  workflows : w.newId.2.KeepsWorkflows after
  others : w.SameFilesBut [executionFile w.newId.1, dataFile] after
  found : foundAt (executionFile w.newId.1) (after.files.lookup (executionFile w.newId.1)) =
    .ok found

/-- **What becomes of an execution for a known reason is decided by the ending of its run.** It has
no outcome only if the run has none, and it changes no other record and no workflow. -/
theorem execute_outcome (runner : Runner) (kept : runner.update = Store.updateExecution)
    {fields : Fields} (decoded : (Value.dict fields).Decoded) {occasion : Occasion}
    (known : ∃ reason ∈ triggerReasons, occasion.reason = .text reason) {w : World}
    (here : w.backend = .local) (accepted : Accepts (executionFile w.newId.1)) :
    ∃ record begun, newRecord w.newId.1 (.dict fields) occasion.reason w.now = .ok record ∧
      (Runner.openRecord (.dict fields) occasion).runIn w = some (.ok record, begun) ∧
      ((∃ run, (courseOf runner.registry runner.budget runner.fuel (.dict fields)).run
            (runner.freshRun occasion w.newId.1 begun) = (none, run) ∧
          (runner.execute (.dict fields) occasion).runIn w = none) ∨
        ∃ result run outcome found after,
          (courseOf runner.registry runner.budget runner.fuel (.dict fields)).run
            (runner.freshRun occasion w.newId.1 begun) = (some result, run) ∧
          (run.ending result).Leaves record outcome found ∧
          (runner.execute (.dict fields) occasion).runIn w = some (outcome, after) ∧
          w.Executes found after) := by
  obtain ⟨reason, known, given⟩ := known
  obtain ⟨o, begun, hid, ho, hfresh, hopen, hopened, hbegun⟩ :=
    openRecord_known decoded known given here accepted
  have hbegins := Runner.openRecord_keeps here hopen
  have safe := isSafeId_newId w
  have herebegun : begun.backend = .local := hopened.backend.trans here
  refine ⟨o.running, begun, hfresh, hopen, ?_⟩
  have hexecute : (runner.execute (.dict fields) occasion).runIn w =
      (runner.runTagged (.dict fields) occasion (.text w.newId.1) >>= fun ending =>
        runner.closeRecord o.running begun.clock ending).runIn begun := by
    rw [Runner.execute, Job.runIn_step hopen, Job.runIn_get,
      Job.runIn_attempt (o.running_id.trans (by rw [hid]))]
  rcases hcourse : (courseOf runner.registry runner.budget runner.fuel (.dict fields)).run
    (runner.freshRun occasion w.newId.1 begun) with ⟨_ | result, run⟩
  · refine .inl ⟨run, rfl, ?_⟩
    rw [hexecute, Job.runIn_bind, Runner.runTagged_unending hcourse]
  refine .inr ⟨result, run, ?_⟩
  have hexecutes : ∀ {found after}, w.newId.2.KeepsWorkflows after →
      w.SameFilesBut [executionFile o.id, dataFile] after →
      foundAt (executionFile o.id) (after.files.lookup (executionFile o.id)) = .ok found →
      w.Executes found after := by
    intro found after hworkflows hothers hfound
    rw [hid] at hothers hfound
    exact ⟨hworkflows, hothers, hfound⟩
  rw [← hid] at accepted safe
  -- a run touches no record, so this one is still the one that was begun
  obtain ⟨ended, hrun, hsame⟩ := runTagged_ended hcourse
  have hended := hbegun.of_sameFilesBut hsame (by simpa using executionFile_ne_dataFile o.id)
  have hereended : ended.backend = .local := hsame.backend.trans herebegun
  have hruns := hbegins.trans (Runner.keepsWorkflows_runTagged runner _ _ _ herebegun hrun)
  have htouched : w.SameFilesBut [executionFile o.id, dataFile] ended :=
    (hopened.mono (by simp)).trans (hsame.mono (by simp))
  by_cases broken : result = .error .interrupted
  · rw [if_pos broken] at hrun
    exact ⟨_, _, ended, rfl, .interrupted broken, hexecute.trans (Job.runIn_error hrun),
      hexecutes hruns htouched (hended.found accepted)⟩
  · rw [if_neg broken] at hrun
    rw [Job.runIn_step hrun] at hexecute
    obtain ⟨outcome, found, after, hleaves, hclose, hclosed, hfound⟩ :=
      closeRecord_leaves kept hereended safe accepted ho hended
        (show (run.ending result).result ≠ _ from broken) begun.clock
    have hcloses := Runner.keepsWorkflows_closeRecord kept _ _ _ hereended hclose
    exact ⟨outcome, found, after, rfl, hleaves, hexecute.trans hclose,
      hexecutes (hruns.trans hcloses) (htouched.trans (hclosed.mono (by simp))) hfound⟩

end WorkflowEngine
