import Mathlib.Data.List.Perm.Basic
import WorkflowEngine.Proofs.Execution.Ledger
import WorkflowEngine.Proofs.Storage.Readers

/-!
# The list of executions

Whatever executions have begun at a local store and however they went on (`History`), those that are
asked for are listed with the latest first, and those that a limit leaves out began no later than the
listed ones (`listExecutions_latest`). The store compares written times; that they have the order of
the instants is `isoText_le_iff`.
-/

namespace WorkflowEngine

open LocalStore

/-! ## What can happen -/

/-- The executions that have begun at a local store, the last in front. They may overlap, end in any
order, fail, or never end. -/
inductive History : List Beginning → World → Prop
  /-- Nothing has been kept yet. -/
  | empty {w : World} (here : w.backend = .local) (bare : w.files = []) : History [] w
  /-- An execution for a known reason begins, whatever comes of it. -/
  | opened {begun : List Beginning} {w w' : World} {workflow : Value} {occasion : Occasion}
      {outcome : Attempt Value} (before : History begun w) (dated : FourDigitYear w.clock)
      (known : checkReason occasion.reason = .ok ())
      (opens : (Runner.openRecord workflow occasion).runIn w = some (outcome, w')) :
      History (⟨w.newId.1, w.clock⟩ :: begun) w'
  /-- The run of an execution has ended, and so is its record to be. -/
  | closed {begun : List Beginning} {w w' : World} {b : Beginning} {runner : Runner}
      {record : Value} {start : Instant} {ending : Ending} {outcome : Attempt Value}
      (before : History begun w) (among : b ∈ begun)
      (kept : runner.update = Store.updateExecution)
      (key : record.entry "id" = .ok (.text b.id))
      (closes : (runner.closeRecord record start ending).runIn w = some (outcome, w')) :
      History begun w'
  /-- Something else happens that leaves the records alone: time passes, nodes act, workflows are
  kept. -/
  | meanwhile {begun : List Beginning} {w w' : World} (before : History begun w)
      (keeps : w.KeepsExecutions w') : History begun w'

/-- A record that is created is given back as it was. -/
theorem LocalStore.created_ok {w : World} {execution made : Value}
    (h : (created w execution).1 = .ok made) : made = execution := by
  unfold created at h
  split at h
  · cases h
  · unfold keptIn at h
    split at h
    · cases h
    · rename_i path _
      cases hwritten : (writtenTo path execution w.files).1 with
      | error f =>
        rw [hwritten] at h
        cases h
      | ok _ =>
        rw [hwritten] at h
        exact (Except.ok.inj h).symm

/-- A sequence that comes to a value has come to one with the attempt at its beginning. -/
theorem Job.runIn_attempt_ok {α β : Type} {a : Attempt α} {next : α → Job β} {w w' : World} {b : β}
    (h : (Job.ofAttempt a >>= next).runIn w = some (.ok b, w')) :
    ∃ v, a = .ok v ∧ (next v).runIn w = some (.ok b, w') := by
  cases ha : a with
  | error f =>
    rw [Job.runIn_attempt_error ha] at h
    cases h
  | ok v =>
    rw [Job.runIn_attempt ha] at h
    exact ⟨v, rfl, h⟩

namespace History

variable {begun : List Beginning} {w w' : World} {workflow record : Value} {occasion : Occasion}

/-- **The ledger is right at any time.** -/
theorem ledger (h : History begun w) : Ledger begun w := by
  induction h with
  | empty here bare => exact .empty here bare
  | opened _ dated known opens ih => exact ih.openRecord dated known opens
  | closed _ among kept key closes ih => exact Ledger.closeRecord kept among key _ _ ih closes
  | meanwhile _ keeps ih => exact ih.keeps keeps

theorem keepsExecutions_ofStore (before : World) : World.OfStore before.KeepsExecutions :=
  fun _ _ backend issued files h => ⟨backend.trans h.backend, issued ▸ h.issued, files ▸ h.files⟩

/-- The record with which an execution goes on is the one under its identifier. -/
theorem openRecord_id (here : w.backend = .local) (known : checkReason occasion.reason = .ok ())
    (h : (Runner.openRecord workflow occasion).runIn w = some (.ok record, w')) :
    record.entry "id" = .ok (.text w.newId.1) := by
  rw [Runner.openRecord, Job.runIn_attempt known, Job.runIn_get, Job.runIn_set] at h
  cases hfresh : newRecord w.newId.1 workflow occasion.reason w.newId.2.now with
  | error f =>
    rw [Job.runIn_attempt_error hfresh] at h
    cases h
  | ok fresh =>
    obtain ⟨journal, hcreate⟩ := createExecution_comesTo fresh w.newId.2
    have hstore : (Store.createExecution fresh).runIn w.newId.2 = _ :=
      (Store.on_local (w := w.newId.2) here).trans hcreate
    rw [Job.runIn_attempt hfresh, Job.runIn_bind, Job.runIn_ofWork, hstore] at h
    cases hmade : (created w.newId.2 fresh).1 with
    | error f =>
      rw [hmade] at h
      cases h
    | ok made =>
      rw [hmade] at h
      obtain ⟨name, -, h⟩ := Job.runIn_attempt_ok h
      obtain ⟨key, -, h⟩ := Job.runIn_attempt_ok h
      rw [Job.runIn_remark] at h
      obtain ⟨hmade', -⟩ := Prod.mk.inj (Option.some.inj h)
      obtain rfl := Except.ok.inj hmade'
      rw [created_ok hmade]
      exact (newRecord_told hfresh).entry.1

/-- **A whole execution is a beginning, a run that leaves the records alone, and an end.** -/
theorem executed (before : History begun w) (dated : FourDigitYear w.clock) {runner : Runner}
    (kept : runner.update = Store.updateExecution)
    (known : checkReason occasion.reason = .ok ()) {outcome : Attempt Value}
    (h : (runner.execute workflow occasion).runIn w = some (outcome, w')) :
    History (⟨w.newId.1, w.clock⟩ :: begun) w' := by
  rw [Runner.execute, Job.runIn_bind] at h
  rcases hopen : (Runner.openRecord workflow occasion).runIn w with _ | ⟨f | record, opened⟩
  · simp [hopen] at h
  · rw [hopen] at h
    obtain ⟨-, rfl⟩ := Prod.mk.inj (Option.some.inj h)
    exact .opened before dated known hopen
  rw [hopen] at h
  dsimp only at h
  have hopened := History.opened before dated known hopen
  have hkey := openRecord_id before.ledger.here known hopen
  rw [Job.runIn_get, Job.runIn_attempt hkey, Job.runIn_bind] at h
  have hwalks : (runner.runTagged workflow occasion (.text w.newId.1)).Preserves
      opened.KeepsExecutions := by
    refine Runner.preserves_runTagged (keepsExecutions_ofStore opened) _ _ _
      fun state v a v' hv hrun => ?_
    obtain ⟨hbackend, hdata⟩ := Runner.walkOut_data hrun
    exact hv.trans (.of_data hbackend hdata)
  rcases hwalk : (runner.runTagged workflow occasion (.text w.newId.1)).runIn opened with
    _ | ⟨f | ending, walked⟩
  · simp [hwalk] at h
  · rw [hwalk] at h
    obtain ⟨-, rfl⟩ := Prod.mk.inj (Option.some.inj h)
    exact .meanwhile hopened (hwalks (.of_eq rfl rfl rfl) hwalk)
  · rw [hwalk] at h
    exact .closed (.meanwhile hopened (hwalks (.of_eq rfl rfl rfl) hwalk)) List.mem_cons_self kept
      hkey h

end History

/-! ## What is found -/

/-- An execution that is found, with its record. -/
structure Found extends Beginning where
  record : Value

/-- An execution if a record of it is found that is asked for: one of a workflow, or any. -/
def foundOf (w : World) (workflow : Value) (b : Beginning) : Option Found :=
  match ((Store.getExecution (.text b.id)).runIn w).1 with
  | .ok record => if !record.isNull && isWanted workflow record then some ⟨b, record⟩ else none
  | .error _ => none

/-- The executions of which records are found that are asked for. -/
def matching (begun : List Beginning) (w : World) (workflow : Value) : List Found :=
  begun.filterMap (foundOf w workflow)

theorem LocalStore.recordOf?_eq {file : File} {v : Value} (h : valueOf file = .ok v) :
    recordOf? file = if v.isNull then none else some v := by
  unfold valueOf at h
  unfold recordOf?
  cases hcontent : file.content.read? with
  | none =>
    rw [hcontent] at h
    cases h
  | some text =>
    rw [hcontent] at h
    dsimp only at h ⊢
    cases hread : Json.read text with
    | ok j =>
      rw [hread] at h
      cases h
      rfl
    | error c =>
      rw [hread] at h
      dsimp only at h ⊢
      split at h
      · cases h
      · cases h
        rfl

theorem LocalStore.Holds.recordAt? {w : World} {path : String} {record : Value}
    (h : Holds w path record) (hnull : record.isNull = false) :
    LocalStore.recordAt? w.files path = some record := by
  obtain ⟨file, text, j, hlookup, hcontent, hread, rfl⟩ := h
  rw [LocalStore.recordAt?, hlookup, Option.bind_some, recordOf?, hcontent]
  simp only [Content.read?, hread, hnull]
  rfl

theorem Beginning.Told.startOf {b : Beginning} {record : Value} (h : b.Told record) :
    record.isObject = true ∧ LocalStore.startOf record = .text (isoText b.start) := by
  obtain ⟨parts, rfl, hnodup, -, hstart⟩ := h
  refine ⟨rfl, ?_⟩
  rw [Value.object, LocalStore.startOf, Value.lookup_object, Entries.lookup_of_mem hnodup hstart]
  rfl

namespace Ledger

variable {begun : List Beginning} {w : World} {b : Beginning} {workflow : Value}

/-- What is kept of an execution can be read, and tells which one it is. -/
theorem recordAt (h : Ledger begun w) (hb : b ∈ begun)
    (hfile : (w.files.lookup (executionFile b.id)).isSome = true) :
    Legible w.files (executionFile b.id) ∧
      ∀ record, recordAt? w.files (executionFile b.id) = some record → b.Told record := by
  obtain ⟨file, hlookup⟩ := Option.isSome_iff_exists.1 hfile
  obtain ⟨haccepted, hborne⟩ := h.borne b hb file hlookup
  have hvalue : ∃ v, valueOf file = .ok v := by
    rcases hborne with hborne | ⟨record, hborne, -⟩
    · exact ⟨_, hborne⟩
    · exact ⟨_, hborne⟩
  refine ⟨⟨haccepted, fun file' hlookup' => ?_⟩, fun record hrecord => ?_⟩
  · obtain rfl := Option.some.inj (hlookup.symm.trans hlookup')
    obtain ⟨v, hv⟩ := hvalue
    by_contra hunreadable
    obtain ⟨f, hf⟩ := (valueOf_gives file).2 (not_not.2 hunreadable)
    cases hv.symm.trans hf
  · rw [recordAt?, hlookup, Option.bind_some] at hrecord
    rcases hborne with hborne | ⟨found, hborne, htold⟩
    · rw [recordOf?_eq hborne] at hrecord
      cases hrecord
    · rw [recordOf?_eq hborne] at hrecord
      split at hrecord
      · cases hrecord
      · obtain rfl := Option.some.inj hrecord
        exact htold

/-- What is found of an execution is the record in its file. -/
theorem foundOf_eq (h : Ledger begun w) (hb : b ∈ begun) (workflow : Value) :
    foundOf w workflow b = ((recordAt? w.files (executionFile b.id)).filter
      (isWanted workflow)).map (⟨b, ·⟩) := by
  obtain ⟨journal, hget⟩ := getExecution_runIn (.text b.id) w
  rw [foundIn_text (h.safe hb)] at hget
  rw [foundOf, Store.getExecution, Store.on_local h.here, hget]
  dsimp only
  change (match foundAt (executionFile b.id) (w.files.lookup (executionFile b.id)) with
    | .ok record =>
      if !record.isNull && isWanted workflow record then some (Found.mk b record) else none
    | .error _ => none) = _
  cases hlookup : w.files.lookup (executionFile b.id) with
  | none =>
    rw [recordAt?, hlookup, foundAt]
    split
    · rename_i record hrecord
      split at hrecord
      · obtain rfl := Except.ok.inj hrecord
        rfl
      · cases hrecord
    · rfl
  | some file =>
    have hlegible := (h.recordAt hb (by rw [hlookup]; rfl)).1
    have hfound := (foundAt_gives w.files (executionFile b.id)).1 hlegible
    rw [hlookup] at hfound
    rw [hfound]
    cases hrecord : recordAt? w.files (executionFile b.id) with
    | none => rfl
    | some record =>
      dsimp only [Option.getD_some]
      rw [recordAt?_ne_null hrecord]
      cases hwanted : isWanted workflow record with
      | true => simp [hwanted]
      | false => simp [hwanted]

/-- The records that the store goes through are those of the executions. -/
theorem wantedIn_perm (h : Ledger begun w) (workflow : Value) :
    (wantedIn w.files workflow).Perm ((matching begun w workflow).map Found.record) := by
  have hfiles : (recordFiles executionFolder w.files).Perm
      ((begun.map fun b => executionFile b.id).filter fun path =>
        (w.files.lookup path).isSome) := by
    refine (List.perm_ext_iff_of_nodup h.nodup ?_).2 fun path => ?_
    · refine List.Nodup.filter _ ?_
      rw [← Function.comp_def executionFile, ← List.map_map]
      exact h.ids.map fun a b => executionFile_injective
    · rw [List.mem_filter, List.mem_map]
      refine ⟨fun hpath => ?_, ?_⟩
      · obtain ⟨b, hb, rfl⟩ := h.named path hpath
        exact ⟨⟨b, hb, rfl⟩, (mem_recordFiles.1 hpath).2⟩
      · rintro ⟨⟨b, hb, rfl⟩, hsome⟩
        exact mem_recordFiles.2 ⟨h.isRecord hb, hsome⟩
  have hmatching : (matching begun w workflow).map Found.record =
      (((begun.map fun b => executionFile b.id).filter fun path =>
        (w.files.lookup path).isSome).filterMap (recordAt? w.files)).filter (isWanted workflow) := by
    rw [matching, List.map_filterMap, List.filterMap_filter, List.filterMap_map,
      List.filter_filterMap]
    refine List.filterMap_congr fun b hb => ?_
    rw [h.foundOf_eq hb, Option.map_map]
    cases hlookup : w.files.lookup (executionFile b.id) with
    | none => simp [recordAt?, hlookup]
    | some file =>
      have hrecord : (Found.record ∘ fun record => Found.mk b record) = id := rfl
      rw [hrecord, Option.map_id]
      simp [hlookup]
  rw [hmatching]
  exact (hfiles.filterMap _).filter _

/-- The records that the store goes through can be read, and each tells which execution it is of. -/
theorem recordsIn_told (h : Ledger begun w) : LegibleIn w.files executionFolder ∧
    ∀ record ∈ recordsIn w.files executionFolder, ∃ b ∈ begun, b.Told record := by
  refine ⟨fun path hpath => ?_, fun record hrecord => ?_⟩
  · obtain ⟨b, hb, rfl⟩ := h.named path hpath
    exact (h.recordAt hb (mem_recordFiles.1 hpath).2).1
  · obtain ⟨path, hpath, hrecord⟩ := List.mem_filterMap.1 hrecord
    obtain ⟨b, hb, rfl⟩ := h.named path hpath
    exact ⟨b, hb, (h.recordAt hb (mem_recordFiles.1 hpath).2).2 record hrecord⟩

/-- What is found of executions is of those that have begun, each for itself. -/
theorem matching_told (h : Ledger begun w) (workflow : Value) :
    ((matching begun w workflow).map fun found => found.id).Nodup ∧
      ∀ found ∈ matching begun w workflow, FourDigitYear found.start ∧
        found.toBeginning.Told found.record := by
  have hof : ∀ b ∈ begun, ∀ found, foundOf w workflow b = some found →
      found.toBeginning = b ∧ b.Told found.record := by
    intro b hb found hfound
    rw [h.foundOf_eq hb, Option.map_eq_some_iff] at hfound
    obtain ⟨record, hrecord, rfl⟩ := hfound
    obtain ⟨hrecord, -⟩ := Option.filter_eq_some_iff.1 hrecord
    obtain ⟨file, hlookup, -⟩ := Option.bind_eq_some_iff.1 hrecord
    exact ⟨rfl, (h.recordAt hb (by rw [hlookup]; rfl)).2 record hrecord⟩
  constructor
  · rw [List.Nodup, List.pairwise_map, matching, List.pairwise_filterMap]
    refine (List.pairwise_map.1 h.ids).imp_of_mem fun {a b} ha hb hne found hfound found' hfound' => ?_
    rw [(hof a ha found hfound).1, (hof b hb found' hfound').1]
    exact hne
  · intro found hfound
    obtain ⟨b, hb, hfound⟩ := List.mem_filterMap.1 hfound
    obtain ⟨rfl, htold⟩ := hof b hb found hfound
    exact ⟨h.dated _ hb, htold⟩

end Ledger

/-! ## The list -/

/-- Of some executions those are listed that began last, the last in front, up to a limit; all of them
if it is zero. -/
structure Latest (all : List Found) (limit : Nat) (listed : List Found) : Prop where
  count : listed.length = if limit = 0 then all.length else min limit all.length
  /-- Each is listed once, and no other began later if it is left out. -/
  omitted : ∃ omitted, (listed ++ omitted).Perm all ∧
    ∀ a ∈ listed, ∀ b ∈ omitted, b.start ≤ a.start
  distinct : (listed.map fun found => found.id).Nodup
  falling : listed.Pairwise fun a b => b.start ≤ a.start
  told : ∀ found ∈ listed, found.record.entry "id" = .ok (.text found.id) ∧
    found.record.entry "start_time" = .ok (.text (isoText found.start))

theorem LocalStore.cutAt_nat (limit : Nat) (records : List Value) :
    cutAt limit records = records.take (if limit = 0 then records.length else limit) := by
  rw [cutAt]
  by_cases hzero : limit = 0
  · simp [hzero]
  · have hint : ¬ (limit : Int) = 0 := by omega
    have hsign : ¬ (limit : Int) < 0 := by omega
    rw [if_neg hint, if_neg hzero, upTo, if_neg hsign, Int.toNat_natCast]

/-- The first of executions that are ordered with the latest in front are the latest. -/
theorem Latest.of_ordered {all ordered : List Found} (hperm : ordered.Perm all)
    (falling : ordered.Pairwise fun a b => b.start ≤ a.start)
    (distinct : (all.map fun found => found.id).Nodup)
    (told : ∀ found ∈ all, found.toBeginning.Told found.record) (limit : Nat) :
    Latest all limit (ordered.take (if limit = 0 then ordered.length else limit)) := by
  have hsplit := List.take_append_drop (if limit = 0 then ordered.length else limit) ordered
  refine ⟨?_, ⟨ordered.drop (if limit = 0 then ordered.length else limit), ?_, ?_⟩, ?_, ?_, ?_⟩
  · rw [List.length_take, ← hperm.length_eq]
    split
    · exact Nat.min_self _
    · rfl
  · rwa [hsplit]
  · rw [← hsplit, List.pairwise_append] at falling
    exact fun a ha b hb => falling.2.2 a ha b hb
  · exact ((hperm.map _).nodup_iff.2 distinct).sublist ((List.take_sublist _ _).map _)
  · exact falling.sublist (List.take_sublist _ _)
  · exact fun found hfound => (told found (hperm.subset (List.mem_of_mem_take hfound))).entry

/-- **Executions are listed with the latest first.** Whatever has happened at a local store that was
empty, of all executions of which a record that is asked for is found those are listed that began last,
as many as the limit allows. -/
theorem listExecutions_latest {begun : List Beginning} {w : World} (history : History begun w)
    (workflow : Value) (limit : Nat) : ∃ listed w',
      (Store.listExecutions workflow (.int limit)).runIn w =
        (.ok (.list (listed.map Found.record)), w') ∧
      Latest (matching begun w workflow) limit listed := by
  have ledger := history.ledger
  obtain ⟨hdistinct, htold⟩ := ledger.matching_told workflow
  obtain ⟨hlegible, hrecords⟩ := ledger.recordsIn_told
  have hstart : ∀ record ∈ wantedIn w.files workflow, ∃ t, startOf record = .text (isoText t) := by
    intro record hrecord
    obtain ⟨b, -, hb⟩ := hrecords record (List.mem_filter.1 hrecord).1
    exact ⟨b.start, hb.startOf.2⟩
  have hobjects : ∀ record ∈ recordsIn w.files executionFolder, record.isObject = true := by
    intro record hrecord
    obtain ⟨b, -, hb⟩ := hrecords record hrecord
    exact hb.startOf.1
  have hsortable : Sortable (wantedIn w.files workflow) := by
    refine .inr fun a ha b hb => ?_
    obtain ⟨t, ht⟩ := hstart a ha
    obtain ⟨t', ht'⟩ := hstart b hb
    rw [ht, ht', Value.less?_text]
    rfl
  obtain ⟨ordered, hordered, hlatest, hanswer⟩ :=
    (executionsOf_lists w.files workflow limit).listed hlegible hobjects hsortable
  have hlatest := hlatest fun record hrecord => by
    obtain ⟨t, ht⟩ := hstart record hrecord
    rw [ht]
    rfl
  -- the records are listed in some order, and with them the executions they are of
  have hsame : List.Forall₂ (fun record (found : Found) => record = found.record)
      ((matching begun w workflow).map Found.record) (matching begun w workflow) :=
    List.forall₂_map_left_iff.2 (List.forall₂_same.2 fun _ _ => rfl)
  obtain ⟨found, hfound, hperm⟩ :=
    List.perm_comp_forall₂ (hordered.trans (ledger.wantedIn_perm workflow)) hsame
  obtain rfl : ordered = found.map Found.record := by
    rw [← List.forall₂_eq_eq_eq]
    exact List.forall₂_map_right_iff.2 hfound
  have hfalling : found.Pairwise fun a b => b.start ≤ a.start := by
    refine (List.pairwise_map.1 hlatest.falling).imp_of_mem fun {a b} ha hb hle => ?_
    obtain ⟨hdated, htext⟩ := htold a (hperm.subset ha)
    obtain ⟨hdated', htext'⟩ := htold b (hperm.subset hb)
    rw [startText, startText, htext.startOf.2, htext'.startOf.2] at hle
    exact (isoText_le_iff hdated' hdated).1 hle
  obtain ⟨journal, hlist⟩ := listExecutions_comesTo workflow (.int limit) w
  have hstore : (Store.listExecutions workflow (.int limit)).runIn w = _ :=
    (Store.on_local ledger.here).trans hlist
  rw [hanswer, cutAt_nat, List.length_map, ← List.map_take] at hstore
  exact ⟨_, _, hstore, .of_ordered hperm hfalling hdistinct (fun a ha => (htold a ha).2) limit⟩

/-- A workflow of which there is nothing but its identifier. -/
def bareFields : Fields := [(.text "id", .text "w")]

/-- The record with which an execution of it begins. -/
def bareRecord (b : Beginning) : Value :=
  (Origin.ofWorkflow b.id bareFields "manual" (isoText b.start)).running

theorem openRecord_bare {w : World} (here : w.backend = .local)
    (accepted : Accepts (executionFile w.newId.1)) : ∃ w',
      (Runner.openRecord (.dict bareFields) {}).runIn w =
        some (.ok (bareRecord ⟨w.newId.1, w.clock⟩), w') ∧
      w'.issued = w.issued + 1 ∧ w.SameFilesBut [executionFile w.newId.1] w' ∧
      Holds w' (executionFile w.newId.1) (bareRecord ⟨w.newId.1, w.clock⟩) := by
  have decoded : (Value.dict bareFields).Decoded :=
    ⟨.object [("id", .text "w")], by simp [Json.Readable, Json.ReadableEntries], rfl⟩
  obtain ⟨o, w', hid, -, hfresh, hopen, hsame, hholds⟩ :=
    openRecord_known decoded (show "manual" ∈ triggerReasons by decide)
      (show ({} : Occasion).reason = .text "manual" from rfl) here accepted
  have hrecord : bareRecord ⟨w.newId.1, w.clock⟩ = o.running := Except.ok.inj hfresh
  rw [hid] at hsame hholds
  rw [hrecord]
  exact ⟨w', hopen, (Runner.openRecord_keeps here hopen).issued, hsame, hholds⟩

/-- Two executions of it that begin within one second, the earlier one on the full second. -/
def twoBeginnings : List Beginning :=
  [⟨"00000002-0000-4000-8000-000000000000", 1⟩, ⟨"00000001-0000-4000-8000-000000000000", 0⟩]

/-- Of the two the later one is listed, though its written time goes on with a fraction where the other
one goes on with the distance from universal time. -/
theorem listExecutions_latest_twoBeginnings :
    ∃ (w : World) (listed : List Found) (w' : World), History twoBeginnings w ∧
      (Store.listExecutions (.text "w") (.int 1)).runIn w =
        (.ok (.list (listed.map Found.record)), w') ∧
      listed.map (fun found => found.start) = [1] := by
  have known : checkReason (.text "manual") = .ok () := checkReason_known (by decide)
  obtain ⟨w₁, hopen, hissued, hsame, hholds⟩ := openRecord_bare (w := {}) rfl (by decide +kernel)
  have hfirst := History.opened (.empty rfl rfl) (by decide +kernel) known hopen
  have hrests : w₁.KeepsExecutions { w₁ with clock := 1 } := .of_eq rfl rfl rfl
  have hid : ({ w₁ with clock := 1 } : World).newId.1 = "00000002-0000-4000-8000-000000000000" := by
    rw [World.newId]
    dsimp only
    rw [hissued]
    decide +kernel
  have hid₀ : ({} : World).newId.1 = "00000001-0000-4000-8000-000000000000" := by decide +kernel
  obtain ⟨w₂, hopen', -, hsame', hholds'⟩ := openRecord_bare (w := { w₁ with clock := 1 })
    hsame.backend (by rw [hid]; decide +kernel)
  have history : History twoBeginnings w₂ := by
    have hsecond := History.opened (.meanwhile hfirst hrests)
      (show FourDigitYear 1 by decide +kernel) known hopen'
    rwa [hid, hid₀] at hsecond
  rw [hid] at hsame' hholds'
  rw [hid₀] at hholds
  have hheld : ∀ b ∈ twoBeginnings, Holds w₂ (executionFile b.id) (bareRecord b) := by
    have hkept : Holds w₁ (executionFile "00000001-0000-4000-8000-000000000000") _ := hholds
    refine List.forall_mem_cons.2 ⟨hholds', List.forall_mem_singleton.2 ?_⟩
    exact Holds.of_sameFilesBut hsame' (by decide +kernel) hkept
  have hmatching : (matching twoBeginnings w₂ (.text "w")).map (fun found => found.start) = [1, 0] := by
    have hfound : ∀ b ∈ twoBeginnings, foundOf w₂ (.text "w") b = some ⟨b, bareRecord b⟩ := by
      intro b hb
      have hrecord : recordAt? w₂.files (executionFile b.id) = some (bareRecord b) :=
        (hheld b hb).recordAt? rfl
      have hwanted : isWanted (.text "w") (bareRecord b) = true := rfl
      rw [history.ledger.foundOf_eq hb, hrecord, Option.filter_some, if_pos hwanted]
      rfl
    rw [matching, List.filterMap_congr hfound]
    rfl
  obtain ⟨listed, w', hlist, hlatest⟩ := listExecutions_latest history (.text "w") 1
  refine ⟨w₂, listed, w', history, hlist, ?_⟩
  have htwo : (matching twoBeginnings w₂ (.text "w")).length = 2 := by
    simpa using congrArg List.length hmatching
  have hone : listed.length = 1 := by rw [hlatest.count, htwo]; rfl
  obtain ⟨a, rfl⟩ := List.length_eq_one_iff.1 hone
  obtain ⟨omitted, hperm, hlater⟩ := hlatest.omitted
  have hstarts := hperm.map fun found => found.start
  rw [hmatching, List.map_append] at hstarts
  -- were the earlier one listed, the later one would be left out
  have hlisted : a.start = 1 ∨ a.start = 0 := by simpa using hstarts.subset (by simp : a.start ∈ _)
  have hlast : 1 = a.start ∨ ∃ b ∈ omitted, b.start = 1 := by
    simpa using hstarts.symm.subset (by simp : (1 : Instant) ∈ [1, 0])
  rcases hlast with hlast | ⟨b, hb, hlast⟩
  · simp [← hlast]
  · have hle := hlater a (List.mem_singleton_self a) b hb
    rcases hlisted with hlisted | hlisted
    · simp [hlisted]
    · rw [hlast, hlisted] at hle
      exact absurd hle (by decide)

end WorkflowEngine
