import WorkflowEngine.Proofs.Execution.Outcome
import WorkflowEngine.Proofs.Time.Order

/-!
# The records of all executions

The execution records of a store are those of the executions that have begun there, each in a file of
its own, and each tells its identifier and the instant of its beginning for good (`Ledger`). The
beginning of an execution enters it, and its end keeps it (`Ledger.openRecord`, `Ledger.closeRecord`),
whatever the workflow is and whatever fails: a record that cannot be written is broken off, and counts
as none.
-/

namespace WorkflowEngine

open LocalStore

/-- An execution that has begun: the identifier of its record, and when it was. -/
structure Beginning where
  id : String
  start : Instant

/-! ## What a record tells -/

/-- A record tells which execution it is of. -/
def Beginning.Told (b : Beginning) (record : Value) : Prop :=
  ∃ parts : List (String × Value), record = .object parts ∧ (parts.map Prod.fst).Nodup ∧
    ("id", .text b.id) ∈ parts ∧ ("start_time", .text (isoText b.start)) ∈ parts

/-- The entries of an object keep their names in JSON, and texts stay as they are. -/
theorem Value.toJsonEntries_object {parts : List (String × Value)} {js : List (String × Json)}
    (h : toJsonEntries true (parts.map fun e => (.text e.1, e.2)) = .ok js) :
    js.map Prod.fst = parts.map Prod.fst ∧ ∀ k s, (k, .text s) ∈ parts → (k, .text s) ∈ js := by
  induction parts generalizing js with
  | nil =>
    cases h
    exact ⟨rfl, fun _ _ h => absurd h List.not_mem_nil⟩
  | cons e rest ih =>
    rw [List.map_cons, toJsonEntries] at h
    obtain ⟨name, hname, h⟩ := Attempt.bind_ok h
    obtain ⟨j, hj, h⟩ := Attempt.bind_ok h
    obtain ⟨others, hothers, h⟩ := Attempt.bind_ok h
    cases hname
    cases h
    obtain ⟨hnames, htexts⟩ := ih hothers
    refine ⟨by rw [List.map_cons, List.map_cons, hnames], fun k s hk => ?_⟩
    rcases List.mem_cons.1 hk with rfl | hk
    · cases hj
      exact List.mem_cons_self
    · exact List.mem_cons_of_mem _ (htexts k s hk)

namespace Beginning.Told

variable {b : Beginning} {record : Value}

theorem entry (h : b.Told record) : record.entry "id" = .ok (.text b.id) ∧
    record.entry "start_time" = .ok (.text (isoText b.start)) := by
  obtain ⟨parts, rfl, hnodup, hid, hstart⟩ := h
  have hentry : ∀ k v, (k, v) ∈ parts → (Value.object parts).entry k = .ok v := by
    intro k v hv
    rw [Value.object, Value.entry, Value.lookup_object, Entries.lookup_of_mem hnodup hv]
  exact ⟨hentry _ _ hid, hentry _ _ hstart⟩

/-- What is told is told by the record that is read again. -/
theorem settled {j : Json} (h : b.Told record) (hj : record.toJson true = .ok j) :
    b.Told j.settled.toValue := by
  obtain ⟨parts, rfl, hnodup, hid, hstart⟩ := h
  rw [Value.object, Value.toJson] at hj
  cases hentries : Value.toJsonEntries true (parts.map fun e => (.text e.1, e.2)) with
  | error f =>
    rw [hentries] at hj
    cases hj
  | ok js =>
    rw [hentries] at hj
    cases hj
    obtain ⟨hnames, htexts⟩ := Value.toJsonEntries_object hentries
    rw [Json.settled, Json.settledEntries_eq, Entries.ofList_of_nodup, Json.toValue,
      Json.toFields_eq]
    · refine ⟨js.map fun e => (e.1, e.2.settled.toValue), ?_, ?_, ?_, ?_⟩
      · rw [Value.object, List.map_map, List.map_map]
        rfl
      · rw [List.map_map]
        exact hnames ▸ hnodup
      · exact List.mem_map_of_mem (htexts _ _ hid)
      · exact List.mem_map_of_mem (htexts _ _ hstart)
    · rw [List.map_map]
      exact hnames ▸ hnodup

/-- What is told is told by the record after a change of other fields. -/
theorem overwritten {news : List (String × Value)} {final : Value} (h : b.Told record)
    (hid : "id" ∉ news.map Prod.fst) (hstart : "start_time" ∉ news.map Prod.fst)
    (hfinal : overwrite record (.object news) = .ok final) : b.Told final := by
  obtain ⟨parts, rfl, hnodup, htold, htold'⟩ := h
  cases hfinal
  have hkept : ∀ k v, k ∉ news.map Prod.fst → (k, v) ∈ parts → (k, v) ∈ Entries.putAll parts news := by
    intro k v hk hv
    refine Entries.mem_of_lookup ?_
    rw [Entries.lookup_putAll hk]
    exact Entries.lookup_of_mem hnodup hv
  exact ⟨Entries.putAll parts news, congrArg (Value.dict · none) (Value.putAll_object parts news),
    (Entries.putAll_spec hnodup news).1, hkept _ _ hid htold, hkept _ _ hstart htold'⟩

end Beginning.Told

/-! ## The ledger -/

/-- A file holds the record of an execution, or nothing that can be found again. -/
def Beginning.BorneBy (b : Beginning) (file : File) : Prop :=
  valueOf file = .ok .null ∨ ∃ record, valueOf file = .ok record ∧ b.Told record

/-- The execution records of a store are those of the executions that have begun there. -/
structure Ledger (begun : List Beginning) (w : World) : Prop where
  here : w.backend = .local
  ids : (begun.map Beginning.id).Nodup
  issued : ∀ b ∈ begun, ∃ w₀ : World, w₀.issued < w.issued ∧ b.id = w₀.newId.1
  dated : ∀ b ∈ begun, FourDigitYear b.start
  nodup : (recordFiles executionFolder w.files).Nodup
  named : ∀ path ∈ recordFiles executionFolder w.files, ∃ b ∈ begun, path = executionFile b.id
  borne : ∀ b ∈ begun, ∀ file, w.files.lookup (executionFile b.id) = some file →
    Accepts (executionFile b.id) ∧ b.BorneBy file

/-- From one world to the other the execution records stay as they are, and no identifier is given
out again. -/
structure World.KeepsExecutions (w w' : World) : Prop where
  backend : w'.backend = w.backend
  issued : w.issued ≤ w'.issued
  files : (w'.files.filter fun e => isRecord executionFolder e.1) =
    w.files.filter fun e => isRecord executionFolder e.1

namespace World.KeepsExecutions

variable {w w' w'' : World}

theorem of_eq (backend : w'.backend = w.backend) (issued : w'.issued = w.issued)
    (files : w'.files = w.files) : w.KeepsExecutions w' :=
  ⟨backend, Nat.le_of_eq issued.symm, by rw [files]⟩

theorem trans (h : w.KeepsExecutions w') (h' : w'.KeepsExecutions w'') : w.KeepsExecutions w'' :=
  ⟨h'.backend.trans h.backend, Nat.le_trans h.issued h'.issued, h'.files.trans h.files⟩

theorem of_data (backend : w'.backend = w.backend) (h : w.WritesData w') :
    w.KeepsExecutions w' where
  backend := backend
  issued := Nat.le_of_eq h.issued.symm
  files := by
    rcases h.files with hfiles | ⟨file, hfiles⟩
    · rw [hfiles]
    · rw [hfiles, Entries.filter_put_outside isRecord_dataFile.2]

end World.KeepsExecutions

namespace Ledger

variable {begun : List Beginning} {w w' : World} {b : Beginning}

theorem empty (here : w.backend = .local) (bare : w.files = []) : Ledger [] w where
  here := here
  ids := List.nodup_nil
  issued _ hb := absurd hb List.not_mem_nil
  dated _ hb := absurd hb List.not_mem_nil
  nodup := by rw [bare]; exact List.nodup_nil
  named path hpath := by
    rw [bare] at hpath
    exact absurd hpath List.not_mem_nil
  borne _ hb := absurd hb List.not_mem_nil

theorem safe (h : Ledger begun w) (hb : b ∈ begun) : isSafeId b.id = true := by
  obtain ⟨w₀, -, hid⟩ := h.issued b hb
  exact hid ▸ isSafeId_newId w₀

theorem isRecord (h : Ledger begun w) (hb : b ∈ begun) :
    isRecord executionFolder (executionFile b.id) = true :=
  isRecord_recordPath (h.safe hb) executionFolder

/-- The ledger is that of every world in which the records are the same. -/
theorem keeps (h : Ledger begun w) (hkeeps : w.KeepsExecutions w') : Ledger begun w' := by
  have hrecords : recordFiles executionFolder w'.files = recordFiles executionFolder w.files := by
    rw [recordFiles, recordFiles, List.filter_map, List.filter_map]
    exact congrArg (List.map Prod.fst) hkeeps.files
  refine ⟨hkeeps.backend.trans h.here, h.ids, fun b hb => ?_, h.dated, hrecords ▸ h.nodup,
    hrecords ▸ h.named, fun b hb file hfile => h.borne b hb file ?_⟩
  · obtain ⟨w₀, hlt, hid⟩ := h.issued b hb
    exact ⟨w₀, Nat.lt_of_lt_of_le hlt hkeeps.issued, hid⟩
  · rw [← hfile, ← Entries.lookup_filter (h.isRecord hb) w'.files, hkeeps.files,
      Entries.lookup_filter (h.isRecord hb)]

/-- The identifier of the next record is a new one. -/
theorem fresh (h : Ledger begun w) (hb : b ∈ begun) : b.id ≠ w.newId.1 := by
  intro hid
  obtain ⟨w₀, hlt, hid₀⟩ := h.issued b hb
  have hsame : padded 8 (w₀.issued + 1) = padded 8 (w.issued + 1) := by
    simpa [World.newId] using hid₀.symm.trans hid
  have := padded_injective hsame
  omega

/-- An execution is entered with the next identifier. -/
theorem enter (h : Ledger begun w) (dated : FourDigitYear w.clock) :
    Ledger (⟨w.newId.1, w.clock⟩ :: begun) w.newId.2 where
  here := h.here
  ids := by
    rw [List.map_cons, List.nodup_cons]
    refine ⟨fun hmem => ?_, h.ids⟩
    obtain ⟨b, hb, hid⟩ := List.mem_map.1 hmem
    exact h.fresh hb hid
  issued := by
    refine List.forall_mem_cons.2 ⟨⟨w, Nat.lt_succ_self _, rfl⟩, fun b hb => ?_⟩
    obtain ⟨w₀, hlt, hid⟩ := h.issued b hb
    exact ⟨w₀, Nat.lt_succ_of_lt hlt, hid⟩
  dated := List.forall_mem_cons.2 ⟨dated, h.dated⟩
  nodup := h.nodup
  named path hpath := by
    obtain ⟨b, hb, hname⟩ := h.named path hpath
    exact ⟨b, List.mem_cons_of_mem _ hb, hname⟩
  borne := by
    refine List.forall_mem_cons.2 ⟨fun file hfile => ?_, h.borne⟩
    -- no file is there yet, since it would be one of those that are known
    have hmem : executionFile w.newId.1 ∈ recordFiles executionFolder w.files :=
      mem_recordFiles.2 ⟨isRecord_recordPath (isSafeId_newId w) executionFolder, by
        rw [show w.files.lookup (executionFile w.newId.1) = some file from hfile]
        rfl⟩
    obtain ⟨b, hb, hname⟩ := h.named _ hmem
    exact absurd (executionFile_injective hname).symm (h.fresh hb)

/-- The file of an execution may be another one, as long as it holds its record or nothing that can be
found. -/
theorem put (h : Ledger begun w) (hb : b ∈ begun) (accepted : Accepts (executionFile b.id))
    {file : File} (borne : b.BorneBy file) (journal : List Entry) : Ledger begun
      { w with files := Entries.put (executionFile b.id) file w.files, journal := journal } where
  here := h.here
  ids := h.ids
  issued := h.issued
  dated := h.dated
  nodup := by
    dsimp only
    rw [recordFiles_put]
    split
    · rename_i hnew
      obtain ⟨-, hnone⟩ := Bool.and_eq_true_iff.1 hnew
      refine List.nodup_append.2 ⟨h.nodup, by simp, fun path hpath last hlast => ?_⟩
      rw [List.mem_singleton.1 hlast]
      rintro rfl
      have hsome := (mem_recordFiles.1 hpath).2
      rw [Option.isNone_iff_eq_none.1 hnone] at hsome
      cases hsome
    · exact h.nodup
  named path hpath := by
    dsimp only at hpath
    rw [recordFiles_put] at hpath
    split at hpath
    · rcases List.mem_append.1 hpath with hpath | hpath
      · exact h.named path hpath
      · exact ⟨b, hb, List.mem_singleton.1 hpath⟩
    · exact h.named path hpath
  borne c hc found hfound := by
    dsimp only at hfound
    rw [Entries.lookup_put] at hfound
    split at hfound
    · rename_i hsame
      have hid := executionFile_injective (eq_of_beq hsame)
      have heq : c = b := List.inj_on_of_nodup_map h.ids hc hb hid
      cases hfound
      exact heq ▸ ⟨accepted, borne⟩
    · exact h.borne c hc found hfound

/-- The record of an execution may be written anew, as long as it tells which one it is. -/
theorem written (h : Ledger begun w) (hb : b ∈ begun) {v : Value} (told : b.Told v)
    (journal : List Entry) : Ledger begun
      { w with files := (writtenTo (executionFile b.id) v w.files).2, journal := journal } := by
  have same : Ledger begun { w with files := w.files, journal := journal } :=
    h.keeps (.of_eq rfl rfl rfl)
  unfold writtenTo
  split
  · rename_i accepted
    split
    · cases htext : v.fileText with
      | ok text =>
        obtain ⟨j, hj, hread⟩ := Value.read_fileText htext
        refine h.put hb accepted (.inr ⟨_, ?_, told.settled hj⟩) journal
        simp only [valueOf, Content.read?, hread]
      | error f =>
        obtain ⟨c, hread, hcause⟩ := Value.read_torn htext
        refine h.put hb accepted (.inl ?_) journal
        simp only [valueOf, Content.read?, hread]
        exact if_neg hcause
    · exact same
  · exact same

/-- A record is created under the identifier that it tells. -/
theorem created (h : Ledger begun w) (hb : b ∈ begun) {record : Value} (told : b.Told record)
    (journal : List Entry) : Ledger begun
      { w with files := (LocalStore.created w record).2, journal := journal } := by
  unfold LocalStore.created
  rw [told.entry.1]
  dsimp only
  unfold keptIn
  rw [recordFile_text (h.safe hb)]
  exact h.written hb told journal

/-- What is found of an execution tells which one it is. -/
theorem told (h : Ledger begun w) (hb : b ∈ begun) {record : Value}
    (hfound : foundAt (executionFile b.id) (w.files.lookup (executionFile b.id)) = .ok record)
    (hnull : ¬ record.isNull = true) : b.Told record := by
  unfold foundAt at hfound
  split at hfound
  · cases hlookup : w.files.lookup (executionFile b.id) with
    | none =>
      rw [hlookup] at hfound
      cases hfound
      exact absurd rfl hnull
    | some file =>
      rw [hlookup] at hfound
      obtain ⟨-, hborne | ⟨found, hborne, htold⟩⟩ := h.borne b hb file hlookup
      · obtain rfl := Except.ok.inj (hfound.symm.trans hborne)
        exact absurd rfl hnull
      · obtain rfl := Except.ok.inj (hfound.symm.trans hborne)
        exact htold
  · cases hfound

/-- A record is changed only under the identifier that it tells. -/
theorem updated (h : Ledger begun w) (hb : b ∈ begun) {news : List (String × Value)}
    (hid : "id" ∉ news.map Prod.fst) (hstart : "start_time" ∉ news.map Prod.fst)
    (journal : List Entry) : Ledger begun
      { w with files := (LocalStore.updated w (.text b.id) (.object news)).2
               journal := journal } := by
  have same : Ledger begun { w with files := w.files, journal := journal } :=
    h.keeps (.of_eq rfl rfl rfl)
  unfold LocalStore.updated
  rw [foundIn_text (h.safe hb)]
  cases hfound : foundAt (recordPath executionFolder b.id)
    (w.files.lookup (recordPath executionFolder b.id)) with
  | error f => exact same
  | ok record =>
    dsimp only
    split
    · exact same
    · rename_i hnull
      cases hfinal : overwrite record (.object news) with
      | error f => exact same
      | ok final =>
        dsimp only
        unfold keptIn
        rw [recordFile_text (h.safe hb)]
        exact h.written hb ((h.told hb hfound hnull).overwritten hid hstart hfinal) journal

end Ledger

/-! ## Executions -/

/-- The record of an execution that begins tells which one it is. -/
theorem newRecord_told {id : String} {workflow reason record : Value} {start : Instant}
    (h : newRecord id workflow reason (isoText start) = .ok record) :
    Beginning.Told ⟨id, start⟩ record := by
  obtain ⟨workflowId, -, h⟩ := Attempt.bind_ok h
  obtain ⟨name, -, h⟩ := Attempt.bind_ok h
  cases h
  exact ⟨_, rfl, by simp, by simp, by simp⟩

/-- The changes at the end of an execution leave the identifier and the beginning alone. -/
theorem Ending.updates_foreign {ending : Ending} {start stop : Instant} {updates : Value}
    (h : ending.updates start stop = .ok updates) : ∃ news : List (String × Value),
      updates = .object news ∧ "id" ∉ news.map Prod.fst ∧ "start_time" ∉ news.map Prod.fst := by
  obtain ⟨results, -, h⟩ := Attempt.bind_ok h
  cases h
  refine ⟨_, rfl, ?_, ?_⟩
  all_goals
    unfold Ending.status
    split <;> simp

namespace Ledger

open Job

variable {runner : Runner} {begun : List Beginning} {w w' : World} {b : Beginning}

theorem ofStore (begun : List Beginning) : World.OfStore (Ledger begun) :=
  fun _ _ backend issued files h => h.keeps (.of_eq backend issued files)

/-- Work that comes to other files keeps the ledger if it is kept with these files. -/
theorem of_comesTo {α : Type} {work : Work α} {a a' : Attempt α} {files : Files}
    (h : work.ComesTo w a files) (hrun : work.runIn w = (a', w'))
    (hledger : ∀ journal, Ledger begun { w with files := files, journal := journal }) :
    Ledger begun w' := by
  obtain ⟨journal, hcomes⟩ := h
  obtain rfl : w' = _ := congrArg Prod.snd (hrun.symm.trans hcomes)
  exact hledger journal

theorem createExecution (hb : b ∈ begun) {record : Value} (told : b.Told record) :
    (Job.ofWork (Store.createExecution record)).Preserves (Ledger begun) := by
  intro w a w' h hrun
  have hlocal : (LocalStore.createExecution record).runIn w = (a, w') :=
    (Store.on_local h.here).symm.trans (Option.some.inj hrun)
  exact of_comesTo (createExecution_comesTo record w) hlocal (h.created hb told)

theorem updateExecution (hb : b ∈ begun) {news : List (String × Value)}
    (hid : "id" ∉ news.map Prod.fst) (hstart : "start_time" ∉ news.map Prod.fst) :
    (Job.ofWork (Store.updateExecution (.text b.id) (.object news))).Preserves (Ledger begun) := by
  intro w a w' h hrun
  have hlocal : (LocalStore.updateExecution (.text b.id) (.object news)).runIn w = (a, w') :=
    (Store.on_local h.here).symm.trans (Option.some.inj hrun)
  exact of_comesTo (updateExecution_comesTo _ _ w) hlocal (h.updated hb hid hstart)

/-- **An execution that begins is entered**, whether its record can be written or not. -/
theorem openRecord (h : Ledger begun w) (dated : FourDigitYear w.clock) {workflow : Value}
    {occasion : Occasion} {outcome : Attempt Value}
    (known : checkReason occasion.reason = .ok ())
    (hrun : (Runner.openRecord workflow occasion).runIn w = some (outcome, w')) :
    Ledger (⟨w.newId.1, w.clock⟩ :: begun) w' :=
  Runner.openRecord_preserves (ofStore _) known
    (fun _ hfresh => createExecution List.mem_cons_self (newRecord_told hfresh)) (h.enter dated) hrun

/-- **An execution that ends is still entered as it was.** -/
theorem closeRecord (kept : runner.update = Store.updateExecution) (hb : b ∈ begun)
    {record : Value} (key : record.entry "id" = .ok (.text b.id)) (start : Instant)
    (ending : Ending) : (runner.closeRecord record start ending).Preserves (Ledger begun) := by
  refine Runner.preserves_closeRecord (ofStore begun) kept fun id stop updates hid hupdates => ?_
  obtain ⟨news, rfl, hforeign, hforeign'⟩ := Ending.updates_foreign hupdates
  obtain rfl := Except.ok.inj (hid.symm.trans key)
  exact updateExecution hb hforeign hforeign'

end Ledger

end WorkflowEngine
