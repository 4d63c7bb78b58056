import WorkflowEngine.Proofs.Storage.Confinement
import WorkflowEngine.Proofs.Value.Sorting
import Mathlib.Data.String.Basic

/-!
# What is read from files of any content

The files of the store may have been written by anybody. A file that holds no JSON counts as missing,
and the other records are found all the same. What a reader cannot stand is a file that cannot be read
at all (`Legible`): its bytes are no text, or an integer in it is too long. The lists also depend on
what the records are: they have to be objects, and the times at which executions started have to be of
one kind. What every reader answers, and when it fails, is `readers_answer`.
-/

namespace WorkflowEngine

/-- An attempt comes to a value if a condition holds, and fails otherwise. -/
def Attempt.Gives {α : Type} (a : Attempt α) (condition : Prop) (v : α) : Prop :=
  (condition → a = .ok v) ∧ (¬ condition → ∃ f, a = .error f)

namespace Attempt.Gives

variable {α β : Type} {a : Attempt α} {p q : Prop} {v : α} {next : α → Attempt β} {v' : β}

theorem ok (v : α) : Gives (.ok v) True v := ⟨fun _ => rfl, fun h => absurd trivial h⟩

theorem congr (h : a.Gives p v) (hp : p ↔ q) : a.Gives q v := by
  rwa [← hp]

/-- One attempt after another fails if one of the two does. -/
theorem bind (h : a.Gives p v) (hnext : p → (next v).Gives q v') :
    Gives (a >>= next) (p ∧ q) v' := by
  by_cases hp : p
  · rw [h.1 hp, Attempt.ok_bind]
    exact (hnext hp).congr (by simp [hp])
  · obtain ⟨f, hf⟩ := h.2 hp
    exact ⟨fun hpq => absurd hpq.1 hp, fun _ => ⟨f, by rw [hf]; rfl⟩⟩

theorem map (h : a.Gives p v) (f : α → β) : Gives (f <$> a) p (f v) := by
  refine ⟨fun hp => by rw [h.1 hp]; rfl, fun hp => ?_⟩
  obtain ⟨cause, hcause⟩ := h.2 hp
  exact ⟨cause, by rw [hcause]; rfl⟩

end Attempt.Gives

namespace Value

/-- Whether a value is an object. -/
def isObject : Value → Bool
  | .dict _ _ => true
  | _ => false

end Value

/-! ## Values that have an order -/

/-- The kinds of values that have an order. -/
inductive OrderedKind where
  | text
  | number
  | list
  deriving DecidableEq

/-- The kind of a key that has an order. -/
def Key.orderedKind? : Key → Option OrderedKind
  | .text _ => some .text
  | .bool _ | .int _ | .float _ => some .number
  | _ => none

/-- The kind of a value that has an order. -/
def Value.orderedKind? : Value → Option OrderedKind
  | .list _ _ => some .list
  | v => v.key?.bind Key.orderedKind?

theorem Key.isReal_iff (k : Key) : k.isReal = true ↔ k.orderedKind? = some .number := by
  cases k <;> simp [isReal, orderedKind?]

theorem Key.less?_kind {a b : Key} {before : Bool} (h : a.less? b = some before) :
    ∃ kind, a.orderedKind? = some kind ∧ b.orderedKind? = some kind := by
  unfold less? at h
  split at h
  · exact ⟨.text, rfl, rfl⟩
  · split at h
    · rename_i hreal
      obtain ⟨ha, hb⟩ := Bool.and_eq_true_iff.1 hreal
      exact ⟨.number, a.isReal_iff.1 ha, b.isReal_iff.1 hb⟩
    · cases h

/-- **Values of different kinds have no order.** -/
theorem Value.less?_kind {v w : Value} {before : Bool} (h : v.less? w = some before) :
    ∃ kind, v.orderedKind? = some kind ∧ w.orderedKind? = some kind := by
  unfold less? at h
  split at h
  · exact ⟨.list, rfl, rfl⟩
  · split at h
    · rename_i a b ha hb
      obtain ⟨kind, hkind⟩ := Key.less?_kind h
      have heq : ∀ {u : Value} {k : Key}, u.key? = some k → u.orderedKind? = k.orderedKind? := by
        intro u k hk
        cases u with
        | list => cases hk
        | _ => simp [orderedKind?, hk]
      exact ⟨kind, by rw [heq ha, heq hb]; exact hkind⟩
    · cases h

theorem Value.eq_text_of_kind {v : Value} (h : v.orderedKind? = some .text) :
    ∃ s mark, v = .text s mark := by
  cases v with
  | text s mark => exact ⟨s, mark, rfl⟩
  | tuple items mark =>
    exfalso
    obtain ⟨k, hk, hkind⟩ := Option.bind_eq_some_iff.1 h
    cases items with
    | nil =>
      obtain rfl := Option.some.inj hk
      cases hkind
    | cons v vs =>
      obtain ⟨head, -, hk⟩ := Option.bind_eq_some_iff.1 hk
      obtain ⟨tail, -, rfl⟩ := Option.map_eq_some_iff.1 hk
      cases hkind
  | set items frozen mark => cases frozen <;> cases h
  | _ => cases h

theorem Value.less?_text (s t : String) (m m' : Option Stamp) :
    (Value.text s m).less? (.text t m') = some (decide (s < t)) := rfl

namespace LocalStore

/-! ## Files that can be read -/

/-- A file whose content is no text, or whose JSON has an integer that is too long, cannot be read. -/
def Unreadable (file : File) : Prop :=
  file.content.read? = none ∨ ∃ text c, file.content.read? = some text ∧
    Json.read text = .error c ∧ c.cause = .longInteger

/-- The record that a file holds: JSON, but not null. -/
def recordOf? (file : File) : Option Value :=
  match file.content.read? with
  | none => none
  | some text =>
    match Json.read text with
    | .ok j => if j.toValue.isNull then none else some j.toValue
    | .error _ => none

/-- A path at which a record may be looked for: its name is not too long, and there is no file that
cannot be read. -/
def Legible (files : Files) (path : String) : Prop :=
  Accepts path ∧ ∀ file, files.lookup path = some file → ¬ Unreadable file

/-- The record under a path, if there is one. -/
def recordAt? (files : Files) (path : String) : Option Value :=
  (files.lookup path).bind recordOf?

variable {files : Files} {w : World}

theorem eq_null_of_isNull {v : Value} (h : v.isNull = true) : v = .null := by
  cases v with
  | null => rfl
  | _ => cases h

theorem valueOf_gives (file : File) :
    (valueOf file).Gives (¬ Unreadable file) ((recordOf? file).getD .null) := by
  unfold valueOf recordOf? Unreadable
  cases file.content.read? with
  | none => exact ⟨fun h => absurd (.inl rfl) h, fun _ => ⟨_, rfl⟩⟩
  | some text =>
    dsimp only
    cases hread : Json.read text with
    | ok j =>
      have hvalue : (if j.toValue.isNull then none else some j.toValue).getD Value.null =
          j.toValue := by
        split
        · next hnull => exact (eq_null_of_isNull hnull).symm
        · rfl
      dsimp only
      rw [hvalue]
      exact (Attempt.Gives.ok _).congr (by simp [hread])
    | error c =>
      dsimp only
      split
      · next hcause =>
        exact ⟨fun h => absurd (.inr ⟨text, c, rfl, hread, hcause⟩) h, fun _ => ⟨_, rfl⟩⟩
      · next hcause =>
        refine (Attempt.Gives.ok _).congr (iff_of_true trivial ?_)
        rintro (h | ⟨_, c', ⟨⟩, hread', hcause'⟩)
        · cases h
        · obtain rfl := Except.error.inj (hread.symm.trans hread')
          exact hcause hcause'

/-- **A path is read if it is legible**, and what is found there is its record. -/
theorem foundAt_gives (files : Files) (path : String) :
    (foundAt path (files.lookup path)).Gives (Legible files path)
      ((recordAt? files path).getD .null) := by
  unfold foundAt Legible recordAt?
  by_cases haccepted : Accepts path
  · rw [if_pos haccepted]
    cases files.lookup path with
    | none => exact (Attempt.Gives.ok _).congr (by simp [haccepted])
    | some file => exact (valueOf_gives file).congr (by simp [haccepted])
  · rw [if_neg haccepted]
    exact ⟨fun h => absurd h.1 haccepted, fun _ => ⟨_, rfl⟩⟩

theorem recordAt?_ne_null {path : String} {record : Value} (h : recordAt? files path = some record) :
    record.isNull = false := by
  obtain ⟨file, -, hfile⟩ := Option.bind_eq_some_iff.1 h
  unfold recordOf? at hfile
  split at hfile
  · cases hfile
  · split at hfile
    · split at hfile
      · cases hfile
      · next hnull =>
        obtain rfl := Option.some.inj hfile
        exact Bool.not_eq_true _ ▸ hnull
    · cases hfile

/-! ## Single records and lists of workflows -/

theorem foundIn_gives (w : World) (folder id : String) :
    (foundIn w folder (.text id)).Gives
      (isSafeId id = true → Legible w.files (recordPath folder id))
      (if isSafeId id then (recordAt? w.files (recordPath folder id)).getD .null else .null) := by
  cases hsafe : isSafeId id with
  | false =>
    rw [foundIn_rejected hsafe]
    exact (Attempt.Gives.ok _).congr (by simp)
  | true =>
    rw [foundIn_text hsafe]
    exact (foundAt_gives w.files _).congr (by simp)

/-- The workflows are found if every path is legible, those that are there. -/
theorem workflowsAt_gives (files : Files) (paths : List String) :
    (workflowsAt files paths).Gives (∀ path ∈ paths, Legible files path)
      (paths.filterMap (recordAt? files)) := by
  induction paths with
  | nil => exact (Attempt.Gives.ok []).congr (by simp)
  | cons path rest ih =>
    rw [workflowsAt_cons]
    have hvalue : (if ((recordAt? files path).getD .null).isNull
          then rest.filterMap (recordAt? files)
          else (recordAt? files path).getD .null :: rest.filterMap (recordAt? files)) =
        (path :: rest).filterMap (recordAt? files) := by
      cases hrecord : recordAt? files path with
      | none => simp [hrecord, Value.isNull]
      | some record => simp [hrecord, recordAt?_ne_null hrecord]
    rw [← hvalue]
    exact ((foundAt_gives files path).bind fun _ => ih.map _).congr List.forall_mem_cons.symm

/-! ## Lists of execution records -/

/-- Whether a record is one of those that are asked for: of a workflow, or any. -/
def isWanted (workflow record : Value) : Bool :=
  !workflow.holds || (record.get "workflow_id").toOption.any fun owner => owner.equal workflow

theorem get_gives (record : Value) (name : String) : (record.get name).Gives
    (record.isObject = true) ((record.get name).toOption.getD .null) := by
  cases record with
  | dict entries mark => exact ⟨fun _ => rfl, fun h => absurd rfl h⟩
  | _ => exact ⟨fun h => (Bool.false_ne_true h).elim, fun _ => ⟨_, rfl⟩⟩

theorem isWanted_object {workflow record : Value} (h : record.isObject = true) :
    isWanted workflow record = (!workflow.holds ||
      ((record.get "workflow_id").toOption.getD .null).equal workflow) := by
  rw [isWanted, (get_gives record "workflow_id").1 h]
  rfl

/-- The execution records are found if every path is legible and, where they are asked for their
workflow, every record is an object. -/
theorem executionsAt_gives (files : Files) (workflow : Value) (paths : List String) :
    (executionsAt files workflow paths).Gives
      ((∀ path ∈ paths, Legible files path) ∧ (workflow.holds = true →
        ∀ record ∈ paths.filterMap (recordAt? files), record.isObject = true))
      ((paths.filterMap (recordAt? files)).filter (isWanted workflow)) := by
  induction paths with
  | nil => exact (Attempt.Gives.ok []).congr (by simp)
  | cons path rest ih =>
    rw [executionsAt]
    refine Attempt.Gives.congr ((foundAt_gives files path).bind fun _ => ?_)
      (by rw [List.forall_mem_cons, and_assoc])
    cases hrecord : recordAt? files path with
    | none =>
      rw [List.filterMap_cons_none hrecord]
      exact ih
    | some record =>
      rw [List.filterMap_cons_some hrecord, Option.getD_some, recordAt?_ne_null hrecord,
        if_neg Bool.false_ne_true]
      cases hholds : workflow.holds with
      | false =>
        have hwanted : isWanted workflow record = true := by simp [isWanted, hholds]
        rw [if_neg Bool.false_ne_true, List.filter_cons_of_pos hwanted]
        exact (ih.map _).congr (by simp [hholds])
      | true =>
        rw [if_pos rfl]
        refine Attempt.Gives.congr ?_ (?_ : (record.isObject = true ∧
          ((∀ path ∈ rest, Legible files path) ∧ (workflow.holds = true →
            ∀ record ∈ rest.filterMap (recordAt? files), record.isObject = true))) ↔ _)
        · by_cases hobject : record.isObject = true
          · rw [(get_gives record "workflow_id").1 hobject, Attempt.ok_bind, List.filter_cons,
              isWanted_object hobject, hholds, Bool.not_true, Bool.false_or]
            split
            · exact (ih.map _).congr (by simp [hobject, hholds])
            · exact ih.congr (by simp [hobject, hholds])
          · obtain ⟨f, hf⟩ := (get_gives record "workflow_id").2 hobject
            exact ⟨fun h => absurd h.1 hobject, fun _ => ⟨f, by rw [hf]; rfl⟩⟩
        · simp only [hholds, List.forall_mem_cons, forall_const]
          tauto

/-- The time at which the execution of a record started, the empty text if it is not known. -/
def startOf : Value → Value
  | .dict entries _ => (entries.lookup (.text "start_time")).getD (.text "")
  | _ => .text ""

/-- Records can be put in the order of the times at which their executions started, if there are at
least two of them. -/
def Sortable (records : List Value) : Prop :=
  records.length ≤ 1 ∨
    ∀ a ∈ records, ∀ b ∈ records, ((startOf a).less? (startOf b)).isSome = true

/-- The time at which the execution of a record started, if it is a text. -/
def startText (record : Value) : String :=
  match startOf record with
  | .text s _ => s
  | _ => ""

/-- The second row holds the records of the first, those of the latest executions in front and those
of one time as they came. -/
structure LatestFirst (records ordered : List Value) : Prop where
  perm : ordered.Perm records
  falling : ordered.Pairwise fun a b => startText b ≤ startText a
  stable : ∀ s, ordered.filter (startText · = s) = records.filter (startText · = s)

/-- Records with the times at which their executions started. -/
def keyed (records : List Value) : List (Value × Value) := records.map fun r => (startOf r, r)

theorem keyed_snd (records : List Value) : (keyed records).map Prod.snd = records := by
  rw [keyed, List.map_map]
  exact List.map_id records

theorem mapM_startTime_gives (records : List Value) :
    (records.mapM fun r => do pure (← startTime r, r)).Gives
      (∀ r ∈ records, r.isObject = true) (keyed records) := by
  induction records with
  | nil => exact (Attempt.Gives.ok []).congr (by simp)
  | cons record rest ih =>
    rw [List.mapM_cons]
    have hrecord : (do pure (← startTime record, record) : Attempt (Value × Value)).Gives
        (record.isObject = true) (startOf record, record) := by
      cases record with
      | dict entries mark => exact ⟨fun _ => rfl, fun h => absurd rfl h⟩
      | _ => exact ⟨fun h => (Bool.false_ne_true h).elim, fun _ => ⟨_, rfl⟩⟩
    exact Attempt.Gives.congr (hrecord.bind fun _ => ih.bind fun _ => .ok _) (by simp)

section Sorted

variable {records : List Value} {sorted : List (Value × Value)}

theorem earlier_isSome {a b : Value} : (∃ before, earlier a b = .ok before) ↔
    (a.less? b).isSome = true := by
  rw [earlier]
  cases a.less? b with
  | none => simp [Attempt.fault]
  | some before => simp

theorem latestFirst_perm (h : latestFirst (keyed records) = .ok sorted) :
    (sorted.map Prod.snd).Perm records := by
  have hperm := Sorting.sort_perm (Sorting.sortIn_falling.1 h)
  have hperm := (List.reverse_perm sorted).symm.trans (hperm.trans (List.reverse_perm _))
  simpa only [keyed_snd] using hperm.map Prod.snd

/-- Records can be listed if they are sortable. -/
theorem latestFirst_succeeds (h : Sortable records) :
    ∃ sorted, latestFirst (keyed records) = .ok sorted := by
  suffices hsort : ∃ rising, Sorting.sort (fun a b : Value × Value => earlier a.1 b.1)
      (keyed records).reverse = .ok rising by
    obtain ⟨rising, hrising⟩ := hsort
    exact ⟨rising.reverse, Sorting.sortIn_falling.2 (by rwa [List.reverse_reverse])⟩
  rcases h with hlength | hall
  · match records, hlength with
    | [], _ => exact ⟨[], rfl⟩
    | [record], _ => exact ⟨[(startOf record, record)], rfl⟩
  · refine Sorting.sort_succeeds fun a ha b hb => earlier_isSome.2 ?_
    simp only [keyed, List.mem_reverse, List.mem_map] at ha hb
    obtain ⟨a, ha, rfl⟩ := ha
    obtain ⟨b, hb, rfl⟩ := hb
    exact hall a ha b hb

/-- **Of at least two records that are listed all times are of one kind.** -/
theorem latestFirst_kind (h : latestFirst (keyed records) = .ok sorted)
    (htwo : 2 ≤ records.length) :
    ∃ kind, ∀ r ∈ records, (startOf r).orderedKind? = some kind := by
  have hsort := Sorting.sortIn_falling.1 h
  have hlength : 2 ≤ (keyed records).reverse.length := by simpa [keyed] using htwo
  have hmem : ∀ r ∈ records, (startOf r, r) ∈ (keyed records).reverse := by
    intro r hr
    simpa [keyed] using hr
  match (keyed records).reverse, hlength, hsort, hmem with
  | x :: y :: rest, _, hsort, hmem =>
    have apart : ∀ (a b : Value × Value) before, earlier a.1 b.1 = .ok before →
        a.1.orderedKind? = b.1.orderedKind? := by
      intro a b before hearlier
      obtain ⟨before, hless⟩ := Option.isSome_iff_exists.1 (earlier_isSome.1 ⟨before, hearlier⟩)
      obtain ⟨kind, ha, hb⟩ := Value.less?_kind hless
      rw [ha, hb]
    obtain ⟨hmet, hkinds⟩ := Sorting.sort_kind apart hsort
    obtain ⟨before, hless⟩ := Option.isSome_iff_exists.1 (earlier_isSome.1 hmet)
    obtain ⟨kind, -, hkind⟩ := Value.less?_kind hless
    exact ⟨kind, fun r hr => (hkinds _ (hmem r hr)).trans hkind⟩

/-- **Records whose times are texts are listed with the latest first.** -/
theorem latestFirst_ordered
    (htext : ∀ r ∈ records, (startOf r).orderedKind? = some .text)
    (h : latestFirst (keyed records) = .ok sorted) :
    LatestFirst records (sorted.map Prod.snd) := by
  have hless : ∀ a ∈ keyed records, ∀ b ∈ keyed records,
      earlier a.1 b.1 = .ok (decide (startText a.2 < startText b.2)) := by
    intro a ha b hb
    simp only [keyed, List.mem_map] at ha hb
    obtain ⟨a, ha, rfl⟩ := ha
    obtain ⟨b, hb, rfl⟩ := hb
    obtain ⟨s, m, hs⟩ := Value.eq_text_of_kind (htext a ha)
    obtain ⟨t, m', ht⟩ := Value.eq_text_of_kind (htext b hb)
    simp only [startText, hs, ht, earlier, Value.less?_text]
  obtain ⟨ordered, hordered, harranged⟩ := Sorting.sortIn_arranged true hless
  obtain rfl := Except.ok.inj (h.symm.trans hordered)
  have harranged := harranged.map
  rw [keyed_snd] at harranged
  exact ⟨harranged.perm, harranged.ordered, harranged.stable⟩

end Sorted

/-- The first records of a row, as many as are asked for: all for zero, and for a negative number all
but as many at the end. -/
def cutAt (limit : Int) (records : List Value) : List Value :=
  if limit = 0 then records else upTo records limit

theorem limited_int (records : List Value) (limit : Int) :
    limited records (.int limit) = .ok (cutAt limit records) := by
  rw [limited, cutAt]
  by_cases hzero : limit = 0
  · simp [hzero, Value.isTrue]
  · simp [hzero, Value.isTrue]

/-- Every file of a folder can be read. -/
def LegibleIn (files : Files) (folder : String) : Prop :=
  ∀ path ∈ recordFiles folder files, Legible files path

/-- The records in the files of a folder. -/
def recordsIn (files : Files) (folder : String) : List Value :=
  (recordFiles folder files).filterMap (recordAt? files)

/-- The execution records of a workflow, or of all. -/
def wantedIn (files : Files) (workflow : Value) : List Value :=
  (recordsIn files executionFolder).filter (isWanted workflow)

/-- What a list of execution records comes to. It fails if a file cannot be read or a record is no
object, be it one that is not asked for, and if the times of the records that are asked for are not of
one kind. If those times have an order, all records that are asked for are listed in it, up to the
limit. -/
structure Lists (files : Files) (workflow : Value) (limit : Int) (answer : Attempt Value) :
    Prop where
  refused : ¬ (LegibleIn files executionFolder ∧
    ∀ record ∈ recordsIn files executionFolder, record.isObject = true) → ∃ f, answer = .error f
  unordered : 2 ≤ (wantedIn files workflow).length →
    (¬ ∃ kind, ∀ record ∈ wantedIn files workflow, (startOf record).orderedKind? = some kind) →
    ∃ f, answer = .error f
  listed : LegibleIn files executionFolder →
    (∀ record ∈ recordsIn files executionFolder, record.isObject = true) →
    Sortable (wantedIn files workflow) → ∃ ordered, ordered.Perm (wantedIn files workflow) ∧
      ((∀ record ∈ wantedIn files workflow, (startOf record).orderedKind? = some .text) →
        LatestFirst (wantedIn files workflow) ordered) ∧
      answer = .ok (.list (cutAt limit ordered))

/-- Once the records are found, a list of them is up to the order of their times. -/
theorem executionsOf_eq {workflow : Value} (hlegible : LegibleIn files executionFolder)
    (hobjects : ∀ record ∈ recordsIn files executionFolder, record.isObject = true)
    (limit : Int) : executionsOf files workflow (.int limit) =
      (latestFirst (keyed (wantedIn files workflow)) >>= fun sorted =>
        .ok (.list (cutAt limit (sorted.map Prod.snd)))) := by
  have hwanted : ∀ record ∈ wantedIn files workflow, record.isObject = true :=
    fun record hrecord => hobjects record (List.mem_filter.1 hrecord).1
  rw [executionsOf, (executionsAt_gives files workflow _).1 ⟨hlegible, fun _ => hobjects⟩,
    Attempt.ok_bind,
    (mapM_startTime_gives ((List.filterMap _ _).filter (isWanted workflow))).1 hwanted,
    Attempt.ok_bind]
  cases hsorted : latestFirst (keyed (wantedIn files workflow)) with
  | error f =>
    rw [show latestFirst (keyed (((recordFiles executionFolder files).filterMap
      (recordAt? files)).filter (isWanted workflow))) = _ from hsorted]
    rfl
  | ok sorted =>
    rw [show latestFirst (keyed (((recordFiles executionFolder files).filterMap
      (recordAt? files)).filter (isWanted workflow))) = _ from hsorted, Attempt.ok_bind,
      Attempt.ok_bind, limited_int, Attempt.ok_bind]
    rfl

theorem executionsOf_refused {workflow : Value}
    (h : ¬ (LegibleIn files executionFolder ∧
      ∀ record ∈ recordsIn files executionFolder, record.isObject = true)) (limit : Value) :
    ∃ f, executionsOf files workflow limit = .error f := by
  have hfound := executionsAt_gives files workflow (recordFiles executionFolder files)
  by_cases hp : LegibleIn files executionFolder ∧ (workflow.holds = true →
      ∀ record ∈ recordsIn files executionFolder, record.isObject = true)
  · -- nothing is asked for in particular, and the times are asked of every record
    have hall : workflow.holds = false := by
      by_contra hholds
      exact h ⟨hp.1, hp.2 (by simpa using hholds)⟩
    have hwanted : wantedIn files workflow = recordsIn files executionFolder :=
      List.filter_eq_self.2 fun record _ => by simp [isWanted, hall]
    obtain ⟨f, hf⟩ := (mapM_startTime_gives (wantedIn files workflow)).2
      fun hobjects => h ⟨hp.1, hwanted ▸ hobjects⟩
    refine ⟨f, ?_⟩
    rw [executionsOf, hfound.1 hp, Attempt.ok_bind]
    exact congrArg (· >>= _) hf
  · obtain ⟨f, hf⟩ := hfound.2 hp
    exact ⟨f, by rw [executionsOf, hf]; rfl⟩

theorem executionsOf_lists (files : Files) (workflow : Value) (limit : Int) :
    Lists files workflow limit (executionsOf files workflow (.int limit)) := by
  refine ⟨fun h => executionsOf_refused h _, fun htwo hkinds => ?_,
    fun hlegible hobjects hsortable => ?_⟩
  · by_cases h : LegibleIn files executionFolder ∧
        ∀ record ∈ recordsIn files executionFolder, record.isObject = true
    · rw [executionsOf_eq h.1 h.2]
      cases hsorted : latestFirst (keyed (wantedIn files workflow)) with
      | error f => exact ⟨f, rfl⟩
      | ok sorted => exact absurd (latestFirst_kind hsorted htwo) hkinds
    · exact executionsOf_refused h _
  · obtain ⟨sorted, hsorted⟩ := latestFirst_succeeds hsortable
    rw [executionsOf_eq hlegible hobjects, hsorted, Attempt.ok_bind]
    exact ⟨_, latestFirst_perm hsorted, fun htext => latestFirst_ordered htext hsorted, rfl⟩

/-! ## Every reader -/

/-- The data value under a key, null if there is none. -/
def dataAt (files : Files) (key : String) : Value :=
  match recordAt? files dataFile with
  | some (.dict entries _) => (entries.lookup (.text key)).getD .null
  | _ => .null

/-- The data values are found unless something that counts as true but is no object is kept in their
place. -/
theorem dataOf_gives (files : Files) (key : String) :
    (dataIn files >>= entryOf (.text key)).Gives
      (Legible files dataFile ∧ ∀ data, recordAt? files dataFile = some data →
        data.holds = true → data.isObject = true)
      (dataAt files key) := by
  unfold dataIn dataAt
  refine Attempt.Gives.bind ((foundAt_gives files dataFile).map _) fun _ => ?_
  cases recordAt? files dataFile with
  | none => exact (Attempt.Gives.ok _).congr (by simp)
  | some data =>
    rw [Option.getD_some, Value.orElse]
    by_cases hholds : data.holds = true
    · rw [if_pos hholds]
      cases data with
      | dict entries mark => exact (Attempt.Gives.ok _).congr (by simp [Value.isObject])
      | _ =>
        refine ⟨fun h => ?_, fun _ => ⟨_, rfl⟩⟩
        exact absurd (h _ rfl hholds) Bool.false_ne_true
    · rw [if_neg hholds]
      refine Attempt.Gives.congr ?_ (iff_of_true trivial ?_)
      · cases data with
        | dict entries mark =>
          cases entries with
          | nil => exact .ok _
          | cons e rest => exact absurd rfl hholds
        | _ => exact .ok _
      · rintro _ ⟨⟩ htrue
        exact absurd htrue hholds

/-- **What is read from files of any content.** -/
theorem readers_answer (w : World) :
    let answer (op : Operation) : Attempt Value := (op.perform.runIn w).1
    (∀ id, (answer (.getWorkflow id)).Gives
      (isSafeId id = true → Legible w.files (recordPath workflowFolder id))
      (if isSafeId id then (recordAt? w.files (recordPath workflowFolder id)).getD .null
        else .null)) ∧
    (answer .listWorkflows).Gives (LegibleIn w.files workflowFolder)
      (.list ((workflowFiles w.files).filterMap (recordAt? w.files))) ∧
    (∀ id, (answer (.getExecution id)).Gives
      (isSafeId id = true → Legible w.files (recordPath executionFolder id))
      (if isSafeId id then (recordAt? w.files (recordPath executionFolder id)).getD .null
        else .null)) ∧
    (∀ workflow limit,
      Lists w.files workflow limit (answer (.listExecutions workflow (.int limit)))) ∧
    ∀ key, (answer (.getData key)).Gives
      (Legible w.files dataFile ∧ ∀ data, recordAt? w.files dataFile = some data →
        data.holds = true → data.isObject = true)
      (dataAt w.files key) := by
  have hanswer (op : Operation) : (op.perform.runIn w).1 = (op.effect w).1 := by
    obtain ⟨journal, hread⟩ := op.perform_comesTo w
    rw [hread]
  simp only [hanswer]
  refine ⟨fun id => foundIn_gives w _ id, ?_, fun id => foundIn_gives w _ id,
    fun workflow limit => executionsOf_lists w.files workflow limit,
    fun key => dataOf_gives w.files key⟩
  refine ((workflowsAt_gives w.files (workflowFiles w.files)).map Value.list).congr ?_
  simp only [workflowFiles, List.mem_mergeSort, LegibleIn]

/-- One file that is no text keeps the others from being listed, but not from being found. -/
example :
    let w : World := { files := [(recordPath executionFolder "a", ⟨.raw [0xff], ownerOnly⟩),
      (recordPath executionFolder "b", ⟨.text "[true]", ownerOnly⟩)] }
    ((Operation.listExecutions .null (.int 50)).perform.runIn w).1.isOk = false ∧
      ((Operation.getExecution "b").perform.runIn w).1.toOption.any (fun v => !v.isNull) = true := by
  decide +kernel

end LocalStore

end WorkflowEngine
