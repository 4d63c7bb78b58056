import WorkflowEngine.Proofs.Json.Values
import WorkflowEngine.Storage.Files
import WorkflowEngine.Value.Recorded

/-!
# Recorded values can be read

What a record keeps of a value is JSON whose objects have distinct names, so it can be read back as
soon as it can be written (`decoded_recorded`). A duration is never too long to be written.
-/

namespace WorkflowEngine

open Number

/-! ## Integers that are short enough -/

/-- The whole part of a real number is short enough to be written. -/
theorem truncate_short {x : Float} {n : Int} (h : truncate? x = some n) :
    n.natAbs < 10 ^ Json.digitLimit := by
  cases hdecode : decode x with
  | finite negative m e =>
    have hcanonical : Canonical m e := (toBits_of_decode hdecode).1
    have hm := hcanonical.short
    have he := hcanonical.greatest
    -- for any exponent, since the powers themselves are too large to be computed
    have hlimit (k : Nat) (hk : k < Json.digitLimit) : 2 ^ k < 10 ^ Json.digitLimit :=
      calc 2 ^ k ≤ 10 ^ k := Nat.pow_le_pow_left (by decide) k
        _ < 10 ^ Json.digitLimit := Nat.pow_lt_pow_right (by decide) hk
    rw [truncate?, hdecode] at h
    rw [← Option.some.inj h, Json.natAbs_signed]
    split
    · have hlast : 53 + e.toNat < Json.digitLimit :=
        lt_of_le_of_lt (show 53 + e.toNat ≤ 1024 by omega) (by decide)
      calc m * Nat.pow 2 e.toNat ≤ 2 ^ 53 * 2 ^ e.toNat := Nat.mul_le_mul_right _ hm.le
        _ = 2 ^ (53 + e.toNat) := (Nat.pow_add 2 53 e.toNat).symm
        _ < 10 ^ Json.digitLimit := hlimit _ hlast
    · calc m / Nat.pow 2 (-e).toNat ≤ m := Nat.div_le_self _ _
        _ < 2 ^ 53 := hm
        _ < 10 ^ Json.digitLimit := hlimit 53 (by decide)
  | _ =>
    rw [truncate?, hdecode] at h
    cases h

theorem elapsedMilliseconds_short (start stop : Int) :
    (elapsedMilliseconds start stop).natAbs < 10 ^ Json.digitLimit := by
  unfold elapsedMilliseconds
  cases h : truncate? (ofQuotient (stop - start) 1000000 * 1000) with
  | none =>
    rw [Option.getD_none, Int.natAbs_zero]
    exact Nat.pow_pos (Nat.zero_lt_succ 9)
  | some n => exact truncate_short h

theorem Value.decoded_int {n : Int} (h : n.natAbs < 10 ^ Json.digitLimit) : (Value.int n).Decoded :=
  ⟨.int n, by rwa [Json.Readable], rfl⟩

/-! ## The parts of what can be written -/

theorem Value.toJson_of_entries {showing : Bool} {entries : Fields} {js : List (String × Json)}
    (h : toJsonEntries showing entries = .ok js) :
    ∀ e ∈ entries, ∃ j, e.2.toJson showing = .ok j := by
  induction entries generalizing js with
  | nil => exact fun e he => absurd he List.not_mem_nil
  | cons e rest ih =>
    obtain ⟨k, v⟩ := e
    rw [toJsonEntries] at h
    obtain ⟨_, -, h⟩ := Attempt.bind_ok h
    obtain ⟨j, hj, h⟩ := Attempt.bind_ok h
    obtain ⟨others, hothers, -⟩ := Attempt.bind_ok h
    exact List.forall_mem_cons.2 ⟨⟨j, hj⟩, ih hothers⟩

/-- If an object can be written to a file, so can each of its values. -/
theorem Value.fileText_of_entry {entries : Fields} {mark : Option Stamp} {text : String}
    (h : (Value.dict entries mark).fileText = .ok text) :
    ∀ e ∈ entries, ∃ text, e.2.fileText = .ok text := by
  rw [fileText, toJson] at h
  cases hentries : toJsonEntries true entries with
  | error f => rw [hentries] at h; cases h
  | ok js =>
    intro e he
    obtain ⟨j, hj⟩ := toJson_of_entries hentries e he
    exact ⟨_, by rw [fileText, hj]; rfl⟩

/-! ## What a record keeps -/

namespace Value

variable {scopes : Scopes}

/-- If what can be written of some items can be read, so can all of them when they are written. -/
theorem readableAll_of_toJsons {items js : List Json}
    (hitem : ∀ j ∈ items, ∀ j', j.toValue.toJson true = .ok j' → j.Readable)
    (h : toJsons true (Json.toValues items) = .ok js) : Json.ReadableAll items := by
  induction items generalizing js with
  | nil => trivial
  | cons j rest ih =>
    rw [Json.toValues, toJsons] at h
    obtain ⟨j', hj, h⟩ := Attempt.bind_ok h
    obtain ⟨js', hjs, -⟩ := Attempt.bind_ok h
    exact ⟨hitem j List.mem_cons_self j' hj,
      ih (fun j hmem => hitem j (List.mem_cons_of_mem _ hmem)) hjs⟩

theorem readableEntries_of_toJsonEntries {entries js : List (String × Json)}
    (hitem : ∀ e ∈ entries, ∀ j', e.2.toValue.toJson true = .ok j' → e.2.Readable)
    (h : toJsonEntries true (Json.toFields entries) = .ok js) : Json.ReadableEntries entries := by
  induction entries generalizing js with
  | nil => trivial
  | cons e rest ih =>
    obtain ⟨k, j⟩ := e
    rw [Json.toFields, toJsonEntries] at h
    obtain ⟨_, -, h⟩ := Attempt.bind_ok h
    obtain ⟨j', hj, h⟩ := Attempt.bind_ok h
    obtain ⟨js', hjs, -⟩ := Attempt.bind_ok h
    exact ⟨hitem (k, j) List.mem_cons_self j' hj,
      ih (fun e hmem => hitem e (List.mem_cons_of_mem _ hmem)) hjs⟩

/-- What is recorded of an entry is recorded of its value. -/
theorem namedEntries_ok {α : Type} {record : α → Attempt Json} {entries : List (Key × α)}
    {named : List (String × Json)} (h : namedEntries record entries = .ok named) :
    ∀ e ∈ named, ∃ v, record v = .ok e.2 := by
  induction entries generalizing named with
  | nil =>
    cases h
    exact fun e he => absurd he List.not_mem_nil
  | cons entry rest ih =>
    obtain ⟨k, v⟩ := entry
    rw [namedEntries] at h
    obtain ⟨name, -, h⟩ := Attempt.bind_ok h
    obtain ⟨j, hj, h⟩ := Attempt.bind_ok h
    obtain ⟨others, hothers, h⟩ := Attempt.bind_ok h
    cases h
    exact List.forall_mem_cons.2 ⟨⟨v, hj⟩, ih hothers⟩

/-- An object of recorded entries can be read as soon as it can be written. -/
theorem readable_entries {α : Type} {record : α → Attempt Json} {entries : List (Key × α)}
    {j j' : Json}
    (hrecord : ∀ v j j', record v = .ok j → j.toValue.toJson true = .ok j' → j.Readable)
    (h : (namedEntries record entries).map (fun es => Json.object (Entries.ofList es)) = .ok j)
    (hwrite : j.toValue.toJson true = .ok j') : j.Readable := by
  cases hnamed : namedEntries record entries with
  | error f => rw [hnamed] at h; cases h
  | ok named =>
    rw [hnamed] at h
    cases h
    obtain ⟨hnodup, hmem⟩ := Entries.ofList_spec named
    rw [Json.toValue, toJson] at hwrite
    cases hentries : toJsonEntries true (Json.toFields (Entries.ofList named)) with
    | error f => rw [hentries] at hwrite; cases hwrite
    | ok js =>
      refine ⟨hnodup, readableEntries_of_toJsonEntries (fun e he j' hj' => ?_) hentries⟩
      obtain ⟨v, hv⟩ := namedEntries_ok hnamed e (hmem e he)
      exact hrecord v e.2 j' hv hj'

/-- A list of recorded items can be read as soon as it can be written. -/
theorem readable_items {α : Type} {record : α → Attempt Json} {items : List α} {j j' : Json}
    (hrecord : ∀ v j j', record v = .ok j → j.toValue.toJson true = .ok j' → j.Readable)
    (h : (items.mapM record).map Json.list = .ok j) (hwrite : j.toValue.toJson true = .ok j') :
    j.Readable := by
  cases hitems : items.mapM record with
  | error f => rw [hitems] at h; cases h
  | ok made =>
    rw [hitems] at h
    cases h
    rw [Json.toValue, toJson] at hwrite
    cases hjs : toJsons true (Json.toValues made) with
    | error f => rw [hjs] at hwrite; cases hwrite
    | ok js =>
      refine readableAll_of_toJsons (fun j hj j' hj' => ?_) hjs
      obtain ⟨v, -, hv⟩ := Attempt.mapM_ok hitems j hj
      exact hrecord v j j' hv hj'

theorem placeholder_readable (home kind : String) (shown : Option String) :
    (placeholder home kind shown).Readable := by
  cases shown <;> trivial

theorem readable_recordedLeaf (v : Value) {j : Json}
    (hwrite : (recordedLeaf v).toValue.toJson true = .ok j) : (recordedLeaf v).Readable := by
  cases v with
  | int n =>
    rw [recordedLeaf, Json.toValue, toJson, Json.longIntegerBound_eq] at hwrite
    rw [recordedLeaf, Json.Readable]
    -- an integer that is too long to be read is not written
    by_contra hlong
    rw [if_pos (Nat.not_lt.1 hlong)] at hwrite
    cases hwrite
  | complex | thing =>
    rw [recordedLeaf]
    exact placeholder_readable _ _ _
  | _ => trivial

/-- What a record keeps can be read as soon as it can be written, however deep it looks. -/
theorem readable_recordedAt (depth : Nat) : ∀ p j j', recordedAt scopes depth p = .ok j →
    j.toValue.toJson true = .ok j' → j.Readable := by
  induction depth with
  | zero =>
    intro p j j' h _
    cases h
    trivial
  | succ depth ih =>
    intro p j j' h hwrite
    rw [recordedAt] at h
    cases hlayer : p.layer scopes with
    | leaf v =>
      rw [hlayer] at h
      cases h
      exact readable_recordedLeaf v hwrite
    | row items =>
      rw [hlayer] at h
      exact readable_items ih h hwrite
    | table entries =>
      rw [hlayer] at h
      exact readable_entries ih h hwrite

/-- **What a record keeps of a value is decoded as soon as it can be written to a file.** -/
theorem decoded_recorded {v : Value} {j : Json} {text : String} (h : v.recorded scopes = .ok j)
    (hwrite : j.toValue.fileText = .ok text) : j.toValue.Decoded := by
  cases hjson : j.toValue.toJson true with
  | error f => rw [fileText, hjson] at hwrite; cases hwrite
  | ok j' => exact ⟨j, readable_recordedAt recordDepth _ j j' h hjson, rfl⟩

end Value

end WorkflowEngine
