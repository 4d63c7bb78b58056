import WorkflowEngine.Proofs.Json.Plain
import WorkflowEngine.Value.Access
import WorkflowEngine.Value.Json

/-!
# Values that JSON can say

A value is decoded if it stands for JSON that can be read. Such a value is written as that JSON
again (`toJson_toValue`), its parts are decoded as well, and it has a plain form (`Decoded.plain_ok`),
which is not empty if it counts as true (`Decoded.plain_ne`).
-/

namespace WorkflowEngine

open Number Text

/-! ## From JSON to values and back -/

namespace Json

theorem longIntegerBound_eq : longIntegerBound = 10 ^ digitLimit := by
  have hbase : longIntegerBound = Nat.pow 10 digitLimit := rfl
  rwa [Nat.pow_eq] at hbase

mutual

/-- **The value that JSON stands for is written as the same JSON**, with or without foreign
values. -/
theorem toJson_toValue (showing : Bool) :
    (j : Json) → j.Readable → j.toValue.toJson showing = .ok j
  | .null => fun _ => rfl
  | .bool _ => fun _ => rfl
  | .int n => fun h => by
    rw [toValue, Value.toJson, longIntegerBound_eq]
    exact if_neg (Nat.not_le.2 h)
  | .float _ => fun _ => rfl
  | .text _ => fun _ => rfl
  | .list items => fun h => by
    rw [toValue, Value.toJson, toJsons_toValues showing items h]
    rfl
  | .object entries => fun h => by
    rw [toValue, Value.toJson, toJsonEntries_toFields showing entries h.2]
    rfl

theorem toJsons_toValues (showing : Bool) :
    (items : List Json) → ReadableAll items → Value.toJsons showing (toValues items) = .ok items
  | [] => fun _ => rfl
  | j :: js => fun h => by
    rw [toValues, Value.toJsons, toJson_toValue showing j h.1, toJsons_toValues showing js h.2]
    rfl

theorem toJsonEntries_toFields (showing : Bool) : (entries : List (String × Json)) →
    ReadableEntries entries → Value.toJsonEntries showing (toFields entries) = .ok entries
  | [] => fun _ => rfl
  | (k, j) :: rest => fun h => by
    rw [toFields, Value.toJsonEntries, toJson_toValue showing j h.1,
      toJsonEntries_toFields showing rest h.2]
    rfl

end

theorem mem_toValues {items : List Json} {v : Value} :
    v ∈ toValues items ↔ ∃ j ∈ items, j.toValue = v := by
  induction items with
  | nil => simp [toValues]
  | cons j js ih => simp [toValues, ih, eq_comm]

theorem toFields_eq (entries : List (String × Json)) :
    toFields entries = entries.map fun e => (.text e.1, e.2.toValue) := by
  induction entries with
  | nil => rfl
  | cons e rest ih => rw [toFields, ih, List.map_cons]

theorem lookup_toFields (entries : List (String × Json)) (k : String) :
    (toFields entries).lookup (.text k) = (entries.lookup k).map toValue := by
  induction entries with
  | nil => rfl
  | cons e rest ih =>
    obtain ⟨k', j⟩ := e
    have hkey : (Key.text k == Key.text k') = (k == k') := by
      rw [Bool.eq_iff_iff]
      simp
    rw [toFields, List.lookup_cons, List.lookup_cons, hkey, ih]
    cases k == k' <;> rfl

end Json

/-! ## Decoded values -/

/-- Whether a value stands for JSON that can be read. -/
def Value.Decoded (v : Value) : Prop := ∃ j : Json, j.Readable ∧ j.toValue = v

namespace Value

variable {v : Value} {entries : Fields} {mark : Option Stamp}

theorem decoded_null : Decoded .null := ⟨.null, trivial, rfl⟩

theorem decoded_text (s : String) : Decoded (.text s) := ⟨.text s, trivial, rfl⟩

theorem Decoded.items {items : List Value} (h : (Value.list items mark).Decoded) :
    ∀ v ∈ items, v.Decoded := by
  obtain ⟨j, hj, hvalue⟩ := h
  cases j <;> cases hvalue
  rename_i js
  intro v hv
  obtain ⟨j, hmem, rfl⟩ := Json.mem_toValues.1 hv
  exact ⟨j, (Json.readableAll_iff js).1 hj j hmem, rfl⟩

theorem Decoded.mark_eq (h : (Value.dict entries mark).Decoded) : mark = none := by
  obtain ⟨j, -, hvalue⟩ := h
  cases j <;> cases hvalue
  rfl

theorem Decoded.lookup {k : String} (h : (Value.dict entries mark).Decoded)
    (hv : entries.lookup (.text k) = some v) : v.Decoded := by
  obtain ⟨j, hj, hvalue⟩ := h
  cases j <;> cases hvalue
  rename_i es
  rw [Json.lookup_toFields, Option.map_eq_some_iff] at hv
  obtain ⟨j, hlookup, rfl⟩ := hv
  exact ⟨j, (Json.readableEntries_iff es).1 hj.2 (k, j) (Entries.mem_of_lookup hlookup), rfl⟩

theorem Decoded.ofField (h : (Value.dict entries mark).Decoded) (k : String) :
    (Value.ofField entries k).Decoded := by
  unfold Value.ofField
  cases hlookup : entries.lookup (.text k) with
  | none => exact decoded_null
  | some v => exact h.lookup hlookup

theorem Decoded.orElse {w : Value} (hv : v.Decoded) (hw : w.Decoded) : (v.orElse w).Decoded := by
  unfold Value.orElse
  split
  · exact hv
  · exact hw

theorem holds_orElse {w : Value} (hw : w.holds = true) : (v.orElse w).holds = true := by
  unfold Value.orElse
  split
  · assumption
  · exact hw

theorem holds_text {s : String} (h : s ≠ "") : (Value.text s).holds = true := by
  simpa [Value.holds, Value.isTrue] using h

theorem decoded_list {items : List Value} (h : ∀ v ∈ items, v.Decoded) :
    (Value.list items).Decoded := by
  suffices hall : ∃ js, Json.ReadableAll js ∧ Json.toValues js = items by
    obtain ⟨js, hjs, hvalues⟩ := hall
    exact ⟨.list js, hjs, congrArg (Value.list · none) hvalues⟩
  induction items with
  | nil => exact ⟨[], trivial, rfl⟩
  | cons v vs ih =>
    obtain ⟨⟨j, hj, rfl⟩, hvs⟩ := List.forall_mem_cons.1 h
    obtain ⟨js, hjs, rfl⟩ := ih hvs
    exact ⟨j :: js, ⟨hj, hjs⟩, rfl⟩

theorem decoded_object {parts : List (String × Value)} (hnames : (parts.map Prod.fst).Nodup)
    (h : ∀ e ∈ parts, e.2.Decoded) : (Value.object parts).Decoded := by
  suffices hall : ∃ es, es.map Prod.fst = parts.map Prod.fst ∧ Json.ReadableEntries es ∧
      Json.toFields es = parts.map fun e => (Key.text e.1, e.2) by
    obtain ⟨es, hes, hreadable, hfields⟩ := hall
    exact ⟨.object es, ⟨hes ▸ hnames, hreadable⟩, congrArg (Value.dict · none) hfields⟩
  clear hnames
  induction parts with
  | nil => exact ⟨[], rfl, trivial, rfl⟩
  | cons e rest ih =>
    obtain ⟨⟨j, hj, hvalue⟩, hrest⟩ := List.forall_mem_cons.1 h
    obtain ⟨es, hes, hreadable, hfields⟩ := ih hrest
    exact ⟨(e.1, j) :: es, by simp [hes], ⟨hj, hreadable⟩, by simp [Json.toFields, hvalue, hfields]⟩

/-- An attempt that makes a text by adding to another makes no empty one. -/
theorem map_brackets_ne {α : Type} {a : Attempt α} {front back : String} {body : α → String}
    (h : front ≠ "") : a.map (fun x => front ++ body x ++ back) ≠ .ok "" := by
  cases a with
  | error f => exact fun hmap => by cases hmap
  | ok x =>
    intro hmap
    have htext : front ++ body x ++ back = "" := Except.ok.inj hmap
    simp [h] at htext

/-- What counts as true has a plain form that is not empty. -/
theorem Decoded.plain_ne {s : String} (h : v.Decoded) (hv : v.holds = true)
    (hplain : v.plain = .ok s) : s ≠ "" := by
  rintro rfl
  obtain ⟨j, hj, rfl⟩ := h
  cases j with
  | null => cases hv
  | bool b => cases b <;> simp [Json.toValue, plain, literal] at hplain
  | int n =>
    obtain ⟨c, hc, -⟩ := Json.scalarStart_int hj
    have htext : integerText n = .ok "" := hplain
    rw [integerText, if_neg (Json.longIntegerBound_eq ▸ Nat.not_le.2 hj)] at htext
    rw [Except.ok.inj htext] at hc
    cases hc
  | float x =>
    have htext : floatText x = "" := Except.ok.inj hplain
    cases hdecode : decode x with
    | nan => simp [floatText, printWith, hdecode] at htext
    | infinite negative => cases negative <;> simp [floatText, printWith, hdecode] at htext
    | finite negative m e =>
      obtain ⟨w, proper, -, hchars, -⟩ := Json.floatText_written hdecode
      obtain ⟨c, hc, -⟩ := proper.scalarStart
      rw [← hchars, htext] at hc
      cases hc
  | text s =>
    cases hplain
    cases hv
  | list items => exact map_brackets_ne (by decide) (show _ = _ from hplain)
  | object entries => exact map_brackets_ne (by decide) (show _ = _ from hplain)

end Value

/-! ## The plain form of decoded values -/

namespace Json

mutual

/-- The value that JSON stands for has a literal form. -/
theorem literal_toValue : (j : Json) → j.Readable → ∃ s, j.toValue.literal = .ok s
  | .null => fun _ => ⟨_, rfl⟩
  | .bool _ => fun _ => ⟨_, rfl⟩
  | .int n => fun h => by
    rw [toValue, Value.literal, integerText, longIntegerBound_eq, if_neg (Nat.not_le.2 h)]
    exact ⟨_, rfl⟩
  | .float _ => fun _ => ⟨_, rfl⟩
  | .text _ => fun _ => ⟨_, rfl⟩
  | .list items => fun h => by
    obtain ⟨texts, htexts⟩ := literals_toValues items h
    rw [toValue, Value.literal, htexts]
    exact ⟨_, rfl⟩
  | .object entries => fun h => by
    obtain ⟨texts, htexts⟩ := fieldLiterals_toFields entries h.2
    rw [toValue, Value.literal, htexts]
    exact ⟨_, rfl⟩

theorem literals_toValues : (items : List Json) → ReadableAll items →
    ∃ texts, Value.literals (toValues items) = .ok texts
  | [] => fun _ => ⟨_, rfl⟩
  | j :: js => fun h => by
    obtain ⟨first, hfirst⟩ := literal_toValue j h.1
    obtain ⟨others, hothers⟩ := literals_toValues js h.2
    rw [toValues, Value.literals, hfirst, hothers]
    exact ⟨_, rfl⟩

theorem fieldLiterals_toFields : (entries : List (String × Json)) → ReadableEntries entries →
    ∃ texts, Value.fieldLiterals (toFields entries) = .ok texts
  | [] => fun _ => ⟨_, rfl⟩
  | (k, j) :: rest => fun h => by
    obtain ⟨value, hvalue⟩ := literal_toValue j h.1
    obtain ⟨others, hothers⟩ := fieldLiterals_toFields rest h.2
    rw [toFields, Value.fieldLiterals, hvalue, hothers]
    exact ⟨_, rfl⟩

end

end Json

theorem Value.Decoded.plain_ok {v : Value} (h : v.Decoded) : ∃ s, v.plain = .ok s := by
  obtain ⟨j, hj, rfl⟩ := h
  cases j with
  | text s => exact ⟨s, rfl⟩
  | _ => exact Json.literal_toValue _ hj

end WorkflowEngine
