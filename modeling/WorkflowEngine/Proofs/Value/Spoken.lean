import WorkflowEngine.Expression.Template
import WorkflowEngine.Proofs.Value.Recorded

/-!
# Values that JSON can say, wherever they were made

A value says JSON if it is a JSON value whose integers are short enough to be written, whatever the
places are where its parts were made. Such a value has a text (`SaysJson.toText_ok`), and every path
into it leads to such a value again (`SaysJson.nested`). So in a context of such values every
reference leads to one or nowhere (`Context.SaysJson.lookup`).
-/

namespace WorkflowEngine

open Number Text

namespace Value

variable {v : Value} {vs : List Value} {entries : Fields} {scopes : Scopes} {showing : Bool}
variable {f : Surroundings → Scope → Value} {around : Surroundings} {mark : Option Stamp}

/-- The values that are JSON with integers short enough to be written. -/
inductive SaysJson : Value → Prop where
  | null : SaysJson .null
  | bool (b : Bool) : SaysJson (.bool b)
  | int (n : Int) (mark : Option Stamp) (short : n.natAbs < longIntegerBound) :
    SaysJson (.int n mark)
  | float (x : Float) (mark : Option Stamp) : SaysJson (.float x mark)
  | text (s : String) (mark : Option Stamp) : SaysJson (.text s mark)
  | list (items : List Value) (mark : Option Stamp) (parts : ∀ v ∈ items, SaysJson v) :
    SaysJson (.list items mark)
  | dict (entries : Fields) (mark : Option Stamp) (keys : ∀ e ∈ entries, ∃ s, e.1 = .text s)
    (parts : ∀ e ∈ entries, SaysJson e.2) : SaysJson (.dict entries mark)

/-! ## The text of such a value -/

theorem expandAll_eq_self (h : ∀ v ∈ vs, v.expand f around = v) : expandAll f around vs = vs := by
  induction vs with
  | nil => rfl
  | cons v vs ih =>
    rw [expandAll, h v List.mem_cons_self, ih fun w hw => h w (List.mem_cons_of_mem _ hw)]

theorem expandFields_eq_self (h : ∀ e ∈ entries, e.2.expand f around = e.2) :
    expandFields f around entries = entries := by
  induction entries with
  | nil => rfl
  | cons e rest ih =>
    rw [expandFields, h e List.mem_cons_self, ih fun w hw => h w (List.mem_cons_of_mem _ hw)]

theorem Surroundings.up?_eq_none (h : around.inTable = false) : around.up? mark = none := by
  rw [up?, h]
  rfl

/-- Outside the tables of the run there is nothing in a JSON value that could be written out. -/
theorem SaysJson.expand_eq (h : v.SaysJson) (houtside : around.inTable = false) :
    v.expand f around = v := by
  induction h generalizing around with
  | list items mark parts ih =>
    rw [expand, Surroundings.up?_eq_none houtside]
    exact congrArg (Value.list · mark) (expandAll_eq_self fun v hv => ih v hv houtside)
  | dict entries mark keys parts ih =>
    rw [expand, Surroundings.up?_eq_none houtside]
    exact congrArg (Value.dict · mark) (expandFields_eq_self fun e he => ih e he houtside)
  | _ => rfl

theorem SaysJson.unfold_eq (h : v.SaysJson) : v.unfold scopes = v := h.expand_eq rfl

theorem toJsons_ok (h : ∀ v ∈ vs, ∃ j, v.toJson showing = .ok j) :
    ∃ js, toJsons showing vs = .ok js := by
  induction vs with
  | nil => exact ⟨[], rfl⟩
  | cons v vs ih =>
    obtain ⟨j, hj⟩ := h v List.mem_cons_self
    obtain ⟨js, hjs⟩ := ih fun w hw => h w (List.mem_cons_of_mem _ hw)
    exact ⟨j :: js, by rw [toJsons, hj, Attempt.ok_bind, hjs]; rfl⟩

theorem toJsonEntries_ok (hkeys : ∀ e ∈ entries, ∃ s, e.1 = .text s)
    (h : ∀ e ∈ entries, ∃ j, e.2.toJson showing = .ok j) :
    ∃ js, toJsonEntries showing entries = .ok js := by
  induction entries with
  | nil => exact ⟨[], rfl⟩
  | cons e rest ih =>
    obtain ⟨k, v⟩ := e
    obtain ⟨s, rfl⟩ := hkeys _ List.mem_cons_self
    obtain ⟨j, hj⟩ := h _ List.mem_cons_self
    obtain ⟨js, hjs⟩ := ih (fun e he => hkeys e (List.mem_cons_of_mem _ he))
      fun e he => h e (List.mem_cons_of_mem _ he)
    exact ⟨(s, j) :: js, by rw [toJsonEntries, Key.jsonName, hj, hjs]; rfl⟩

theorem SaysJson.toJson_ok (h : v.SaysJson) : ∃ j, v.toJson showing = .ok j := by
  induction h with
  | int n mark short =>
    exact ⟨.int n, by rw [toJson, if_neg (Nat.not_le.2 short)]⟩
  | list items mark parts ih =>
    obtain ⟨js, hjs⟩ := toJsons_ok ih
    exact ⟨.list js, by rw [toJson, hjs]; rfl⟩
  | dict entries mark keys parts ih =>
    obtain ⟨js, hjs⟩ := toJsonEntries_ok keys ih
    exact ⟨.object js, by rw [toJson, hjs]; rfl⟩
  | _ => exact ⟨_, rfl⟩

theorem SaysJson.jsonText_ok (h : v.SaysJson) : ∃ s, v.jsonText scopes = .ok s := by
  obtain ⟨j, hj⟩ : ∃ j, v.toJson true = .ok j := h.toJson_ok
  exact ⟨j.compact, by rw [jsonText, h.unfold_eq, hj]; rfl⟩

/-- **A value that says JSON has a text.** -/
theorem SaysJson.toText_ok (h : v.SaysJson) : ∃ s, v.toText scopes = .ok s := by
  cases h with
  | int n mark short =>
    have hplain : (Value.int n mark).toText scopes = integerText n := rfl
    exact ⟨intText n, hplain.trans (integerText_short short)⟩
  | float x mark =>
    rw [toText]
    split
    · split
      · next n hn =>
        exact ⟨intText n, integerText_short (Json.longIntegerBound_eq ▸ truncate_short hn)⟩
      · exact ⟨_, rfl⟩
    · exact ⟨_, rfl⟩
  | list items mark parts => exact (SaysJson.list items mark parts).jsonText_ok
  | dict entries mark keys parts => exact (SaysJson.dict entries mark keys parts).jsonText_ok
  | _ => exact ⟨_, rfl⟩

/-! ## Its parts -/

theorem SaysJson.getD_null {found : Option Value} (h : ∀ w ∈ found, w.SaysJson) :
    (found.getD .null).SaysJson := by
  cases found with
  | none => exact .null
  | some w => exact h w rfl

theorem SaysJson.itemAt (h : ∀ v ∈ vs, v.SaysJson) (place : Int) : (itemAt vs place).SaysJson := by
  unfold Value.itemAt
  extract_lets i
  split
  · exact .null
  · exact getD_null fun w hw => h w (List.mem_of_getElem? hw)

theorem SaysJson.lookup_getD (h : ∀ e ∈ entries, e.2.SaysJson) (k : Key) :
    ((entries.lookup k).getD .null).SaysJson :=
  getD_null fun _ hw => h _ (Entries.mem_of_lookup hw)

theorem SaysJson.step (h : v.SaysJson) (segment : List Char) :
    (step scopes v segment).SaysJson := by
  cases h with
  | list items mark parts =>
    rw [Value.step]
    cases readInt? (String.ofList segment) with
    | none => exact .null
    | some place => exact itemAt parts place
  | dict entries mark keys parts => exact lookup_getD parts _
  | _ => exact .null

theorem SaysJson.steps (h : v.SaysJson) (segments : List (List Char)) :
    (segments.foldl (Value.step scopes) v).SaysJson := by
  induction segments generalizing v with
  | nil => exact h
  | cons segment rest ih => exact ih (h.step segment)

/-- **What a path into it leads to says JSON as well.** -/
theorem SaysJson.nested (h : v.SaysJson) (path : List Char) :
    (nested scopes v path).SaysJson := by
  unfold Value.nested
  split
  · exact .null
  · split
    · exact h
    · exact h.steps _

end Value

/-! ## What references lead to -/

/-- All that a context holds says JSON. -/
structure Context.SaysJson (context : Context) : Prop where
  vars : ∀ e ∈ context.vars, e.2.SaysJson
  outputs : ∀ e ∈ context.outputs, e.2.SaysJson
  previous : context.previous.SaysJson

namespace Context

variable {context : Context} {reference : List Char} {v : Value}

/-- **In a context of JSON values a reference leads to a JSON value or nowhere.** -/
theorem SaysJson.lookup (h : context.SaysJson) (hv : context.lookup reference = some v) :
    v.SaysJson := by
  have hfound : ∀ {w w' : Value}, w.SaysJson → (if w.isNull then none else some w) = some w' →
      w'.SaysJson := by
    intro w w' hw hsome
    split at hsome
    · cases hsome
    · exact Option.some.inj hsome ▸ hw
  unfold Context.lookup at hv
  simp only at hv
  split at hv
  · obtain ⟨output, houtput, hsome⟩ := Option.bind_eq_some_iff.1 hv
    exact hfound ((h.outputs _ (Entries.mem_of_lookup houtput)).nested _) hsome
  · split at hv
    · exact Option.some.inj hv ▸ h.previous
    · split at hv
      · exact hfound (h.previous.nested _) hv
      · split at hv
        · next w hw => exact Option.some.inj hv ▸ h.vars _ (Entries.mem_of_lookup hw)
        · split at hv
          · cases hv
          · obtain ⟨w, hw, hsome⟩ := Option.bind_eq_some_iff.1 hv
            exact hfound ((h.vars _ (Entries.mem_of_lookup hw)).nested _) hsome

end Context

end WorkflowEngine
