import WorkflowEngine.Proofs.Json.Values
import WorkflowEngine.Storage.Files

/-!
# Files that are broken off

A value that cannot be written leaves a text that is broken off: nothing, or lists and objects that are
not closed. Such a text is no JSON, and no number in it is what the reader complains about
(`Value.read_torn`). The reading follows the writing: what is written to its end is read
(`Value.spill_complete`, `Json.gives_render`), and where the writing stopped the reading stops.
-/

namespace WorkflowEngine

open Number Text

namespace Json

/-! ## Readings that stop -/

/-- Reading a text, from whatever place, stops, and for no long integer. -/
def Stops {α : Type} (read : Cursor → Except Complaint (α × Cursor)) (text : List Char) : Prop :=
  ∀ p, ∃ c, read ⟨p, text⟩ = .error c ∧ c.cause ≠ .longInteger

/-- What stands behind a value of a list or an object that is broken off: nothing, or a comma and
parts at which the reading stops. -/
def StopsBehind {α : Type} (read : Cursor → Except Complaint (α × Cursor)) (text : List Char) :
    Prop :=
  text = [] ∨ ∃ gap more, text = ',' :: (gap ++ more) ∧ Gap gap ∧ Begins more ∧ Stops read more

variable {fuel : Nat} {gap rest text : List Char} {j : Json}

theorem StopsBehind.numberEnds {α : Type} {read : Cursor → Except Complaint (α × Cursor)}
    (h : StopsBehind read rest) : NumberEnds rest := by
  obtain rfl | ⟨gap, more, rfl, -⟩ := h
  · rintro _ ⟨⟩
  · exact numberEnds_cons (by decide) _

/-- A text begins as a value does and is read as one, whatever follows that ends a number. -/
structure Reads (text : List Char) (j : Json) : Prop where
  begins : ∀ rest, Begins (text ++ rest)
  unclosed : ∀ rest, (text ++ rest).head? ≠ some ']'
  gives : ∀ fuel, 2 * text.length ≤ fuel → ∀ rest, NumberEnds rest →
    Gives (readValue fuel) (text ++ rest) j rest

theorem stops_value_zero (text : List Char) : Stops (readValue 0) text :=
  fun p => ⟨⟨.value, p⟩, rfl, by simp⟩

theorem stops_value_nil (fuel : Nat) : Stops (readValue fuel) [] := by
  cases fuel with
  | zero => exact stops_value_zero []
  | succ fuel => exact fun p => ⟨⟨.value, p⟩, rfl, by simp⟩

theorem stops_entries_nil (fuel : Nat) : Stops (readEntries fuel) [] := by
  cases fuel with
  | zero => exact fun p => ⟨⟨.value, p⟩, rfl, by simp⟩
  | succ fuel => exact fun p => ⟨⟨.name, p⟩, rfl, by simp⟩

theorem stops_list (hgap : Gap gap) (hbegins : Begins text) (hclose : text.head? ≠ some ']')
    (h : Stops (readItems fuel) text) : Stops (readValue (fuel + 1)) ('[' :: (gap ++ text)) := by
  intro p
  obtain ⟨p₁, hskip⟩ := skipGap_gap hgap hbegins (p + 1)
  obtain ⟨c, hitems, hcause⟩ := h p₁
  refine ⟨c, ?_, hcause⟩
  rw [readValue]
  simp only [Cursor.advance, List.drop_succ_cons, List.drop_zero, hskip]
  rw [if_neg (by simpa using hclose), hitems]
  rfl

theorem stops_object (hgap : Gap gap) (hbegins : Begins text)
    (hclose : text.head? ≠ some '\x7d') (h : Stops (readEntries fuel) text) :
    Stops (readValue (fuel + 1)) ('\x7b' :: (gap ++ text)) := by
  intro p
  obtain ⟨p₁, hskip⟩ := skipGap_gap hgap hbegins (p + 1)
  obtain ⟨c, hentries, hcause⟩ := h p₁
  refine ⟨c, ?_, hcause⟩
  rw [readValue]
  simp only [Cursor.advance, List.drop_succ_cons, List.drop_zero, hskip]
  rw [if_neg (by simpa using hclose), hentries]
  rfl

/-- The items of a list are not read if the first is not. -/
theorem stops_items_first (h : Stops (readValue fuel) text) :
    Stops (readItems (fuel + 1)) text := by
  intro p
  obtain ⟨c, hvalue, hcause⟩ := h p
  exact ⟨c, by rw [readItems, hvalue]; rfl, hcause⟩

theorem stops_items_behind (h : Gives (readValue fuel) text j rest)
    (hrest : StopsBehind (readItems fuel) rest) : Stops (readItems (fuel + 1)) text := by
  intro p
  obtain ⟨p₁, hvalue⟩ := h p
  obtain rfl | ⟨gap, more, rfl, hgap, hbegins, hmore⟩ := hrest
  · refine ⟨⟨.comma, p₁⟩, ?_, by simp⟩
    rw [readItems, hvalue]
    rfl
  · obtain ⟨p₂, hskip⟩ := skipGap_gap hgap hbegins (p₁ + 1)
    obtain ⟨c, hitems, hcause⟩ := hmore p₂
    refine ⟨c, ?_, hcause⟩
    have hcomma : Cursor.skipGap ⟨p₁, ',' :: (gap ++ more)⟩ = ⟨p₁, ',' :: (gap ++ more)⟩ := rfl
    rw [readItems, hvalue]
    simp only [bind, Except.bind, hcomma, Cursor.advance, List.drop_succ_cons, List.drop_zero,
      hskip, hitems]

/-- An entry is not read if its value is not. -/
theorem stops_entries_first (name : String) (hbegins : Begins text)
    (h : Stops (readValue fuel) text) : Stops (readEntries (fuel + 1))
      ('"' :: (name.toList.flatMap escapeChar ++ '"' :: ':' :: ' ' :: text)) := by
  intro p
  obtain ⟨p₁, hname⟩ := readEntries_name fuel name hbegins p
  obtain ⟨c, hvalue, hcause⟩ := h p₁
  exact ⟨c, by rw [hname, hvalue]; rfl, hcause⟩

theorem stops_entries_behind (name : String) (hbegins : Begins text)
    (h : Gives (readValue fuel) text j rest) (hrest : StopsBehind (readEntries fuel) rest) :
    Stops (readEntries (fuel + 1))
      ('"' :: (name.toList.flatMap escapeChar ++ '"' :: ':' :: ' ' :: text)) := by
  intro p
  obtain ⟨p₁, hname⟩ := readEntries_name fuel name hbegins p
  obtain ⟨p₂, hvalue⟩ := h p₁
  obtain rfl | ⟨gap, more, rfl, hgap, hmore, hstops⟩ := hrest
  · refine ⟨⟨.comma, p₂⟩, ?_, by simp⟩
    rw [hname, hvalue]
    rfl
  · obtain ⟨p₃, hskip⟩ := skipGap_gap hgap hmore (p₂ + 1)
    obtain ⟨c, hentries, hcause⟩ := hstops p₃
    refine ⟨c, ?_, hcause⟩
    have hcomma : Cursor.skipGap ⟨p₂, ',' :: (gap ++ more)⟩ = ⟨p₂, ',' :: (gap ++ more)⟩ := rfl
    rw [hname, hvalue]
    simp only [bind, Except.bind, hcomma, Cursor.advance, List.drop_succ_cons, List.drop_zero,
      hskip, hentries]

end Json

namespace Value

/-! ## What is written -/

theorem short_foreign {v : Value} {j : Json} (h : foreignText true v = .ok j) : j.Short := by
  unfold foreignText at h
  rw [if_pos rfl] at h
  cases hplain : v.plain with
  | error f =>
    rw [hplain] at h
    cases h
  | ok s =>
    rw [hplain] at h
    cases h
    trivial

theorem short_int {n : Int} {mark : Option Stamp} {j : Json}
    (h : (Value.int n mark).toJson true = .ok j) : j.Short := by
  rw [toJson] at h
  split at h
  · cases h
  · rename_i hlong
    cases h
    rw [Json.longIntegerBound_eq] at hlong
    exact Nat.not_le.1 hlong

mutual

/-- **Integers that are written can be read.** -/
theorem short_toJson : (v : Value) → ∀ j, v.toJson true = .ok j → j.Short
  | .null | .bool _ | .float _ _ | .text _ _ => by
    rintro _ ⟨⟩
    trivial
  | .int _ _ => fun _ => short_int
  | .list items _ | .tuple items _ => by
    intro j h
    rw [toJson] at h
    cases hitems : toJsons true items with
    | error f => rw [hitems] at h; cases h
    | ok js =>
      rw [hitems] at h
      cases h
      exact shortAll_toJsons items js hitems
  | .dict entries _ => by
    intro j h
    rw [toJson] at h
    cases hentries : toJsonEntries true entries with
    | error f => rw [hentries] at h; cases h
    | ok js =>
      rw [hentries] at h
      cases h
      exact shortEntries_toJsonEntries entries js hentries
  | .live _ | .enclosing _ _ => by rintro _ ⟨⟩
  | .bytes _ _ | .moment _ _ | .day _ _ | .complex _ _ _ | .ellipsis | .thing _ _ | .set _ _ _ =>
    fun _ => short_foreign

theorem shortAll_toJsons : (items : List Value) → ∀ js, toJsons true items = .ok js →
    Json.ShortAll js
  | [] => by
    rintro _ ⟨⟩
    trivial
  | v :: vs => by
    intro all h
    rw [toJsons] at h
    obtain ⟨j, hj, h⟩ := Attempt.bind_ok h
    obtain ⟨js, hjs, h⟩ := Attempt.bind_ok h
    cases h
    exact ⟨short_toJson v j hj, shortAll_toJsons vs js hjs⟩

theorem shortEntries_toJsonEntries : (entries : Fields) → ∀ js,
    toJsonEntries true entries = .ok js → Json.ShortEntries js
  | [] => by
    rintro _ ⟨⟩
    trivial
  | (_, v) :: rest => by
    intro all h
    rw [toJsonEntries] at h
    obtain ⟨name, -, h⟩ := Attempt.bind_ok h
    obtain ⟨j, hj, h⟩ := Attempt.bind_ok h
    obtain ⟨js, hjs, h⟩ := Attempt.bind_ok h
    cases h
    exact ⟨short_toJson v j hj, shortEntries_toJsonEntries rest js hjs⟩

end

theorem fileLayout_blank : fileLayout.Blank := by
  rintro s ⟨⟩
  exact List.all_eq_true.1 (show "  ".toList.all Json.isGap = true by decide)

/-- **What is written to a file is read again** as the JSON of the value, the later of two entries with
one name counting. -/
theorem read_fileText {v : Value} {text : String} (h : v.fileText = .ok text) :
    ∃ j, v.toJson true = .ok j ∧ Json.read text = .ok j.settled := by
  rw [fileText] at h
  cases hjson : v.toJson true with
  | error f => rw [hjson] at h; cases h
  | ok j =>
    rw [hjson] at h
    cases h
    exact ⟨j, rfl, Json.read_settled fileLayout_blank (short_toJson v j hjson)⟩

/-! ## Where the writing ends -/

variable {l : Json.Layout} {v : Value} {text : String} {complete : Bool}

/-- An item is written behind the text in front of it, unless both are left out. -/
theorem behindText_cases {before : String} {written : Written}
    (h : behindText before v written = (text, complete)) :
    (text = "" ∧ complete = false) ∨ written.2 = complete ∧ text = before ++ written.1 := by
  unfold behindText at h
  split at h
  · cases h
    exact .inl ⟨rfl, rfl⟩
  · cases h
    exact .inr ⟨rfl, rfl⟩

/-- What is written in two parts ends in the first if that is broken off, and else where the second
ends. -/
theorem written_ends (join : String → String → Bool → String) {first rest : Written}
    (h : (if first.2 then (join first.1 rest.1 rest.2, rest.2) else (first.1, false)) =
      (text, complete)) :
    (first = (text, false) ∧ complete = false) ∨
      ∃ s t, first = (s, true) ∧ rest = (t, complete) ∧ text = join s t complete := by
  obtain ⟨s, done⟩ := first
  cases done with
  | false =>
    cases h
    exact .inl ⟨rfl, rfl⟩
  | true =>
    cases h
    exact .inr ⟨s, rest.1, rfl, rfl, rfl⟩

/-- A list ends in its first item, or where the others end. -/
theorem spill_list_ends {vs : List Value} {mark : Option Stamp}
    (h : spill l (.list (v :: vs) mark) = (text, complete)) :
    (behindText ("[" ++ l.opening) v (spill l.inner v) = (text, false) ∧ complete = false) ∨
      ∃ first rest, behindText ("[" ++ l.opening) v (spill l.inner v) = (first, true) ∧
        spillItems l vs = (rest, complete) ∧
        text = first ++ rest ++ (if complete then l.closing ++ "]" else "") := by
  rw [spill] at h
  exact written_ends
    (fun first rest complete => first ++ rest ++ (if complete then l.closing ++ "]" else "")) h

/-- Some items end in the first, or where the others end. -/
theorem spillItems_ends {vs : List Value} (h : spillItems l (v :: vs) = (text, complete)) :
    (behindText l.between v (spill l.inner v) = (text, false) ∧ complete = false) ∨
      ∃ first rest, behindText l.between v (spill l.inner v) = (first, true) ∧
        spillItems l vs = (rest, complete) ∧ text = first ++ rest := by
  rw [spillItems] at h
  exact written_ends (fun first rest _ => first ++ rest) h

/-- Some entries end before a name that cannot be written, in the first value, or where the others
end. -/
theorem spillEntries_ends {k : Key} {rest : Fields} {separator : String}
    (h : spillEntries l separator ((k, v) :: rest) = (text, complete)) :
    (text = "" ∧ complete = false) ∨ ∃ name value, k.jsonName = .ok name ∧
      ((spill l.inner v = (value, false) ∧ complete = false ∧
          text = separator ++ Json.quotedText name ++ ": " ++ value) ∨
        ∃ others, spill l.inner v = (value, true) ∧
          spillEntries l l.between rest = (others, complete) ∧
          text = separator ++ Json.quotedText name ++ ": " ++ value ++ others) := by
  rw [spillEntries] at h
  cases hname : k.jsonName with
  | error f =>
    rw [hname] at h
    cases h
    exact .inl ⟨rfl, rfl⟩
  | ok name =>
    rw [hname] at h
    cases hvalue : spill l.inner v with
    | mk value done =>
    rw [hvalue] at h
    cases done with
    | false =>
      cases h
      exact .inr ⟨name, value, rfl, .inl ⟨rfl, rfl, rfl⟩⟩
    | true =>
      cases h
      exact .inr ⟨name, value, rfl, .inr ⟨_, rfl, rfl, rfl⟩⟩

/-! ## What is written to its end -/

/-- What is written of a value to its end is the text of its JSON. -/
def Completes (l : Json.Layout) (v : Value) : Prop :=
  ∀ text, spill l v = (text, true) →
    ∃ j, v.toJson true = .ok j ∧ j.Short ∧ text = j.renderIn l

/-- What is written of some items to its end is the text of their JSON. -/
def ItemsComplete (l : Json.Layout) (vs : List Value) : Prop :=
  ∀ text, spillItems l vs = (text, true) →
    ∃ js, toJsons true vs = .ok js ∧ Json.ShortAll js ∧ text = Json.renderRest l js

/-- The text of some entries, with a text in front of the first. -/
def entriesFrom (l : Json.Layout) (separator : String) : List (String × Json) → String
  | [] => ""
  | (k, j) :: rest =>
    separator ++ Json.quotedText k ++ ": " ++ Json.renderIn l.inner j ++ Json.renderEntries l rest

theorem entriesFrom_between (l : Json.Layout) (entries : List (String × Json)) :
    entriesFrom l l.between entries = Json.renderEntries l entries := by
  cases entries with
  | nil => rfl
  | cons e rest => rw [entriesFrom, Json.renderEntries]

/-- What is written of some entries to its end is the text of their JSON. -/
def EntriesComplete (l : Json.Layout) (separator : String) (entries : Fields) : Prop :=
  ∀ text, spillEntries l separator entries = (text, true) →
    ∃ es, toJsonEntries true entries = .ok es ∧ Json.ShortEntries es ∧
      text = entriesFrom l separator es

/-- Whether a value is no list, no tuple and no object. -/
def isLeaf : Value → Bool
  | .list _ _ | .tuple _ _ | .dict _ _ => false
  | _ => true

/-- What is no list, no tuple and no object is written as a whole or not at all. -/
theorem spill_leaf (h : v.isLeaf = true) (l : Json.Layout) :
    (∀ j, v.toJson true = .ok j → spill l v = (j.renderIn l, true)) ∧
      ∀ f, v.toJson true = .error f → spill l v = ("", false) := by
  cases v with
  | list items mark | tuple items mark | dict entries mark => cases h
  | _ => exact ⟨fun j hj => by simp only [spill, hj], fun f hf => by simp only [spill, hf]⟩

theorem completes_leaf (h : v.isLeaf = true) : Completes l v := by
  intro text hspill
  cases hjson : v.toJson true with
  | error f =>
    rw [(spill_leaf h l).2 f hjson] at hspill
    cases hspill
  | ok j =>
    rw [(spill_leaf h l).1 j hjson] at hspill
    cases hspill
    exact ⟨j, rfl, short_toJson v j hjson, rfl⟩

theorem behindText_complete {before : String} (hv : Completes l v)
    (h : behindText before v (spill l v) = (text, true)) :
    ∃ j, v.toJson true = .ok j ∧ j.Short ∧ text = before ++ j.renderIn l := by
  obtain ⟨-, hfalse⟩ | ⟨hcomplete, rfl⟩ := behindText_cases h
  · cases hfalse
  · obtain ⟨j, hj, hshort, htext⟩ := hv _ (Prod.ext rfl hcomplete)
    exact ⟨j, hj, hshort, congrArg (before ++ ·) htext⟩

theorem completes_list {vs : List Value} {mark : Option Stamp} (hv : Completes l.inner v)
    (hvs : ItemsComplete l vs) : Completes l (.list (v :: vs) mark) := by
  intro text h
  obtain ⟨-, hfalse⟩ | ⟨first, rest, hfirst, hrest, rfl⟩ := spill_list_ends h
  · cases hfalse
  · obtain ⟨j, hj, hshort, rfl⟩ := behindText_complete hv hfirst
    obtain ⟨js, hjs, hshorts, rfl⟩ := hvs rest hrest
    refine ⟨.list (j :: js), ?_, ⟨hshort, hshorts⟩, ?_⟩
    · rw [toJson, toJsons, hj, hjs]
      rfl
    · simp [Json.renderIn, String.append_assoc]

theorem itemsComplete_cons {vs : List Value} (hv : Completes l.inner v)
    (hvs : ItemsComplete l vs) : ItemsComplete l (v :: vs) := by
  intro text h
  obtain ⟨-, hfalse⟩ | ⟨first, rest, hfirst, hrest, rfl⟩ := spillItems_ends h
  · cases hfalse
  · obtain ⟨j, hj, hshort, rfl⟩ := behindText_complete hv hfirst
    obtain ⟨js, hjs, hshorts, rfl⟩ := hvs rest hrest
    refine ⟨j :: js, ?_, ⟨hshort, hshorts⟩, ?_⟩
    · rw [toJsons, hj, hjs]
      rfl
    · simp [Json.renderRest]

theorem entriesComplete_cons {k : Key} {rest : Fields} (separator : String)
    (hv : Completes l.inner v) (hrest : EntriesComplete l l.between rest) :
    EntriesComplete l separator ((k, v) :: rest) := by
  intro text h
  obtain ⟨-, hfalse⟩ | ⟨name, value, hname, ⟨-, hfalse, -⟩ | ⟨others, hvalue, hothers, rfl⟩⟩ :=
    spillEntries_ends h
  · cases hfalse
  · cases hfalse
  · obtain ⟨j, hj, hshort, rfl⟩ := hv value hvalue
    obtain ⟨es, hes, hshorts, rfl⟩ := hrest others hothers
    refine ⟨(name, j) :: es, ?_, ⟨hshort, hshorts⟩, ?_⟩
    · rw [toJsonEntries, hname, hj, hes]
      rfl
    · rw [entriesFrom, entriesFrom_between]

theorem completes_object {e : Key × Value} {rest : Fields} {mark : Option Stamp}
    (hentries : EntriesComplete l "" (e :: rest)) : Completes l (.dict (e :: rest) mark) := by
  intro text h
  rw [spill] at h
  cases hwritten : spillEntries l "" (e :: rest) with
  | mk written complete =>
  rw [hwritten] at h
  cases h
  obtain ⟨es, hes, hshort, rfl⟩ := hentries written hwritten
  refine ⟨.object es, by rw [toJson, hes]; rfl, hshort, ?_⟩
  cases es with
  | nil =>
    obtain ⟨_, _, hes⟩ := Attempt.bind_ok hes
    obtain ⟨_, _, hes⟩ := Attempt.bind_ok hes
    obtain ⟨_, _, hes⟩ := Attempt.bind_ok hes
    cases hes
  | cons e es => simp [entriesFrom, Json.renderIn, String.append_assoc]

mutual

/-- **What is written to its end is the text of the value's JSON.** -/
theorem spill_complete (l : Json.Layout) : (v : Value) → Completes l v
  | .list [] _ | .tuple [] _ => by
    rintro _ ⟨⟩
    exact ⟨.list [], rfl, trivial, rfl⟩
  | .dict [] _ => by
    rintro _ ⟨⟩
    exact ⟨.object [], rfl, trivial, rfl⟩
  | .list (v :: vs) _ => completes_list (spill_complete l.inner v) (spillItems_complete l vs)
  | .tuple (v :: vs) mark =>
    -- a tuple is written as the list of its items is
    @completes_list l v vs mark (spill_complete l.inner v) (spillItems_complete l vs)
  | .dict (e :: rest) _ => completes_object (spillEntries_complete l "" (e :: rest))
  | .null | .bool _ | .int _ _ | .float _ _ | .text _ _ | .live _ | .enclosing _ _ | .bytes _ _
  | .moment _ _ | .day _ _ | .complex _ _ _ | .ellipsis | .thing _ _ | .set _ _ _ =>
    completes_leaf rfl

theorem spillItems_complete (l : Json.Layout) : (vs : List Value) → ItemsComplete l vs
  | [] => by
    rintro _ ⟨⟩
    exact ⟨[], rfl, trivial, rfl⟩
  | v :: vs => itemsComplete_cons (spill_complete l.inner v) (spillItems_complete l vs)

theorem spillEntries_complete (l : Json.Layout) (separator : String) :
    (entries : Fields) → EntriesComplete l separator entries
  | [] => by
    rintro _ ⟨⟩
    exact ⟨[], rfl, trivial, rfl⟩
  | (_, v) :: rest => entriesComplete_cons separator (spill_complete l.inner v)
      (spillEntries_complete l l.between rest)

end

/-- What is written of a value to its end begins as a value does and is read again, whatever follows
that ends a number. -/
theorem spill_reads (l : Json.Layout) (hl : l.Blank) (h : spill l v = (text, true)) :
    ∃ j, Json.Reads text.toList j := by
  obtain ⟨j, -, hshort, rfl⟩ := spill_complete l v text h
  obtain ⟨c, cs, hhead, hblank, hclose, -⟩ := Json.render_head l hshort
  refine ⟨j.settled, fun rest => ?_, fun rest => ?_, Json.gives_render l hl j hshort⟩
  · rw [hhead, List.cons_append]
    exact Json.begins_cons hblank _
  · rw [hhead, List.cons_append]
    simp [hclose]

theorem behindText_reads {before : String} (l : Json.Layout) (hl : l.Blank)
    (h : behindText before v (spill l v) = (text, true)) :
    ∃ w j, text = before ++ w ∧ Json.Reads w.toList j := by
  obtain ⟨-, hfalse⟩ | ⟨hcomplete, rfl⟩ := behindText_cases h
  · cases hfalse
  · obtain ⟨j, hreads⟩ := spill_reads l hl (Prod.ext rfl hcomplete)
    exact ⟨_, j, rfl, hreads⟩

/-! ## What is broken off -/

/-- Where the writing of a value is broken off, the reading stops. What is broken off begins with a
bracket, if it begins at all. -/
def Tears (l : Json.Layout) (v : Value) : Prop :=
  ∀ text, spill l v = (text, false) →
    (∀ c ∈ text.toList.head?, c = '[' ∨ c = '\x7b') ∧
      ∀ fuel, 2 * text.toList.length ≤ fuel → Json.Stops (Json.readValue fuel) text.toList

/-- Where the writing of some items is broken off, the reading stops behind the item before. -/
def ItemsTear (l : Json.Layout) (vs : List Value) : Prop :=
  ∀ text, spillItems l vs = (text, false) → ∀ fuel, 2 * text.toList.length ≤ fuel →
    Json.StopsBehind (Json.readItems fuel) text.toList

/-- Where the writing of some entries is broken off, the reading stops. What is broken off begins with
a quote, if it begins at all. -/
def EntriesTear (l : Json.Layout) (entries : Fields) : Prop :=
  ∀ text, spillEntries l "" entries = (text, false) →
    (∀ c ∈ text.toList.head?, c = '"') ∧
      ∀ fuel, 2 * text.toList.length ≤ fuel → Json.Stops (Json.readEntries fuel) text.toList

theorem begins_bracket {text : List Char} (h : ∀ c ∈ text.head?, c = '[' ∨ c = '\x7b') :
    Json.Begins text ∧ text.head? ≠ some ']' := by
  refine ⟨fun c hc => ?_, fun hclose => ?_⟩
  · obtain rfl | rfl := h c hc
    · rfl
    · rfl
  · exact absurd (h ']' hclose) (by decide)

theorem begins_quote {text : List Char} (h : ∀ c ∈ text.head?, c = '"') :
    Json.Begins text ∧ text.head? ≠ some '\x7d' := by
  refine ⟨fun c hc => ?_, fun hclose => ?_⟩
  · obtain rfl := h c hc
    rfl
  · exact absurd (h '\x7d' hclose) (by decide)

/-- Of what is no list, no tuple and no object nothing is written if it cannot be written. -/
theorem tears_leaf (h : v.isLeaf = true) : Tears l v := by
  intro text hspill
  cases hjson : v.toJson true with
  | error f =>
    rw [(spill_leaf h l).2 f hjson] at hspill
    cases hspill
    exact ⟨by simp, fun fuel _ => Json.stops_value_nil fuel⟩
  | ok j =>
    rw [(spill_leaf h l).1 j hjson] at hspill
    cases hspill

/-- An item that is broken off stands behind the text in front of it, unless both are left out. -/
theorem behindText_torn {before : String} (hv : Tears l v)
    (h : behindText before v (spill l v) = (text, false)) : text = "" ∨
      ∃ w : String, text = before ++ w ∧ (∀ c ∈ w.toList.head?, c = '[' ∨ c = '\x7b') ∧
        ∀ fuel, 2 * w.toList.length ≤ fuel → Json.Stops (Json.readValue fuel) w.toList := by
  obtain ⟨rfl, -⟩ | ⟨htorn, rfl⟩ := behindText_cases h
  · exact .inl rfl
  · exact .inr ⟨_, rfl, hv _ (Prod.ext rfl htorn)⟩

theorem tears_list {vs : List Value} {mark : Option Stamp} (hl : l.Blank) (hv : Tears l.inner v)
    (hvs : ItemsTear l vs) : Tears l (.list (v :: vs) mark) := by
  intro text h
  obtain ⟨hfirst, -⟩ | ⟨first, rest, hfirst, hrest, rfl⟩ := spill_list_ends h
  · obtain rfl | ⟨w, rfl, hhead, hstops⟩ := behindText_torn hv hfirst
    · exact ⟨by simp, fun fuel _ => Json.stops_value_nil fuel⟩
    · obtain ⟨hbegins, hclose⟩ := begins_bracket hhead
      have htext : ("[" ++ l.opening ++ w).toList = '[' :: (l.opening.toList ++ w.toList) := by
        simp
      rw [htext]
      refine ⟨by simp, fun fuel hfuel => ?_⟩
      rw [List.length_cons, List.length_append] at hfuel
      obtain ⟨f, rfl⟩ := Nat.exists_eq_add_of_le' (show 2 ≤ fuel by omega)
      exact Json.stops_list hl.opening hbegins hclose
        (Json.stops_items_first (hstops f (by omega)))
  · obtain ⟨w, j, rfl, hreads⟩ := behindText_reads l.inner hl hfirst
    have htext : ("[" ++ l.opening ++ w ++ rest ++
        (if false = true then l.closing ++ "]" else "")).toList =
          '[' :: (l.opening.toList ++ (w.toList ++ rest.toList)) := by
      simp
    rw [htext]
    refine ⟨by simp, fun fuel hfuel => ?_⟩
    rw [List.length_cons, List.length_append, List.length_append] at hfuel
    obtain ⟨f, rfl⟩ := Nat.exists_eq_add_of_le' (show 2 ≤ fuel by omega)
    have hbehind := hvs rest hrest f (by omega)
    exact Json.stops_list hl.opening (hreads.begins _) (hreads.unclosed _)
      (Json.stops_items_behind (hreads.gives f (by omega) _ hbehind.numberEnds) hbehind)

theorem itemsTear_cons {vs : List Value} (hl : l.Blank) (hv : Tears l.inner v)
    (hvs : ItemsTear l vs) : ItemsTear l (v :: vs) := by
  intro text h fuel hfuel
  obtain ⟨gap, hbetween, hgap⟩ := hl.between
  obtain ⟨hfirst, -⟩ | ⟨first, rest, hfirst, hrest, rfl⟩ := spillItems_ends h
  · obtain rfl | ⟨w, rfl, hhead, hstops⟩ := behindText_torn hv hfirst
    · exact .inl rfl
    · rw [String.toList_append, hbetween, List.cons_append] at hfuel ⊢
      rw [List.length_cons, List.length_append] at hfuel
      obtain ⟨f, rfl⟩ := Nat.exists_eq_add_of_le' (show 1 ≤ fuel by omega)
      exact .inr ⟨gap, _, rfl, hgap, (begins_bracket hhead).1,
        Json.stops_items_first (hstops f (by omega))⟩
  · obtain ⟨w, j, rfl, hreads⟩ := behindText_reads l.inner hl hfirst
    rw [String.toList_append, String.toList_append, hbetween, List.cons_append, List.cons_append,
      List.append_assoc] at hfuel ⊢
    rw [List.length_cons, List.length_append, List.length_append] at hfuel
    obtain ⟨f, rfl⟩ := Nat.exists_eq_add_of_le' (show 1 ≤ fuel by omega)
    have hbehind := hvs rest hrest f (by omega)
    exact .inr ⟨gap, _, rfl, hgap, hreads.begins _,
      Json.stops_items_behind (hreads.gives f (by omega) _ hbehind.numberEnds) hbehind⟩

/-- Entries that are broken off are so behind the text in front of the first, unless that is left out
too. -/
theorem spillEntries_front {separator : String} {entries : Fields}
    (h : spillEntries l separator entries = (text, false)) : text = "" ∨
      ∃ own, text = separator ++ own ∧ spillEntries l "" entries = (own, false) := by
  cases entries with
  | nil => cases h
  | cons e rest =>
    obtain ⟨rfl, -⟩ | ⟨name, value, hname, ⟨hvalue, -, rfl⟩ | ⟨others, hvalue, hothers, rfl⟩⟩ :=
      spillEntries_ends h
    · exact .inl rfl
    · refine .inr ⟨"" ++ Json.quotedText name ++ ": " ++ value, by simp [String.append_assoc], ?_⟩
      rw [spillEntries, hname, hvalue]
      rfl
    · refine .inr ⟨"" ++ Json.quotedText name ++ ": " ++ value ++ others,
        by simp [String.append_assoc], ?_⟩
      rw [spillEntries, hname, hvalue, hothers]
      rfl

/-- Behind an entry stands nothing, or a comma and the entries that follow. -/
theorem stopsBehind_entries {entries : Fields} (hl : l.Blank) (hentries : EntriesTear l entries)
    {text : String} (h : spillEntries l l.between entries = (text, false)) {fuel : Nat}
    (hfuel : 2 * text.toList.length ≤ fuel) :
    Json.StopsBehind (Json.readEntries fuel) text.toList := by
  obtain ⟨gap, hbetween, hgap⟩ := hl.between
  obtain rfl | ⟨own, rfl, hown⟩ := spillEntries_front h
  · exact .inl rfl
  · obtain ⟨hhead, hstops⟩ := hentries own hown
    rw [String.toList_append, hbetween, List.cons_append] at hfuel ⊢
    rw [List.length_cons, List.length_append] at hfuel
    exact .inr ⟨gap, _, rfl, hgap, (begins_quote hhead).1, hstops fuel (by omega)⟩

theorem entriesTear_cons {k : Key} {rest : Fields} (hl : l.Blank) (hv : Tears l.inner v)
    (hrest : EntriesTear l rest) : EntriesTear l ((k, v) :: rest) := by
  intro text h
  obtain ⟨rfl, -⟩ | ⟨name, value, -, ⟨hvalue, -, rfl⟩ | ⟨others, hvalue, hothers, rfl⟩⟩ :=
    spillEntries_ends h
  · exact ⟨by simp, fun fuel _ => Json.stops_entries_nil fuel⟩
  · obtain ⟨hhead, hstops⟩ := hv value hvalue
    have htext : ("" ++ Json.quotedText name ++ ": " ++ value).toList =
        '"' :: (name.toList.flatMap Json.escapeChar ++ '"' :: ':' :: ' ' :: value.toList) := by
      simp [Json.quotedText_toList]
    rw [htext]
    refine ⟨by simp, fun fuel hfuel => ?_⟩
    simp only [List.length_cons, List.length_append] at hfuel
    obtain ⟨f, rfl⟩ := Nat.exists_eq_add_of_le' (show 1 ≤ fuel by omega)
    exact Json.stops_entries_first name (begins_bracket hhead).1 (hstops f (by omega))
  · obtain ⟨j, hreads⟩ := spill_reads l.inner hl hvalue
    have htext : ("" ++ Json.quotedText name ++ ": " ++ value ++ others).toList =
        '"' :: (name.toList.flatMap Json.escapeChar ++ '"' :: ':' :: ' ' ::
          (value.toList ++ others.toList)) := by
      simp [Json.quotedText_toList]
    rw [htext]
    refine ⟨by simp, fun fuel hfuel => ?_⟩
    simp only [List.length_cons, List.length_append] at hfuel
    obtain ⟨f, rfl⟩ := Nat.exists_eq_add_of_le' (show 1 ≤ fuel by omega)
    have hbehind : Json.StopsBehind (Json.readEntries f) others.toList :=
      stopsBehind_entries hl hrest hothers (by omega)
    exact Json.stops_entries_behind name (hreads.begins _)
      (hreads.gives f (by omega) _ hbehind.numberEnds) hbehind

theorem tears_object {e : Key × Value} {rest : Fields} {mark : Option Stamp} (hl : l.Blank)
    (hentries : EntriesTear l (e :: rest)) : Tears l (.dict (e :: rest) mark) := by
  intro text h
  rw [spill] at h
  cases hwritten : spillEntries l "" (e :: rest) with
  | mk written complete =>
  rw [hwritten] at h
  cases h
  obtain ⟨hhead, hstops⟩ := hentries written hwritten
  obtain ⟨hbegins, hclose⟩ := begins_quote hhead
  have htext : ("\x7b" ++ l.opening ++ written ++
      (if false = true then l.closing ++ "\x7d" else "")).toList =
        '\x7b' :: (l.opening.toList ++ written.toList) := by
    simp
  rw [htext]
  refine ⟨by simp, fun fuel hfuel => ?_⟩
  rw [List.length_cons, List.length_append] at hfuel
  obtain ⟨f, rfl⟩ := Nat.exists_eq_add_of_le' (show 1 ≤ fuel by omega)
  exact Json.stops_object hl.opening hbegins hclose (hstops f (by omega))

mutual

/-- **Where the writing of a value is broken off, the reading stops**, and for no long integer. -/
theorem spill_tears (l : Json.Layout) (hl : l.Blank) : (v : Value) → Tears l v
  | .list [] _ | .tuple [] _ | .dict [] _ => by rintro _ ⟨⟩
  | .list (v :: vs) _ => tears_list hl (spill_tears l.inner hl v) (spillItems_tear l hl vs)
  | .tuple (v :: vs) mark =>
    @tears_list l v vs mark hl (spill_tears l.inner hl v) (spillItems_tear l hl vs)
  | .dict (e :: rest) _ => tears_object hl (spillEntries_tear l hl (e :: rest))
  | .null | .bool _ | .int _ _ | .float _ _ | .text _ _ | .live _ | .enclosing _ _ | .bytes _ _
  | .moment _ _ | .day _ _ | .complex _ _ _ | .ellipsis | .thing _ _ | .set _ _ _ => tears_leaf rfl

theorem spillItems_tear (l : Json.Layout) (hl : l.Blank) : (vs : List Value) → ItemsTear l vs
  | [] => by rintro _ ⟨⟩
  | v :: vs => itemsTear_cons hl (spill_tears l.inner hl v) (spillItems_tear l hl vs)

theorem spillEntries_tear (l : Json.Layout) (hl : l.Blank) :
    (entries : Fields) → EntriesTear l entries
  | [] => by rintro _ ⟨⟩
  | (_, v) :: rest => entriesTear_cons hl (spill_tears l.inner hl v) (spillEntries_tear l hl rest)

end

/-- A value that cannot be written is broken off. -/
theorem spill_error {f : Failure} (h : v.fileText = .error f) :
    (spill fileLayout v).2 = false := by
  cases hspill : spill fileLayout v with
  | mk text complete =>
  cases complete with
  | false => rfl
  | true =>
    obtain ⟨j, hj, -⟩ := spill_complete fileLayout v text hspill
    rw [fileText, hj] at h
    cases h

/-- **What is left of a value that cannot be written is no JSON**, and no long integer stands in it. -/
theorem read_torn {f : Failure} (h : v.fileText = .error f) :
    ∃ c, Json.read (spill fileLayout v).1 = .error c ∧ c.cause ≠ .longInteger := by
  obtain ⟨hhead, hstops⟩ := spill_tears fileLayout fileLayout_blank v _ (Prod.ext rfl (spill_error h))
  obtain ⟨p, hskip⟩ := Json.skipGap_gap Json.gap_nil (begins_bracket hhead).1 0
  obtain ⟨c, hread, hcause⟩ := hstops _ (Nat.le_add_right _ 2) p
  refine ⟨c, ?_, hcause⟩
  rw [List.nil_append] at hskip
  rw [Json.read]
  dsimp only
  rw [if_neg, hskip, hread]
  · rfl
  · intro hmark
    exact absurd (hhead _ (beq_iff_eq.1 hmark)) (by decide)

end Value

end WorkflowEngine
