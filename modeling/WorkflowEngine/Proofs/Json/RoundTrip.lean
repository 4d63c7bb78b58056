import WorkflowEngine.Proofs.Json.Numbers
import WorkflowEngine.Proofs.Json.Texts

/-!
# JSON read back

What is printed is read back as itself, in every layout whose unit of indentation is a gap
(`read_render`), provided that it can be read at all: that its integers are short enough and the
names of its objects distinct (`Readable`). This holds of whatever has been read (`readable_read`),
so printing and reading once more changes nothing.
-/

namespace WorkflowEngine.Json

open Number Text

/-! ## The values that can be read -/

mutual

/-- Whether a value can be read: its integers are short enough, and the names of an object are
distinct. -/
def Readable : Json → Prop
  | .int n => n.natAbs < 10 ^ digitLimit
  | .list items => ReadableAll items
  | .object entries => (entries.map Prod.fst).Nodup ∧ ReadableEntries entries
  | _ => True

/-- Whether some values can be read. -/
def ReadableAll : List Json → Prop
  | [] => True
  | j :: js => Readable j ∧ ReadableAll js

/-- Whether the values of some entries can be read. -/
def ReadableEntries : List (String × Json) → Prop
  | [] => True
  | (_, j) :: rest => Readable j ∧ ReadableEntries rest

end

mutual

/-- Whether the integers of a value are short enough to be read. -/
def Short : Json → Prop
  | .int n => n.natAbs < 10 ^ digitLimit
  | .list items => ShortAll items
  | .object entries => ShortEntries entries
  | _ => True

/-- Whether the integers of some values are short enough. -/
def ShortAll : List Json → Prop
  | [] => True
  | j :: js => Short j ∧ ShortAll js

/-- Whether the integers of the values of some entries are short enough. -/
def ShortEntries : List (String × Json) → Prop
  | [] => True
  | (_, j) :: rest => Short j ∧ ShortEntries rest

end

mutual

/-- A value as it is read again once it is printed: of two entries with one name the later counts. -/
def settled : Json → Json
  | .list items => .list (settledAll items)
  | .object entries => .object (Entries.ofList (settledEntries entries))
  | j => j

/-- Some values as they are read again. -/
def settledAll : List Json → List Json
  | [] => []
  | j :: js => settled j :: settledAll js

/-- Some entries as they are read again, one by one. -/
def settledEntries : List (String × Json) → List (String × Json)
  | [] => []
  | (k, j) :: rest => (k, settled j) :: settledEntries rest

end

mutual

/-- What can be read is short, and is read again as it is. -/
theorem Readable.settled_eq : (j : Json) → j.Readable → j.Short ∧ j.settled = j
  | .null, _ => ⟨trivial, rfl⟩
  | .bool _, _ => ⟨trivial, rfl⟩
  | .int _, h => ⟨h, rfl⟩
  | .float _, _ => ⟨trivial, rfl⟩
  | .text _, _ => ⟨trivial, rfl⟩
  | .list items, h => by
    obtain ⟨hshort, hsettled⟩ := ReadableAll.settled_eq items h
    exact ⟨hshort, by rw [settled, hsettled]⟩
  | .object entries, h => by
    obtain ⟨hshort, hsettled⟩ := ReadableEntries.settled_eq entries h.2
    exact ⟨hshort, by rw [settled, hsettled, Entries.ofList_of_nodup h.1]⟩

theorem ReadableAll.settled_eq :
    (items : List Json) → ReadableAll items → ShortAll items ∧ settledAll items = items
  | [], _ => ⟨trivial, rfl⟩
  | j :: js, h => by
    obtain ⟨hj, hsettled⟩ := Readable.settled_eq j h.1
    obtain ⟨hjs, hrest⟩ := ReadableAll.settled_eq js h.2
    exact ⟨⟨hj, hjs⟩, by rw [settledAll, hsettled, hrest]⟩

theorem ReadableEntries.settled_eq : (entries : List (String × Json)) →
    ReadableEntries entries → ShortEntries entries ∧ settledEntries entries = entries
  | [], _ => ⟨trivial, rfl⟩
  | (k, j) :: rest, h => by
    obtain ⟨hj, hsettled⟩ := Readable.settled_eq j h.1
    obtain ⟨hothers, hrest⟩ := ReadableEntries.settled_eq rest h.2
    exact ⟨⟨hj, hothers⟩, by rw [settledEntries, hsettled, hrest]⟩

end

theorem settledEntries_eq (entries : List (String × Json)) :
    settledEntries entries = entries.map fun e => (e.1, settled e.2) := by
  induction entries with
  | nil => rfl
  | cons e rest ih => rw [settledEntries, ih, List.map_cons]

theorem readableAll_iff (items : List Json) : ReadableAll items ↔ ∀ j ∈ items, Readable j := by
  induction items with
  | nil => simp [ReadableAll]
  | cons j js ih => simp [ReadableAll, ih]

theorem readableEntries_iff (entries : List (String × Json)) :
    ReadableEntries entries ↔ ∀ e ∈ entries, Readable e.2 := by
  induction entries with
  | nil => simp [ReadableEntries]
  | cons e rest ih => simp [ReadableEntries, ih]

/-! ## The steps of the reader -/

/-- Reading a text, from whatever place, gives a value and leaves a rest. -/
def Gives {α : Type} (read : Cursor → Except Complaint (α × Cursor)) (text : List Char) (a : α)
    (rest : List Char) : Prop :=
  ∀ p, ∃ p', read ⟨p, text⟩ = .ok (a, ⟨p', rest⟩)

/-- Whether some characters are nothing but a gap. -/
def Gap (cs : List Char) : Prop := ∀ c ∈ cs, isGap c = true

theorem gap_nil : Gap [] := fun _ hc => absurd hc List.not_mem_nil

theorem gap_blank : Gap [' '] := by
  intro c hc
  rw [List.mem_singleton.1 hc]
  rfl

/-- Whether a part begins where a text begins. -/
def Begins (text : List Char) : Prop := ∀ c ∈ text.head?, isGap c = false

theorem begins_cons {c : Char} (h : isGap c = false) (cs : List Char) : Begins (c :: cs) := by
  rintro _ ⟨⟩
  exact h

variable {fuel : Nat} {gap rest more text : List Char} {c : Char}

theorem skipGap_gap (hgap : Gap gap) (hrest : Begins rest) (p : Nat) :
    ∃ p', Cursor.skipGap ⟨p, gap ++ rest⟩ = ⟨p', rest⟩ := by
  have hwhile : (gap ++ rest).takeWhile isGap = gap := by
    rw [List.takeWhile_append_of_pos hgap]
    cases rest with
    | nil => simp
    | cons c cs => rw [List.takeWhile_cons_of_neg (by simp [hrest c rfl]), List.append_nil]
  rw [Cursor.skipGap, hwhile]
  exact ⟨_, advance_append p rfl rest⟩

theorem gives_text (fuel : Nat) (cs rest : List Char) :
    Gives (readValue (fuel + 1)) ('"' :: (cs.flatMap escapeChar ++ '"' :: rest))
      (.text (String.ofList cs)) rest := by
  intro p
  obtain ⟨p', h⟩ := readText_quoted p cs rest (p + 1)
  exact ⟨p', by rw [readValue]; simp only [h]; rfl⟩

theorem gives_scalar {j : Json} (hopen : ∀ c ∈ text.head?, c ≠ '"' ∧ c ≠ '[' ∧ c ≠ '\x7b')
    (h : Gives readScalar text j rest) : Gives (readValue (fuel + 1)) text j rest := by
  intro p
  obtain ⟨p', h⟩ := h p
  refine ⟨p', ?_⟩
  rw [readValue]
  split
  · rename_i hhead
    exact absurd rfl (hopen '"' (by rw [show text = _ from hhead]; rfl)).1
  · rename_i hhead
    exact absurd rfl (hopen '[' (by rw [show text = _ from hhead]; rfl)).2.1
  · rename_i hhead
    exact absurd rfl (hopen '\x7b' (by rw [show text = _ from hhead]; rfl)).2.2
  · exact h

theorem gives_list {items : List Json} (hgap : Gap gap) (hbegins : Begins text)
    (hclose : text.head? ≠ some ']') (h : Gives (readItems fuel) text items rest) :
    Gives (readValue (fuel + 1)) ('[' :: (gap ++ text)) (.list items) rest := by
  intro p
  obtain ⟨p₁, hskip⟩ := skipGap_gap hgap hbegins (p + 1)
  obtain ⟨p₂, hitems⟩ := h p₁
  refine ⟨p₂, ?_⟩
  rw [readValue]
  simp only [Cursor.advance, List.drop_succ_cons, List.drop_zero, hskip]
  rw [if_neg (by simpa using hclose), hitems]
  rfl

theorem gives_object {entries : List (String × Json)} (hgap : Gap gap) (hbegins : Begins text)
    (hclose : text.head? ≠ some '\x7d') (h : Gives (readEntries fuel) text entries rest) :
    Gives (readValue (fuel + 1)) ('\x7b' :: (gap ++ text)) (.object (Entries.ofList entries))
      rest := by
  intro p
  obtain ⟨p₁, hskip⟩ := skipGap_gap hgap hbegins (p + 1)
  obtain ⟨p₂, hentries⟩ := h p₁
  refine ⟨p₂, ?_⟩
  rw [readValue]
  simp only [Cursor.advance, List.drop_succ_cons, List.drop_zero, hskip]
  rw [if_neg (by simpa using hclose), hentries]
  rfl

theorem gives_items_last {j : Json} (hgap : Gap gap)
    (h : Gives (readValue fuel) text j (gap ++ ']' :: rest)) :
    Gives (readItems (fuel + 1)) text [j] rest := by
  intro p
  obtain ⟨p₁, hvalue⟩ := h p
  obtain ⟨p₂, hskip⟩ := skipGap_gap hgap (begins_cons (c := ']') rfl rest) p₁
  refine ⟨p₂ + 1, ?_⟩
  rw [readItems, hvalue]
  simp only [bind, Except.bind, hskip]
  rfl

theorem gives_items_next {j : Json} {items : List Json} (hgap : Gap gap) (hbegins : Begins more)
    (h : Gives (readValue fuel) text j (',' :: (gap ++ more)))
    (hitems : Gives (readItems fuel) more items rest) :
    Gives (readItems (fuel + 1)) text (j :: items) rest := by
  intro p
  obtain ⟨p₁, hvalue⟩ := h p
  obtain ⟨p₂, hskip⟩ := skipGap_gap hgap hbegins (p₁ + 1)
  obtain ⟨p₃, hitems⟩ := hitems p₂
  refine ⟨p₃, ?_⟩
  have hcomma : Cursor.skipGap ⟨p₁, ',' :: (gap ++ more)⟩ = ⟨p₁, ',' :: (gap ++ more)⟩ := rfl
  rw [readItems, hvalue]
  simp only [bind, Except.bind, hcomma, Cursor.advance, List.drop_succ_cons, List.drop_zero, hskip,
    hitems]
  rfl

/-- An entry begins with its name, and its value stands behind a colon. -/
theorem readEntries_name (fuel : Nat) (name : String) (hbegins : Begins text) (p : Nat) : ∃ p₁,
    readEntries (fuel + 1)
        ⟨p, '"' :: (name.toList.flatMap escapeChar ++ '"' :: ':' :: ' ' :: text)⟩ =
      (do
        let (value, behind) ← readValue fuel ⟨p₁, text⟩
        let behind := behind.skipGap
        match behind.rest with
        | '\x7d' :: _ => pure ([(name, value)], behind.advance 1)
        | ',' :: _ =>
          let (entries, last) ← readEntries fuel (behind.advance 1).skipGap
          pure ((name, value) :: entries, last)
        | _ => behind.fail .comma) := by
  obtain ⟨p₁, htext⟩ := readText_quoted p name.toList (':' :: ' ' :: text) (p + 1)
  obtain ⟨p₂, hskip⟩ := skipGap_gap gap_blank hbegins (p₁ + 1)
  have hcolon : Cursor.skipGap ⟨p₁, ':' :: ' ' :: text⟩ = ⟨p₁, ':' :: ' ' :: text⟩ := rfl
  have hvalue : (Cursor.advance ⟨p₁, ':' :: ' ' :: text⟩ 1).skipGap = ⟨p₂, text⟩ := hskip
  have hname : String.ofList name.toList = name := String.ofList_toList
  refine ⟨p₂, ?_⟩
  rw [readEntries]
  simp only [htext, bind, Except.bind, hcolon, hvalue, hname]
  exact if_neg (by simp)

theorem gives_entries_last (name : String) {j : Json} (hgap : Gap gap) (hbegins : Begins text)
    (h : Gives (readValue fuel) text j (gap ++ '\x7d' :: rest)) :
    Gives (readEntries (fuel + 1))
      ('"' :: (name.toList.flatMap escapeChar ++ '"' :: ':' :: ' ' :: text)) [(name, j)] rest := by
  intro p
  obtain ⟨p₁, hname⟩ := readEntries_name fuel name hbegins p
  obtain ⟨p₂, hvalue⟩ := h p₁
  obtain ⟨p₃, hskip⟩ := skipGap_gap hgap (begins_cons (c := '\x7d') rfl rest) p₂
  refine ⟨p₃ + 1, ?_⟩
  rw [hname, hvalue]
  simp only [bind, Except.bind, hskip]
  rfl

theorem gives_entries_next (name : String) {j : Json} {entries : List (String × Json)}
    (hgap : Gap gap) (hmore : Begins more) (hbegins : Begins text)
    (h : Gives (readValue fuel) text j (',' :: (gap ++ more)))
    (hentries : Gives (readEntries fuel) more entries rest) :
    Gives (readEntries (fuel + 1))
      ('"' :: (name.toList.flatMap escapeChar ++ '"' :: ':' :: ' ' :: text))
      ((name, j) :: entries) rest := by
  intro p
  obtain ⟨p₁, hname⟩ := readEntries_name fuel name hbegins p
  obtain ⟨p₂, hvalue⟩ := h p₁
  obtain ⟨p₃, hskip⟩ := skipGap_gap hgap hmore (p₂ + 1)
  obtain ⟨p₄, hentries⟩ := hentries p₃
  have hcomma : Cursor.skipGap ⟨p₂, ',' :: (gap ++ more)⟩ = ⟨p₂, ',' :: (gap ++ more)⟩ := rfl
  refine ⟨p₄, ?_⟩
  rw [hname, hvalue]
  simp only [bind, Except.bind, hcomma, Cursor.advance, List.drop_succ_cons, List.drop_zero, hskip,
    hentries]
  rfl

/-! ## What is printed -/

/-- Whether a layout puts nothing but gaps between the parts. -/
def Layout.Blank (l : Layout) : Prop := ∀ s ∈ l.unit, Gap s.toList

variable {l : Layout}

theorem mem_newLine {unit : Option String} {level : Nat} (h : c ∈ (newLine unit level).toList) :
    c = '\n' ∨ ∃ s ∈ unit, c ∈ s.toList := by
  cases unit with
  | none => exact absurd h (by simp [newLine])
  | some s =>
    rw [newLine, String.toList_append, String.toList_join] at h
    rcases List.mem_append.1 h with h | h
    · exact .inl (by simpa using h)
    · obtain ⟨s', hs', h⟩ := List.mem_flatMap.1 h
      exact .inr ⟨s, rfl, List.eq_of_mem_replicate hs' ▸ h⟩

theorem newLine_gap {unit : Option String} (h : ∀ s ∈ unit, Gap s.toList) (level : Nat) :
    Gap (newLine unit level).toList := by
  intro c hc
  obtain rfl | ⟨s, hs, hc⟩ := mem_newLine hc
  · rfl
  · exact h s hs c hc

theorem Layout.Blank.opening (h : l.Blank) : Gap l.opening.toList := newLine_gap h _

theorem Layout.Blank.closing (h : l.Blank) : Gap l.closing.toList := newLine_gap h _

theorem Layout.Blank.between (h : l.Blank) : ∃ gap, l.between.toList = ',' :: gap ∧ Gap gap := by
  unfold Layout.between
  split
  · exact ⟨[' '], rfl, gap_blank⟩
  · exact ⟨_, by rw [String.toList_append]; rfl, newLine_gap h _⟩

theorem quotedText_toList (s : String) :
    (quotedText s).toList = '"' :: (s.toList.flatMap escapeChar ++ ['"']) := by
  rw [quotedText, String.toList_ofList, List.cons_append]

/-- The text of some items. -/
def itemsText (l : Layout) : List Json → List Char
  | [] => []
  | j :: js => (renderIn l.inner j).toList ++ (renderRest l js).toList

/-- The text of some entries. -/
def entriesText (l : Layout) : List (String × Json) → List Char
  | [] => []
  | (k, j) :: rest =>
    (quotedText k).toList ++ ':' :: ' ' ::
      ((renderIn l.inner j).toList ++ (renderEntries l rest).toList)

theorem renderRest_toList (j : Json) (js : List Json) :
    (renderRest l (j :: js)).toList = l.between.toList ++ itemsText l (j :: js) := by
  simp [renderRest, itemsText]

theorem renderEntries_toList (e : String × Json) (rest : List (String × Json)) :
    (renderEntries l (e :: rest)).toList = l.between.toList ++ entriesText l (e :: rest) := by
  simp [renderEntries, entriesText]

theorem renderList_toList (j : Json) (js : List Json) : (renderIn l (.list (j :: js))).toList =
    '[' :: (l.opening.toList ++ (itemsText l (j :: js) ++ (l.closing.toList ++ [']']))) := by
  simp [renderIn, itemsText]

theorem renderObject_toList (e : String × Json) (rest : List (String × Json)) :
    (renderIn l (.object (e :: rest))).toList =
      '\x7b' :: (l.opening.toList ++
        (entriesText l (e :: rest) ++ (l.closing.toList ++ ['\x7d']))) := by
  simp [renderIn, entriesText]

theorem scalarStart_spec (h : isScalarStart c = true) :
    (c ≠ '"' ∧ c ≠ '[' ∧ c ≠ '\x7b') ∧ isGap c = false ∧ c ≠ ']' ∧ c ≠ Char.ofNat 0xFEFF := by
  refine ⟨⟨?_, ?_, ?_⟩, ?_, ?_, ?_⟩
  case refine_4 =>
    by_contra hgap
    simp only [isGap, Bool.not_eq_false, Bool.or_eq_true, beq_iff_eq] at hgap
    obtain ((rfl | rfl) | rfl) | rfl := hgap
    all_goals exact absurd h (by decide)
  all_goals
    rintro rfl
    exact absurd h (by decide)

theorem numberEnds_cons (h : isDigit c = false ∧ c ≠ '.' ∧ c ≠ 'e' ∧ c ≠ 'E')
    (cs : List Char) : NumberEnds (c :: cs) := by
  rintro _ ⟨⟩
  exact h

theorem numberEnds_close (hgap : Gap gap) (h : isDigit c = false ∧ c ≠ '.' ∧ c ≠ 'e' ∧ c ≠ 'E') :
    NumberEnds (gap ++ c :: rest) := by
  cases gap with
  | nil => exact numberEnds_cons h _
  | cons c' cs =>
    have hc := hgap c' List.mem_cons_self
    simp only [isGap, Bool.or_eq_true, beq_iff_eq] at hc
    obtain ((rfl | rfl) | rfl) | rfl := hc
    all_goals exact numberEnds_cons (by decide) _

/-- A text that begins as a scalar does is read as one. -/
theorem gives_scalarText {j : Json} (hstart : ∃ c ∈ text.head?, isScalarStart c = true)
    (hfuel : 2 * text.length ≤ fuel) (h : Gives readScalar (text ++ rest) j rest) :
    Gives (readValue fuel) (text ++ rest) j rest := by
  obtain ⟨c, hhead, hc⟩ := hstart
  obtain ⟨cs, rfl⟩ := List.head?_eq_some_iff.1 hhead
  obtain ⟨f, rfl⟩ := Nat.exists_eq_add_of_le' (show 1 ≤ fuel by simp at hfuel; omega)
  refine gives_scalar (fun c' hc' => ?_) h
  obtain rfl := Option.some.inj hc'
  exact (scalarStart_spec hc).1

/-- What is printed for a value begins with no gap, ends no list and marks no encoding. -/
theorem render_head (l : Layout) {j : Json} (h : j.Short) : ∃ c cs,
    (renderIn l j).toList = c :: cs ∧ isGap c = false ∧ c ≠ ']' ∧ c ≠ Char.ofNat 0xFEFF := by
  have hscalar : ∀ {text : List Char}, (∃ c ∈ text.head?, isScalarStart c = true) → ∃ c cs,
      text = c :: cs ∧ isGap c = false ∧ c ≠ ']' ∧ c ≠ Char.ofNat 0xFEFF := by
    rintro text ⟨c, hhead, hc⟩
    obtain ⟨cs, hcs⟩ := List.head?_eq_some_iff.1 hhead
    exact ⟨c, cs, hcs, (scalarStart_spec hc).2⟩
  match j, h with
  | .null, _ => exact ⟨'n', _, by rw [renderIn]; rfl, rfl, by decide⟩
  | .bool false, _ => exact ⟨'f', _, by rw [renderIn]; rfl, rfl, by decide⟩
  | .bool true, _ => exact ⟨'t', _, by rw [renderIn]; rfl, rfl, by decide⟩
  | .int n, h => exact hscalar (scalarStart_int h)
  | .float x, _ => exact hscalar (scalarStart_float x)
  | .text s, _ => exact ⟨'"', _, quotedText_toList s, rfl, by decide⟩
  | .list [], _ => exact ⟨'[', _, by rw [renderIn]; rfl, rfl, by decide⟩
  | .list (j :: js), _ => exact ⟨'[', _, renderList_toList j js, rfl, by decide⟩
  | .object [], _ => exact ⟨'\x7b', _, by rw [renderIn]; rfl, rfl, by decide⟩
  | .object (e :: rest), _ => exact ⟨'\x7b', _, renderObject_toList e rest, rfl, by decide⟩

theorem itemsText_head (l : Layout) {j : Json} (h : j.Short) (js : List Json) :
    ∃ c cs, itemsText l (j :: js) = c :: cs ∧ isGap c = false ∧ c ≠ ']' := by
  obtain ⟨c, cs, hhead, hgap, hclose, -⟩ := render_head l.inner h
  exact ⟨c, _, by rw [itemsText, hhead, List.cons_append], hgap, hclose⟩

theorem entriesText_head (l : Layout) (e : String × Json) (rest : List (String × Json)) :
    ∃ cs, entriesText l (e :: rest) = '"' :: cs :=
  ⟨_, by rw [entriesText, quotedText_toList]; rfl⟩

mutual

/-- **What is printed for a value is read as the value**, with two steps a character; of two entries with
one name the later counts. -/
theorem gives_render (l : Layout) (hl : l.Blank) : (j : Json) → j.Short → ∀ fuel,
    2 * (renderIn l j).toList.length ≤ fuel → ∀ rest, NumberEnds rest →
      Gives (readValue fuel) ((renderIn l j).toList ++ rest) j.settled rest
  | .null => by
    intro _ fuel hfuel rest _
    rw [renderIn] at hfuel ⊢
    exact gives_scalarText ⟨'n', rfl, rfl⟩ hfuel fun p => ⟨p + 4, rfl⟩
  | .bool b => by
    intro _ fuel hfuel rest _
    rw [renderIn] at hfuel ⊢
    cases b with
    | false => exact gives_scalarText ⟨'f', rfl, rfl⟩ hfuel fun p => ⟨p + 5, rfl⟩
    | true => exact gives_scalarText ⟨'t', rfl, rfl⟩ hfuel fun p => ⟨p + 4, rfl⟩
  | .int n => by
    intro h fuel hfuel rest hends
    exact gives_scalarText (scalarStart_int h) hfuel (readScalar_int h hends)
  | .float x => by
    intro _ fuel hfuel rest hends
    exact gives_scalarText (scalarStart_float x) hfuel (readScalar_float x hends)
  | .text s => by
    intro _ fuel hfuel rest _
    rw [renderIn, quotedText_toList] at hfuel ⊢
    obtain ⟨f, rfl⟩ := Nat.exists_eq_add_of_le' (show 1 ≤ fuel by simp at hfuel; omega)
    have htext := gives_text f s.toList rest
    rw [String.ofList_toList] at htext
    simpa [settled] using htext
  | .list [] => by
    intro _ fuel hfuel rest _
    obtain ⟨f, rfl⟩ := Nat.exists_eq_add_of_le' (show 1 ≤ fuel by simp [renderIn] at hfuel; omega)
    exact fun p => ⟨p + 2, by rw [renderIn]; rfl⟩
  | .list (j :: js) => by
    intro h fuel hfuel rest _
    rw [renderList_toList] at hfuel ⊢
    obtain ⟨f, rfl⟩ := Nat.exists_eq_add_of_le' (show 1 ≤ fuel by simp at hfuel; omega)
    have hitems := gives_renderItems l hl (j :: js) (by simp) h f (by simp at hfuel; omega) _ rest
      hl.closing
    obtain ⟨c, cs, hhead, hgap, hclose⟩ := itemsText_head l h.1 js
    rw [hhead] at hitems ⊢
    have hlist := gives_list hl.opening (begins_cons hgap _) (by simp [hclose])
      hitems
    simpa [settled] using hlist
  | .object [] => by
    intro _ fuel hfuel rest _
    obtain ⟨f, rfl⟩ := Nat.exists_eq_add_of_le' (show 1 ≤ fuel by simp [renderIn] at hfuel; omega)
    exact fun p => ⟨p + 2, by rw [renderIn]; rfl⟩
  | .object (e :: es) => by
    intro h fuel hfuel rest _
    rw [renderObject_toList] at hfuel ⊢
    obtain ⟨f, rfl⟩ := Nat.exists_eq_add_of_le' (show 1 ≤ fuel by simp at hfuel; omega)
    have hentries := gives_renderEntries l hl (e :: es) (by simp) h f (by simp at hfuel; omega) _
      rest hl.closing
    obtain ⟨cs, hhead⟩ := entriesText_head l e es
    rw [hhead] at hentries ⊢
    have hobject := gives_object hl.opening (begins_cons rfl _) (by simp) hentries
    simpa [settled] using hobject

/-- What is printed for the items of a list is read as the items. -/
theorem gives_renderItems (l : Layout) (hl : l.Blank) : (items : List Json) → items ≠ [] →
    ShortAll items → ∀ fuel, 2 * (itemsText l items).length < fuel → ∀ gap rest, Gap gap →
      Gives (readItems fuel) (itemsText l items ++ (gap ++ ']' :: rest)) (settledAll items) rest
  | [] => fun h => absurd rfl h
  | [j] => by
    intro _ h fuel hfuel gap rest hgap
    obtain ⟨f, rfl⟩ := Nat.exists_eq_add_of_le' (show 1 ≤ fuel by omega)
    have hj := gives_render l.inner hl j h.1 f (by simp [itemsText, renderRest] at hfuel; omega)
      (gap ++ ']' :: rest) (numberEnds_close hgap (by decide))
    simpa [itemsText, renderRest, settledAll] using gives_items_last hgap hj
  | j :: j' :: js => by
    intro _ h fuel hfuel gap rest hgap
    obtain ⟨between, hbetween, hblank⟩ := hl.between
    have htext : itemsText l (j :: j' :: js) =
        (renderIn l.inner j).toList ++ ',' :: (between ++ itemsText l (j' :: js)) := by
      rw [itemsText, renderRest_toList, hbetween, List.cons_append]
    rw [htext] at hfuel ⊢
    obtain ⟨f, rfl⟩ := Nat.exists_eq_add_of_le' (show 1 ≤ fuel by omega)
    have hrest := gives_renderItems l hl (j' :: js) (by simp) h.2 f (by simp at hfuel; omega) gap
      rest hgap
    have hj := gives_render l.inner hl j h.1 f (by simp at hfuel; omega)
      (',' :: (between ++ (itemsText l (j' :: js) ++ (gap ++ ']' :: rest))))
      (numberEnds_cons (by decide) _)
    obtain ⟨c, cs, hhead, hc, -⟩ := itemsText_head l h.2.1 js
    rw [hhead] at hj hrest ⊢
    simpa [settledAll] using gives_items_next hblank (begins_cons hc _) hj hrest

/-- What is printed for the entries of an object is read as the entries. -/
theorem gives_renderEntries (l : Layout) (hl : l.Blank) : (entries : List (String × Json)) →
    entries ≠ [] → ShortEntries entries → ∀ fuel, 2 * (entriesText l entries).length < fuel →
      ∀ gap rest, Gap gap →
        Gives (readEntries fuel) (entriesText l entries ++ (gap ++ '\x7d' :: rest))
          (settledEntries entries) rest
  | [] => fun h => absurd rfl h
  | [(k, j)] => by
    intro _ h fuel hfuel gap rest hgap
    obtain ⟨f, rfl⟩ := Nat.exists_eq_add_of_le' (show 1 ≤ fuel by omega)
    have hj := gives_render l.inner hl j h.1 f
      (by simp [entriesText, renderEntries] at hfuel; omega)
      (gap ++ '\x7d' :: rest) (numberEnds_close hgap (by decide))
    obtain ⟨c, cs, hhead, hc, -⟩ := render_head l.inner h.1
    rw [hhead] at hj
    have hentries := gives_entries_last k hgap (begins_cons hc _) hj
    simpa [entriesText, renderEntries, quotedText_toList, hhead, settledEntries] using hentries
  | (k, j) :: e :: es => by
    intro _ h fuel hfuel gap rest hgap
    obtain ⟨between, hbetween, hblank⟩ := hl.between
    have htext : entriesText l ((k, j) :: e :: es) =
        '"' :: (k.toList.flatMap escapeChar ++ '"' :: ':' :: ' ' ::
          ((renderIn l.inner j).toList ++ ',' :: (between ++ entriesText l (e :: es)))) := by
      rw [entriesText, renderEntries_toList, hbetween, quotedText_toList]
      simp
    rw [htext] at hfuel ⊢
    obtain ⟨f, rfl⟩ := Nat.exists_eq_add_of_le' (show 1 ≤ fuel by omega)
    have hrest := gives_renderEntries l hl (e :: es) (by simp) h.2 f (by simp at hfuel; omega) gap
      rest hgap
    have hj := gives_render l.inner hl j h.1 f (by simp at hfuel; omega)
      (',' :: (between ++ (entriesText l (e :: es) ++ (gap ++ '\x7d' :: rest))))
      (numberEnds_cons (by decide) _)
    obtain ⟨c, cs, hhead, hc, -⟩ := render_head l.inner h.1
    obtain ⟨cs', hhead'⟩ := entriesText_head l e es
    rw [hhead] at hj ⊢
    rw [hhead'] at hj hrest ⊢
    simpa [settledEntries] using gives_entries_next k hblank (begins_cons rfl _) (begins_cons hc _) hj hrest

end

/-! ## Whole texts -/

/-- **What is printed is read again**, with the later of two entries with one name. -/
theorem read_settled {unit : Option String} (hunit : ∀ s ∈ unit, Gap s.toList) {j : Json}
    (h : j.Short) : read (j.render unit) = .ok j.settled := by
  obtain ⟨c, cs, hhead, hgap, -, hmark⟩ := render_head ⟨unit, 0⟩ h
  obtain ⟨p₁, hskip⟩ := skipGap_gap gap_nil (begins_cons hgap cs) 0
  obtain ⟨p₂, hvalue⟩ := gives_render ⟨unit, 0⟩ hunit j h
    (2 * (j.render unit).toList.length + 2) (Nat.le_add_right _ 2) [] (by rintro _ ⟨⟩) p₁
  have htext : (j.render unit).toList = c :: cs := hhead
  rw [List.append_nil, hhead, htext] at hvalue
  rw [read]
  simp only [htext]
  rw [if_neg (by simpa using hmark), show Cursor.skipGap ⟨0, c :: cs⟩ = ⟨p₁, c :: cs⟩ from hskip,
    hvalue]
  rfl

/-- **What is printed is read back as itself**, if it can be read at all. -/
theorem read_render {unit : Option String} (hunit : ∀ s ∈ unit, Gap s.toList) {j : Json}
    (h : j.Readable) : read (j.render unit) = .ok j := by
  obtain ⟨hshort, hsettled⟩ := Readable.settled_eq j h
  rw [read_settled hunit hshort, hsettled]

theorem read_compact {j : Json} (h : j.Readable) : read j.compact = .ok j :=
  read_render (fun s hs => absurd hs (Option.not_mem_none s)) h

theorem read?_compact {j : Json} (h : j.Readable) : read? j.compact = some j := by
  rw [read?, read_compact h]
  rfl

/-! ## Whatever is read can be read -/

theorem isDigit_of_wholePart {cs : List Char} (h : c ∈ wholePart cs) : isDigit c = true := by
  unfold wholePart at h
  split at h
  · rw [List.mem_singleton.1 h]
    rfl
  · exact List.all_eq_true.1 List.all_takeWhile c h

theorem ofDigits_wholePart (cs : List Char) :
    ofDigits (digitValues (wholePart cs)) < 10 ^ (wholePart cs).length := by
  have hdigits : ∀ d ∈ digitValues (wholePart cs), d < 10 := by
    intro d hd
    obtain ⟨c, hc, rfl⟩ := List.mem_map.1 hd
    have hdigit := isDigit_of_wholePart hc
    simp only [isDigit, Bool.and_eq_true, decide_eq_true_eq] at hdigit
    have hnine : c.toNat ≤ '9'.toNat := hdigit.2
    rw [show '9'.toNat = 57 from rfl] at hnine
    omega
  have hlt := ofDigits_lt hdigits
  rwa [digitValues, List.length_map] at hlt

theorem natAbs_signed (negative : Bool) (n : Nat) : (signed negative n).natAbs = n := by
  cases negative <;> simp [signed]

/-- An integer that is read has no more digits than the reader takes. -/
theorem readable_number {start behind : Cursor} {j : Json}
    (h : readNumber start = .ok (j, behind)) : j.Readable := by
  unfold readNumber at h
  extract_lets negative body whole front fraction last m at h
  split at h
  · cases h
  split at h
  · cases h
    trivial
  split at h
  · rename_i hfraction
    split at h
    · cases h
    · rename_i hlimit
      obtain ⟨rfl, -⟩ := Prod.mk.inj (Except.ok.inj h)
      have hm : m = ofDigits (digitValues whole) := by
        rw [← List.append_nil whole, ← List.isEmpty_iff.1 hfraction]
      rw [Readable, natAbs_signed, hm]
      exact (ofDigits_wholePart _).trans_le (Nat.pow_le_pow_right (by decide) (not_lt.1 hlimit))
  · obtain ⟨rfl, -⟩ := Prod.mk.inj (Except.ok.inj h)
    trivial

theorem readable_scalar {start behind : Cursor} {j : Json}
    (h : readScalar start = .ok (j, behind)) : j.Readable := by
  unfold readScalar at h
  split at h
  · rename_i word j' hword
    cases h
    have hmem := List.mem_of_find?_eq_some hword
    simp only [words, List.mem_cons, Prod.mk.injEq, List.not_mem_nil, or_false] at hmem
    obtain ⟨-, rfl⟩ | ⟨-, rfl⟩ | ⟨-, rfl⟩ | ⟨-, rfl⟩ | ⟨-, rfl⟩ | ⟨-, rfl⟩ := hmem <;> trivial
  · exact readable_number h

/-- What the reader gives within some fuel can be read. -/
structure GivesReadable (fuel : Nat) : Prop where
  value : ∀ start j behind, readValue fuel start = .ok (j, behind) → j.Readable
  items : ∀ start items behind, readItems fuel start = .ok (items, behind) → ReadableAll items
  entries : ∀ start entries behind, readEntries fuel start = .ok (entries, behind) →
    ReadableEntries entries

namespace GivesReadable

variable {fuel : Nat} {start behind : Cursor}

theorem readValue_succ (within : GivesReadable fuel) {j : Json}
    (h : readValue (fuel + 1) start = .ok (j, behind)) : j.Readable := by
  rw [readValue] at h
  split at h
  · obtain ⟨_, -, hvalue⟩ := Attempt.bind_ok h
    cases hvalue
    trivial
  · dsimp only at h
    split at h
    · cases h
      trivial
    · obtain ⟨⟨items, last⟩, hread, hvalue⟩ := Attempt.bind_ok h
      cases hvalue
      exact within.items _ _ _ hread
  · dsimp only at h
    split at h
    · cases h
      exact ⟨List.nodup_nil, trivial⟩
    · obtain ⟨⟨entries, last⟩, hread, hvalue⟩ := Attempt.bind_ok h
      cases hvalue
      obtain ⟨hnodup, hmem⟩ := Entries.ofList_spec entries
      refine ⟨hnodup, (readableEntries_iff _).2 fun e he => ?_⟩
      exact (readableEntries_iff _).1 (within.entries _ _ _ hread) e (hmem e he)
  · exact readable_scalar h

theorem readItems_succ (within : GivesReadable fuel) {items : List Json}
    (h : readItems (fuel + 1) start = .ok (items, behind)) : ReadableAll items := by
  rw [readItems] at h
  obtain ⟨⟨item, last⟩, hread, h⟩ := Attempt.bind_ok h
  dsimp only at h
  split at h
  · cases h
    exact ⟨within.value _ _ _ hread, trivial⟩
  · obtain ⟨⟨others, end_⟩, hothers, h⟩ := Attempt.bind_ok h
    cases h
    exact ⟨within.value _ _ _ hread, within.items _ _ _ hothers⟩
  · cases h

theorem readEntries_succ (within : GivesReadable fuel) {entries : List (String × Json)}
    (h : readEntries (fuel + 1) start = .ok (entries, behind)) : ReadableEntries entries := by
  rw [readEntries] at h
  split at h
  · obtain ⟨⟨cs, named⟩, -, h⟩ := Attempt.bind_ok h
    dsimp only at h
    split at h
    · cases h
    obtain ⟨⟨value, last⟩, hread, h⟩ := Attempt.bind_ok h
    dsimp only at h
    split at h
    · cases h
      exact ⟨within.value _ _ _ hread, trivial⟩
    · obtain ⟨⟨others, end_⟩, hothers, h⟩ := Attempt.bind_ok h
      cases h
      exact ⟨within.value _ _ _ hread, within.entries _ _ _ hothers⟩
    · cases h
  · cases h

end GivesReadable

theorem givesReadable (fuel : Nat) : GivesReadable fuel := by
  induction fuel with
  | zero => exact ⟨by rintro _ _ _ ⟨⟩, by rintro _ _ _ ⟨⟩, by rintro _ _ _ ⟨⟩⟩
  | succ fuel ih =>
    exact ⟨fun _ _ _ h => ih.readValue_succ h, fun _ _ _ h => ih.readItems_succ h,
      fun _ _ _ h => ih.readEntries_succ h⟩

/-- **Whatever has been read can be read.** -/
theorem readable_read {source : String} {j : Json} (h : read source = .ok j) : j.Readable := by
  unfold read at h
  dsimp only at h
  split at h
  · cases h
  obtain ⟨⟨value, behind⟩, hread, h⟩ := Attempt.bind_ok h
  dsimp only at h
  split at h
  · cases h
    exact (givesReadable _).value _ _ _ hread
  · cases h

end WorkflowEngine.Json
