import WorkflowEngine.Proofs.Json.LineEnds

/-!
# The reader step by step

What the reader does with a value hangs on the character in front: between brackets it reads nothing
or some parts (`inside`), and of parts in a row it reads one and what comes behind it (`followed`).
Whatever it reads it reads with more fuel too (`below_succ`), so how much it is given makes no
difference to a text that is read to its end (`readValue_fuel`).
-/

namespace WorkflowEngine.Json

variable {fuel : Nat} {start behind : Cursor}

/-! ## Brackets -/

/-- What is read between brackets: nothing, or some parts. -/
def inside {α : Type} (close : Char) (empty : Json) (whole : α → Json)
    (reader : Cursor → Except Complaint (α × Cursor)) (start : Cursor) :
    Except Complaint (Json × Cursor) :=
  if (start.advance 1).skipGap.rest.head? = some close then
    .ok (empty, (start.advance 1).skipGap.advance 1)
  else do
    let (parts, behind) ← reader (start.advance 1).skipGap
    pure (whole parts, behind)

theorem readValue_quote (h : start.rest.head? = some '"') : readValue (fuel + 1) start = (do
    let (cs, behind) ← readText start.place (start.place + 1) start.rest.tail
    pure (.text (String.ofList cs), behind)) := by
  rw [readValue_succ, if_pos h]

theorem readValue_bracket (h : start.rest.head? = some '[') : readValue (fuel + 1) start =
    inside ']' (.list []) .list (readItems fuel) start := by
  rw [readValue_succ, if_neg (by rw [h]; decide), if_pos h]
  rfl

theorem readValue_brace (h : start.rest.head? = some '\x7b') : readValue (fuel + 1) start =
    inside '\x7d' (.object []) (fun entries => .object (Entries.ofList entries)) (readEntries fuel)
      start := by
  rw [readValue_succ, if_neg (by rw [h]; decide), if_neg (by rw [h]; decide), if_pos h]
  rfl

theorem readValue_other (hquote : start.rest.head? ≠ some '"') (hbracket : start.rest.head? ≠ some '[')
    (hbrace : start.rest.head? ≠ some '\x7b') : readValue (fuel + 1) start = readScalar start := by
  rw [readValue_succ, if_neg hquote, if_neg hbracket, if_neg hbrace]

/-! ## Rows -/

/-- A part is read, and what comes behind it up to the closing bracket. -/
def followed {α : Type} (close : Char) (read : Cursor → Except Complaint (α × Cursor))
    (more : Cursor → Except Complaint (List α × Cursor)) (start : Cursor) :
    Except Complaint (List α × Cursor) := do
  let (first, behind) ← read start
  goOn close first more behind

theorem readItems_followed (fuel : Nat) :
    readItems (fuel + 1) = followed ']' (readValue fuel) (readItems fuel) :=
  funext (readItems_succ fuel)

/-- Reads a name and the value behind the colon. -/
def readEntry (fuel : Nat) (start : Cursor) : Except Complaint ((String × Json) × Cursor) :=
  if start.rest.head? = some '"' then do
    let (cs, behind) ← readText start.place (start.place + 1) start.rest.tail
    if behind.skipGap.rest.head? = some ':' then do
      let (value, behind) ← readValue fuel (behind.skipGap.advance 1).skipGap
      pure ((String.ofList cs, value), behind)
    else behind.skipGap.fail .colon
  else start.fail .name

theorem readEntry_quote (h : start.rest.head? = some '"') : readEntry fuel start = (do
    let (cs, behind) ← readText start.place (start.place + 1) start.rest.tail
    if behind.skipGap.rest.head? = some ':' then do
      let (value, behind) ← readValue fuel (behind.skipGap.advance 1).skipGap
      pure ((String.ofList cs, value), behind)
    else behind.skipGap.fail .colon) := by
  rw [readEntry, if_pos h]

theorem readEntries_followed (fuel : Nat) :
    readEntries (fuel + 1) = followed '\x7d' (readEntry fuel) (readEntries fuel) := by
  funext start
  rw [readEntries_succ, followed, readEntry]
  split
  · simp only [bind_assoc]
    refine bind_congr fun ⟨cs, behind⟩ => ?_
    dsimp only
    split
    · simp only [bind_assoc, pure_bind]
    · rfl
  · rfl

/-! ## More fuel -/

/-- Whatever the first reader reads, the second reads too. -/
def Below {α : Type} (read read' : Cursor → Except Complaint (α × Cursor)) : Prop :=
  ∀ start r, read start = .ok r → read' start = .ok r

theorem Below.bind {α β : Type} {a a' : Except Complaint (α × Cursor)}
    {next next' : α × Cursor → Except Complaint (β × Cursor)} {r : β × Cursor}
    (h : ∀ r, a = .ok r → a' = .ok r) (hnext : ∀ r r', next r = .ok r' → next' r = .ok r')
    (hread : a >>= next = .ok r) : a' >>= next' = .ok r := by
  obtain ⟨first, hfirst, hread⟩ := Attempt.bind_ok hread
  rw [h first hfirst]
  exact hnext first r hread

theorem Below.inside {α : Type} {close : Char} {empty : Json} {whole : α → Json}
    {read read' : Cursor → Except Complaint (α × Cursor)} (h : Below read read') :
    Below (Json.inside close empty whole read) (Json.inside close empty whole read') := by
  intro start r hread
  unfold Json.inside at hread ⊢
  split at hread
  · next hend => rw [if_pos hend, hread]
  · next hend =>
    rw [if_neg hend]
    exact Below.bind (h _) (fun _ _ h => h) hread

theorem Below.followed {α : Type} {close : Char} {read read' : Cursor → Except Complaint (α × Cursor)}
    {more more' : Cursor → Except Complaint (List α × Cursor)} (h : Below read read')
    (hmore : Below more more') :
    Below (Json.followed close read more) (Json.followed close read' more') := by
  intro start r hread
  refine Below.bind (h start) (fun first r hread => ?_) hread
  dsimp only at hread ⊢
  unfold goOn at hread ⊢
  split at hread
  · next hend => rw [if_pos hend, hread]
  next hend =>
  rw [if_neg hend]
  split at hread
  · next hcomma =>
    rw [if_pos hcomma]
    exact Below.bind (hmore _) (fun _ _ h => h) hread
  · cases hread

theorem Below.entry {fuel' : Nat} (h : Below (readValue fuel) (readValue fuel')) :
    Below (readEntry fuel) (readEntry fuel') := by
  intro start r hread
  unfold readEntry at hread ⊢
  split at hread
  · next hquote =>
    rw [if_pos hquote]
    refine Below.bind (fun _ h => h) (fun name r hread => ?_) hread
    dsimp only at hread ⊢
    split at hread
    · next hcolon =>
      rw [if_pos hcolon]
      exact Below.bind (h _) (fun _ _ h => h) hread
    · cases hread
  · cases hread

/-- **What is read is read with more fuel too.** -/
theorem below_succ (fuel : Nat) : Below (readValue fuel) (readValue (fuel + 1)) ∧
    Below (readItems fuel) (readItems (fuel + 1)) ∧
    Below (readEntries fuel) (readEntries (fuel + 1)) := by
  induction fuel with
  | zero => exact ⟨nofun, nofun, nofun⟩
  | succ fuel ih =>
    obtain ⟨value, items, entries⟩ := ih
    refine ⟨fun start r hread => ?_, ?_, ?_⟩
    · by_cases hquote : start.rest.head? = some '"'
      · rw [readValue_quote hquote] at hread ⊢
        exact hread
      by_cases hbracket : start.rest.head? = some '['
      · rw [readValue_bracket hbracket] at hread ⊢
        exact items.inside start r hread
      by_cases hbrace : start.rest.head? = some '\x7b'
      · rw [readValue_brace hbrace] at hread ⊢
        exact entries.inside start r hread
      · rw [readValue_other hquote hbracket hbrace] at hread ⊢
        exact hread
    · rw [readItems_followed, readItems_followed]
      exact value.followed items
    · rw [readEntries_followed, readEntries_followed]
      exact value.entry.followed entries

theorem readValue_below {fuel' : Nat} (h : fuel ≤ fuel') : Below (readValue fuel) (readValue fuel') := by
  induction h with
  | refl => exact fun _ _ h => h
  | step _ ih => exact fun start r hread => (below_succ _).1 start r (ih start r hread)

/-! ## Whole texts -/

theorem unified_refl (cs : List Char) : Unified cs cs := by
  induction cs with
  | nil => exact .nil
  | cons c cs ih => exact .char c ih

/-- Fuel beyond what the text needs makes no difference to a value that the text ends with. -/
theorem readValue_fuel {fuel' : Nat} {j : Json} (hread : readValue fuel start = .ok (j, behind))
    (hend : behind.skipGap.rest = []) (hfuel' : 2 * start.rest.length + 2 ≤ fuel') :
    ∃ behind', readValue fuel' start = .ok (j, behind') ∧ behind'.skipGap.rest = [] := by
  -- with both amounts together it is read too, and that is as much as the text needs
  have hread' := readValue_below (Nat.le_add_right fuel fuel') start _ hread
  have halike := (readsAlike (fuel + fuel')).1 fuel' start start (unified_refl _) (by omega) hfuel'
  rw [hread'] at halike
  generalize readValue fuel' start = reading at halike ⊢
  cases halike with
  | read v unified => exact ⟨_, rfl, unified.skipGap_rest.nil_iff.1 hend⟩

/-- A text is read as a value if it ends with it, but for a gap. -/
theorem read_ok_iff {cs : List Char} {j : Json} : read (String.ofList cs) = .ok j ↔
    cs.head? ≠ some (Char.ofNat 0xFEFF) ∧ ∃ behind,
      readValue (2 * cs.length + 2) (Cursor.skipGap ⟨0, cs⟩) = .ok (j, behind) ∧
      behind.skipGap.rest = [] := by
  unfold read
  simp only [String.toList_ofList, beq_iff_eq]
  by_cases hmark : cs.head? = some (Char.ofNat 0xFEFF)
  · rw [if_pos hmark]
    exact iff_of_false nofun fun h => h.1 hmark
  rw [if_neg hmark]
  constructor
  · intro h
    obtain ⟨⟨v, behind⟩, hvalue, h⟩ := Attempt.bind_ok h
    dsimp only at h
    split at h
    · next hend =>
      obtain rfl := Except.ok.inj h
      exact ⟨hmark, behind, hvalue, List.isEmpty_iff.1 hend⟩
    · cases h
  · rintro ⟨-, behind, hvalue, hend⟩
    rw [hvalue, Attempt.ok_bind]
    dsimp only
    rw [hend]
    rfl

end WorkflowEngine.Json
