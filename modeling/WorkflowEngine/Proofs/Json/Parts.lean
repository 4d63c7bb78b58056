import WorkflowEngine.Proofs.Json.Literals
import WorkflowEngine.Proofs.Json.Scalars
import WorkflowEngine.Proofs.Json.Steps

/-!
# Pieces in front of the reader

The reader is taken through the pieces of a text with placeholders. Nothing that it takes begins with
a placeholder (`firm_of_readValue`), so behind a gap there is always a character that it can go by,
and what it reads there it reads whatever is put in the place of the placeholders (`Part`). Parts in
brackets and parts in a row are parts again.
-/

namespace WorkflowEngine.Json

open Template

/-! ## Pieces in front of the reader -/

variable {put said : List Char → List Char} {pieces pieces' : List Piece} {p fuel : Nat}
variable {c : Char} {behind : Cursor}

/-- Some pieces do not begin with a placeholder. -/
def Firm (pieces : List Piece) : Prop := ∀ reference rest, pieces ≠ .hole reference :: rest

theorem Firm.char_of_head (firm : Firm pieces) (h : (spell braced pieces).head? = some c) :
    ∃ rest, pieces = .char c :: rest := by
  cases pieces with
  | nil => cases h
  | cons piece rest =>
    cases piece with
    | hole reference => exact absurd rfl (firm reference rest)
    | char d =>
      obtain rfl := Option.some.inj h
      exact ⟨rest, rfl⟩

/-- Pieces that are written with a character in front that is no brace begin with it. -/
theorem char_of_head (h : (spell braced pieces).head? = some c) (hbrace : c ≠ '\x7b') :
    ∃ rest, pieces = .char c :: rest := by
  refine Firm.char_of_head ?_ h
  rintro reference rest rfl
  exact hbrace (Option.some.inj h).symm

/-- What is put in the place of placeholders does not show in front of pieces that begin with none. -/
theorem Firm.head_eq (firm : Firm pieces) (put : List Char → List Char) :
    (spell put pieces).head? = (spell braced pieces).head? := by
  cases pieces with
  | nil => rfl
  | cons piece rest =>
    cases piece with
    | hole reference => exact absurd rfl (firm reference rest)
    | char c => rfl

theorem firm_char (c : Char) (pieces : List Piece) : Firm (.char c :: pieces) := nofun

/-- Some pieces go on with others behind a gap. -/
structure Skips (pieces pieces' : List Piece) : Prop where
  gap : ∃ gap, Gap gap ∧ pieces = gap.map .char ++ pieces'
  begins : Begins (spell braced pieces')

theorem exists_skips (pieces : List Piece) : ∃ pieces', Skips pieces pieces' := by
  induction pieces with
  | nil => exact ⟨[], ⟨[], gap_nil, rfl⟩, nofun⟩
  | cons piece rest ih =>
    cases piece with
    | hole reference => exact ⟨_, ⟨[], gap_nil, rfl⟩, begins_cons rfl _⟩
    | char c =>
      cases hc : isGap c with
      | true =>
        obtain ⟨pieces', ⟨gap, hgap, rfl⟩, hbegins⟩ := ih
        exact ⟨pieces', ⟨c :: gap, List.forall_mem_cons.2 ⟨hc, hgap⟩, rfl⟩, hbegins⟩
      | false => exact ⟨_, ⟨[], gap_nil, rfl⟩, begins_cons hc _⟩

namespace Skips

theorem references (h : Skips pieces pieces') :
    Template.references pieces = Template.references pieces' := by
  obtain ⟨gap, -, rfl⟩ := h.gap
  exact references_chars gap pieces'

theorem tidy (h : Skips pieces pieces') (tidy : Tidy pieces) : Tidy pieces' := by
  obtain ⟨gap, hgap, rfl⟩ := h.gap
  refine tidy.drop fun c hc => ?_
  rintro rfl
  cases hgap _ hc

theorem written (h : Skips pieces pieces') (p : Nat) :
    ∃ p', Cursor.skipGap ⟨p, spell braced pieces⟩ = ⟨p', spell braced pieces'⟩ := by
  obtain ⟨gap, hgap, rfl⟩ := h.gap
  rw [spell_chars]
  exact skipGap_gap hgap h.begins p

theorem filled (h : Skips pieces pieces') (firm : Firm pieces') (put : List Char → List Char)
    (p : Nat) : ∃ p', Cursor.skipGap ⟨p, spell put pieces⟩ = ⟨p', spell put pieces'⟩ := by
  obtain ⟨gap, hgap, rfl⟩ := h.gap
  rw [spell_chars]
  refine skipGap_gap hgap (fun c hc => h.begins c ?_) p
  rwa [← firm.head_eq put]

theorem written_behind (h : Skips pieces pieces') (c : Char) (p : Nat) : ∃ p',
    ((Cursor.mk p (spell braced (.char c :: pieces))).advance 1).skipGap =
      ⟨p', spell braced pieces'⟩ := h.written (p + 1)

theorem filled_behind (h : Skips pieces pieces') (firm : Firm pieces') (put : List Char → List Char)
    (c : Char) (p : Nat) : ∃ p',
    ((Cursor.mk p (spell put (.char c :: pieces))).advance 1).skipGap = ⟨p', spell put pieces'⟩ :=
  h.filled firm put (p + 1)

theorem firm (h : Skips pieces pieces') (firm : Firm pieces') : Firm pieces := by
  obtain ⟨gap, -, rfl⟩ := h.gap
  cases gap with
  | nil => exact firm
  | cons c gap => exact firm_char _ _

end Skips

theorem eq_nil_of_spell (h : spell braced pieces = []) : pieces = [] := by
  cases pieces with
  | nil => rfl
  | cons piece rest => cases piece <;> cases h

/-! ## Parts of a document -/

/-- Some pieces begin with what a reader takes, and go on with other pieces: whatever fits in the
place of the placeholders, the reader takes it as what they say. -/
structure Part {α : Type} (read : Cursor → Except Complaint (α × Cursor))
    (value : (List Char → List Char) → α) (refs : List (List Char)) (pieces pieces' : List Piece) :
    Prop where
  tidy : Tidy pieces'
  references : references pieces = refs ++ references pieces'
  fits : Fits braced (decoded ∘ braced) refs
  reads : ∀ put said, Fits put said refs → Gives read (spell put pieces) (value said)
    (spell put pieces')

theorem Part.congr {α : Type} {read read' : Cursor → Except Complaint (α × Cursor)}
    {value : (List Char → List Char) → α} {refs : List (List Char)}
    (h : Part read value refs pieces pieces')
    (heq : ∀ put p, read' ⟨p, spell put pieces⟩ = read ⟨p, spell put pieces⟩) :
    Part read' value refs pieces pieces' where
  tidy := h.tidy
  references := h.references
  fits := h.fits
  reads := fun put said hfits p => by
    rw [heq]
    exact h.reads put said hfits p

/-! ## No reader begins with a placeholder -/

theorem readEntries_quote {entries : List (String × Json)}
    (hread : readEntries fuel start = .ok (entries, behind)) : start.rest.head? = some '"' := by
  cases fuel with
  | zero => cases hread
  | succ fuel =>
    by_contra hquote
    rw [readEntries_succ, if_neg hquote] at hread
    cases hread

theorem firm_of_readEntries {entries : List (String × Json)}
    (hread : readEntries fuel ⟨p, spell braced pieces⟩ = .ok (entries, behind)) : Firm pieces := by
  obtain ⟨rest, rfl⟩ := char_of_head (readEntries_quote hread) (by decide)
  exact firm_char _ _

theorem firm_of_readValue {j : Json}
    (hread : readValue fuel ⟨p, spell braced pieces⟩ = .ok (j, behind)) : Firm pieces := by
  rintro reference rest rfl
  cases fuel with
  | zero => cases hread
  | succ fuel =>
    -- the second brace is neither the end of an object nor the quote of a name
    rw [readValue_brace rfl, inside] at hread
    have hskip : ((Cursor.mk p (spell braced (.hole reference :: rest))).advance 1).skipGap.rest.head? =
        some '\x7b' := rfl
    rw [hskip, if_neg (by decide)] at hread
    obtain ⟨⟨entries, next⟩, hentries, -⟩ := Attempt.bind_ok hread
    rw [readEntries_quote hentries] at hskip
    cases hskip

theorem firm_of_readItems {items : List Json}
    (hread : readItems fuel ⟨p, spell braced pieces⟩ = .ok (items, behind)) : Firm pieces := by
  cases fuel with
  | zero => cases hread
  | succ fuel =>
    rw [readItems_succ] at hread
    obtain ⟨⟨item, next⟩, hitem, -⟩ := Attempt.bind_ok hread
    exact firm_of_readValue hitem

/-! ## Parts in brackets -/

section Inside

variable {α : Type} {close : Char} {empty j : Json} {whole : α → Json}
variable {reader : Cursor → Except Complaint (α × Cursor)}

theorem Part.inside_empty (hslash : close ≠ '\\')
    (tidy : Tidy pieces) (hskip : Skips pieces (.char close :: pieces')) (c : Char) :
    Part (inside close empty whole reader) (fun _ => empty) [] (.char c :: pieces) pieces' where
  tidy := (hskip.tidy tidy).tail hslash
  references := hskip.references
  fits := fun _ hmem => absurd hmem List.not_mem_nil
  reads := fun put said _ p => by
    obtain ⟨p', hinside⟩ := hskip.filled_behind (firm_char _ _) put c p
    have hend : (spell put (.char close :: pieces')).head? = some close := rfl
    refine ⟨p' + 1, ?_⟩
    rw [inside, hinside, if_pos hend]
    rfl

theorem Part.inside {value : (List Char → List Char) → α} {refs : List (List Char)}
    {mid : List Piece} (h : Part reader value refs mid pieces') (hskip : Skips pieces mid)
    (firm : Firm mid) (hclose : (spell braced mid).head? ≠ some close) (c : Char) :
    Part (Json.inside close empty whole reader) (whole ∘ value) refs (.char c :: pieces) pieces' where
  tidy := h.tidy
  references := hskip.references.trans h.references
  fits := h.fits
  reads := fun put said hfits p => by
    obtain ⟨p', hinside⟩ := hskip.filled_behind firm put c p
    obtain ⟨q, hread⟩ := h.reads put said hfits p'
    refine ⟨q, ?_⟩
    rw [Json.inside, hinside, if_neg (by rwa [firm.head_eq put]), hread]
    rfl

/-- What is read in brackets from pieces is nothing, or some parts that are read behind the gap. -/
theorem inside_cases (hbrace : close ≠ '\x7b')
    (hread : inside close empty whole reader ⟨p, spell braced (.char c :: pieces)⟩ = .ok (j, behind)) :
    (∃ pieces', behind.rest = spell braced pieces' ∧ Skips pieces (.char close :: pieces')) ∨
      ∃ mid parts q, Skips pieces mid ∧ (spell braced mid).head? ≠ some close ∧
        reader ⟨q, spell braced mid⟩ = .ok (parts, behind) := by
  obtain ⟨mid, hskip⟩ := exists_skips pieces
  obtain ⟨q, hinside⟩ := hskip.written_behind c p
  rw [inside, hinside] at hread
  by_cases hend : (spell braced mid).head? = some close
  · obtain ⟨pieces', rfl⟩ := char_of_head hend hbrace
    rw [if_pos hend] at hread
    cases hread
    exact .inl ⟨pieces', rfl, hskip⟩
  · rw [if_neg hend] at hread
    obtain ⟨⟨parts, last⟩, hparts, hlast⟩ := Attempt.bind_ok hread
    obtain ⟨-, rfl⟩ := Prod.mk.injEq .. ▸ Except.ok.inj hlast
    exact .inr ⟨mid, parts, q, hskip, hend, hparts⟩

end Inside

/-! ## What comes behind a part -/

/-- Whether a value is over where the rest begins. -/
def Closes (rest : List Char) : Prop :=
  ∀ c ∈ rest.head?, isGap c = true ∨ c = ',' ∨ c = ']' ∨ c = '\x7d'

theorem Closes.scalarEnds {rest : List Char} (h : Closes rest) : ScalarEnds rest := by
  intro c hc
  rcases h c hc with hgap | rfl | rfl | rfl
  · simp only [isGap, Bool.or_eq_true, beq_iff_eq] at hgap
    obtain ((rfl | rfl) | rfl) | rfl := hgap <;> rfl
  · rfl
  · rfl
  · rfl

theorem Closes.firm (h : Closes (spell braced pieces)) : Firm pieces := by
  rintro reference rest rfl
  rcases h '\x7b' rfl with h | h | h | h <;> cases h

section GoOn

variable {α : Type} {close : Char} {first : α} {all : List α}
variable {reader : Cursor → Except Complaint (List α × Cursor)}

/-- What comes behind a part in pieces is the closing bracket, or a comma and other parts. -/
theorem goOn_cases (hbrace : close ≠ '\x7b')
    (hread : goOn close first reader ⟨p, spell braced pieces⟩ = .ok (all, behind)) :
    (∃ pieces', behind.rest = spell braced pieces' ∧ Skips pieces (.char close :: pieces')) ∨
      ∃ next mid others q, Skips pieces (.char ',' :: next) ∧ Skips next mid ∧
        reader ⟨q, spell braced mid⟩ = .ok (others, behind) := by
  obtain ⟨mid, hskip⟩ := exists_skips pieces
  obtain ⟨q, hgap⟩ := hskip.written p
  rw [goOn, hgap] at hread
  by_cases hend : (spell braced mid).head? = some close
  · obtain ⟨pieces', rfl⟩ := char_of_head hend hbrace
    rw [if_pos hend] at hread
    cases hread
    exact .inl ⟨pieces', rfl, hskip⟩
  rw [if_neg hend] at hread
  by_cases hcomma : (spell braced mid).head? = some ','
  · obtain ⟨next, rfl⟩ := char_of_head hcomma (by decide)
    obtain ⟨mid, hnext⟩ := exists_skips next
    obtain ⟨q', hbehind⟩ := hnext.written_behind ',' q
    rw [if_pos hcomma, hbehind] at hread
    obtain ⟨⟨others, last⟩, hothers, hlast⟩ := Attempt.bind_ok hread
    obtain ⟨-, rfl⟩ := Prod.mk.injEq .. ▸ Except.ok.inj hlast
    exact .inr ⟨next, mid, others, q', hskip, hnext, hothers⟩
  · rw [if_neg hcomma] at hread
    cases hread

/-- A value is over where its closing bracket or a comma comes. -/
theorem goOn_closes (hclose : close = ']' ∨ close = '\x7d') {here : Cursor}
    (hread : goOn close first reader here = .ok (all, behind)) : Closes here.rest := by
  intro c hc
  by_cases hgap : isGap c = true
  · exact .inl hgap
  -- without a gap in front the reader goes by this very character
  obtain ⟨rest, hrest⟩ := List.head?_eq_some_iff.1 hc
  have hskip : here.skipGap.rest.head? = some c := by
    rw [skipGap_rest, hrest, List.dropWhile_cons_of_neg hgap]
    rfl
  rw [goOn, hskip] at hread
  split at hread
  · next hend =>
    rcases hclose with rfl | rfl
    · exact .inr (.inr (.inl (Option.some.inj hend)))
    · exact .inr (.inr (.inr (Option.some.inj hend)))
  · split at hread
    · next hcomma => exact .inr (.inl (Option.some.inj hcomma))
    · cases hread

theorem goOn_last (hskip : Skips pieces (.char close :: pieces')) (put : List Char → List Char)
    (first : α) (p : Nat) : ∃ p', goOn close first reader ⟨p, spell put pieces⟩ =
      .ok ([first], ⟨p', spell put pieces'⟩) := by
  obtain ⟨q, hgap⟩ := hskip.filled (firm_char _ _) put p
  have hend : (spell put (.char close :: pieces')).head? = some close := rfl
  exact ⟨q + 1, by rw [goOn, hgap, if_pos hend]; rfl⟩

theorem goOn_next {next mid : List Piece} {others : List α} {rest : List Char} (hclose : close ≠ ',')
    (hcomma : Skips pieces (.char ',' :: next)) (hskip : Skips next mid) (firm : Firm mid)
    (hothers : Gives reader (spell put mid) others rest) (first : α) (p : Nat) :
    ∃ p', goOn close first reader ⟨p, spell put pieces⟩ = .ok (first :: others, ⟨p', rest⟩) := by
  obtain ⟨q, hgap⟩ := hcomma.filled (firm_char _ _) put p
  obtain ⟨q', hbehind⟩ := hskip.filled_behind firm put ',' q
  obtain ⟨p', hread⟩ := hothers q'
  have hhead : (spell put (.char ',' :: next)).head? = some ',' := rfl
  refine ⟨p', ?_⟩
  rw [goOn, hgap, if_neg (by rw [hhead]; exact fun h => hclose (Option.some.inj h).symm), if_pos hhead,
    hbehind, hread]
  rfl

end GoOn

/-! ## Parts in a row -/

section Followed

variable {α : Type} {close : Char} {all : List α}
variable {read : Cursor → Except Complaint (α × Cursor)}
variable {more : Cursor → Except Complaint (List α × Cursor)}
variable {value : (List Char → List Char) → α} {values : (List Char → List Char) → List α}
variable {refs refs' : List (List Char)} {mid : List Piece}

theorem Part.last (h : Part read value refs pieces mid) (hslash : close ≠ '\\')
    (hskip : Skips mid (.char close :: pieces')) :
    Part (followed close read more) (fun said => [value said]) refs pieces pieces' where
  tidy := (hskip.tidy h.tidy).tail hslash
  references := h.references.trans (congrArg (refs ++ ·) hskip.references)
  fits := h.fits
  reads := fun put said hfits p => by
    obtain ⟨q, hread⟩ := h.reads put said hfits p
    rw [followed, hread]
    exact goOn_last hskip put (value said) q

theorem Part.next {behind next : List Piece} (h : Part read value refs pieces mid) (hclose : close ≠ ',')
    (hcomma : Skips mid (.char ',' :: behind)) (hskip : Skips behind next) (firm : Firm next)
    (hmore : Part more values refs' next pieces') :
    Part (followed close read more) (fun said => value said :: values said) (refs ++ refs') pieces
      pieces' where
  tidy := hmore.tidy
  references := by
    have hbehind : Template.references mid = Template.references behind := hcomma.references
    rw [h.references, hbehind, hskip.references, hmore.references, List.append_assoc]
  fits := List.forall_mem_append.2 ⟨h.fits, hmore.fits⟩
  reads := fun put said hfits p => by
    obtain ⟨hfirst, hothers⟩ := List.forall_mem_append.1 hfits
    obtain ⟨q, hread⟩ := h.reads put said hfirst p
    rw [followed, hread]
    exact goOn_next hclose hcomma hskip firm (hmore.reads put said hothers) (value said) q

/-- What is read in a row from pieces is a part that the closing bracket follows, or a part that a
comma and other parts follow. -/
theorem followed_cases (hclose : close = ']' ∨ close = '\x7d')
    (hread : followed close read more ⟨p, spell braced pieces⟩ = .ok (all, behind)) :
    ∃ first here, read ⟨p, spell braced pieces⟩ = .ok (first, here) ∧ Closes here.rest ∧
      ∀ mid, here.rest = spell braced mid →
        (∃ pieces', behind.rest = spell braced pieces' ∧ Skips mid (.char close :: pieces')) ∨
          ∃ next last others q, Skips mid (.char ',' :: next) ∧ Skips next last ∧
            more ⟨q, spell braced last⟩ = .ok (others, behind) := by
  obtain ⟨⟨first, here⟩, hfirst, hread⟩ := Attempt.bind_ok hread
  refine ⟨first, here, hfirst, goOn_closes hclose hread, fun mid hmid => ?_⟩
  obtain ⟨q, rest⟩ := here
  obtain rfl : rest = spell braced mid := hmid
  exact goOn_cases (by rcases hclose with rfl | rfl <;> decide) hread

end Followed

end WorkflowEngine.Json
