import WorkflowEngine.Proofs.Json.Parts

/-!
# Documents with placeholders

A text of JSON in which every placeholder stands between quotes is a document whose texts have
placeholders among their characters (`Document`). Between the quotes anything may be put in the place
of the placeholders that is made up of whole units: the text is then read as the same document, with
what was put there in its texts (`exists_document`). The reader is taken through the pieces of the
text once, and what it does hangs on nothing that is put in the place of a placeholder.
-/

namespace WorkflowEngine.Json

open Template

/-! ## Documents -/

/-- A JSON value in whose texts there are placeholders among the characters. -/
inductive Document where
  | scalar (j : Json)
  | text (parts : List Piece)
  | list (items : List Document)
  | object (entries : List (List Piece × Document))

namespace Document

mutual

/-- The value of a document, with what is said in the place of each placeholder. -/
def value (said : List Char → List Char) : Document → Json
  | scalar j => j
  | text parts => .text (String.ofList (spell said parts))
  | list items => .list (values said items)
  | object entries => .object (Entries.ofList (entryValues said entries))

/-- The values of some documents. -/
def values (said : List Char → List Char) : List Document → List Json
  | [] => []
  | d :: ds => value said d :: values said ds

/-- The names and values of some entries. -/
def entryValues (said : List Char → List Char) :
    List (List Piece × Document) → List (String × Json)
  | [] => []
  | (name, d) :: rest => (String.ofList (spell said name), value said d) :: entryValues said rest

end

mutual

/-- The references of the placeholders in a document, in their order. -/
def references : Document → List (List Char)
  | scalar _ => []
  | text parts => Template.references parts
  | list items => itemReferences items
  | object entries => entryReferences entries

/-- The references in some documents. -/
def itemReferences : List Document → List (List Char)
  | [] => []
  | d :: ds => references d ++ itemReferences ds

/-- The references in some entries. -/
def entryReferences : List (List Piece × Document) → List (List Char)
  | [] => []
  | (name, d) :: rest => Template.references name ++ references d ++ entryReferences rest

end

end Document

/-! ## Step by step -/

variable {pieces pieces' : List Piece} {p fuel : Nat} {behind : Cursor}

/-- What readers take from tidy pieces, with some fuel, is a part of a document. -/
structure Finds (fuel : Nat) : Prop where
  value : ∀ {pieces p j behind}, Tidy pieces →
    readValue fuel ⟨p, spell braced pieces⟩ = .ok (j, behind) → Closes behind.rest →
    ∃ d pieces', behind.rest = spell braced pieces' ∧
      Part (readValue fuel) (Document.value · d) d.references pieces pieces'
  items : ∀ {pieces p js behind}, Tidy pieces →
    readItems fuel ⟨p, spell braced pieces⟩ = .ok (js, behind) →
    ∃ ds pieces', behind.rest = spell braced pieces' ∧
      Part (readItems fuel) (Document.values · ds) (Document.itemReferences ds) pieces pieces'
  entries : ∀ {pieces p es behind}, Tidy pieces →
    readEntries fuel ⟨p, spell braced pieces⟩ = .ok (es, behind) →
    ∃ ds pieces', behind.rest = spell braced pieces' ∧
      Part (readEntries fuel) (Document.entryValues · ds) (Document.entryReferences ds) pieces pieces'

theorem Closes.filled (h : Closes (spell braced pieces)) (put : List Char → List Char) :
    Closes (spell put pieces) := fun c hc => h c (by rwa [← h.firm.head_eq put])

theorem Part.scalar {j : Json} (tidy : Tidy pieces) (hquote : (spell braced pieces).head? ≠ some '"')
    (hbracket : (spell braced pieces).head? ≠ some '[')
    (hbrace : (spell braced pieces).head? ≠ some '\x7b')
    (hread : readValue (fuel + 1) ⟨p, spell braced pieces⟩ = .ok (j, behind))
    (hcloses : Closes behind.rest) : ∃ pieces', behind.rest = spell braced pieces' ∧
      Part (readValue (fuel + 1)) (fun _ => j) [] pieces pieces' := by
  have firm := firm_of_readValue hread
  rw [readValue_other hquote hbracket hbrace] at hread
  -- a word or a number has no brace, so no placeholder is in it
  obtain ⟨t, hshape, hscalar, hany⟩ := readScalar_upTo hread hcloses.scalarEnds
  have hfree : ∀ c ∈ t, c ≠ '\x7b' ∧ c ≠ '\\' := by
    intro c hc
    have := hscalar c hc
    refine ⟨?_, ?_⟩ <;> rintro rfl <;> exact absurd this (by decide)
  obtain ⟨pieces', rfl, hrest⟩ := chars_of_spell hshape fun hmem => (hfree _ hmem).1 rfl
  refine ⟨pieces', hrest.symm, tidy.drop fun c hc => (hfree c hc).2, references_chars t pieces',
    fun _ hmem => absurd hmem List.not_mem_nil, fun put said _ p => ?_⟩
  have hends : ScalarEnds (spell put pieces') :=
    (Closes.filled (hrest ▸ hcloses) put).scalarEnds
  rw [readValue_other (by rwa [firm.head_eq put]) (by rwa [firm.head_eq put])
    (by rwa [firm.head_eq put]), spell_chars]
  exact hany _ hends p

theorem Part.text {parts : List Piece} (h : Literal parts pieces pieces') :
    Part (readValue (fuel + 1)) (fun said => .text (String.ofList (spell said parts)))
      (Template.references parts) (.char '"' :: pieces) pieces' where
  tidy := h.tidy
  references := h.references
  fits := h.fits
  reads := fun put said hfits p => by
    obtain ⟨q, hread⟩ := h.reads put said hfits p (p + 1)
    have htail : (spell put (.char '"' :: pieces)).tail = spell put pieces := rfl
    exact ⟨q, by rw [readValue_quote rfl, htail, hread]; rfl⟩

theorem finds_value (h : Finds fuel) {j : Json} (tidy : Tidy pieces)
    (hread : readValue (fuel + 1) ⟨p, spell braced pieces⟩ = .ok (j, behind))
    (hcloses : Closes behind.rest) : ∃ d pieces', behind.rest = spell braced pieces' ∧
      Part (readValue (fuel + 1)) (Document.value · d) d.references pieces pieces' := by
  by_cases hquote : (spell braced pieces).head? = some '"'
  · obtain ⟨pieces, rfl⟩ := char_of_head hquote (by decide)
    rw [readValue_quote rfl] at hread
    obtain ⟨⟨cs, last⟩, htext, hlast⟩ := Attempt.bind_ok hread
    obtain ⟨-, rfl⟩ := Prod.mk.injEq .. ▸ Except.ok.inj hlast
    obtain ⟨parts, pieces', hbehind, hliteral⟩ :=
      Literal.exists_of_read (tidy.tail (by decide)) htext
    exact ⟨.text parts, pieces', hbehind, .text hliteral⟩
  by_cases hbracket : (spell braced pieces).head? = some '['
  · obtain ⟨pieces, rfl⟩ := char_of_head hbracket (by decide)
    have tidy' := tidy.tail (by decide)
    rw [readValue_bracket rfl] at hread
    obtain ⟨pieces', hbehind, hskip⟩ | ⟨mid, items, q, hskip, hclose, hitems⟩ :=
      inside_cases (by decide) hread
    · exact ⟨.list [], pieces', hbehind,
        (Part.inside_empty (by decide) tidy' hskip '[').congr fun put p => readValue_bracket rfl⟩
    · obtain ⟨ds, pieces', hbehind, hpart⟩ := h.items (hskip.tidy tidy') hitems
      exact ⟨.list ds, pieces', hbehind,
        (hpart.inside hskip (firm_of_readItems hitems) hclose '[').congr
          fun put p => readValue_bracket rfl⟩
  by_cases hbrace : (spell braced pieces).head? = some '\x7b'
  · obtain ⟨pieces, rfl⟩ := (firm_of_readValue hread).char_of_head hbrace
    have tidy' := tidy.tail (by decide)
    rw [readValue_brace rfl] at hread
    obtain ⟨pieces', hbehind, hskip⟩ | ⟨mid, entries, q, hskip, hclose, hentries⟩ :=
      inside_cases (by decide) hread
    · exact ⟨.object [], pieces', hbehind,
        (Part.inside_empty (by decide) tidy' hskip '\x7b').congr fun put p => readValue_brace rfl⟩
    · obtain ⟨ds, pieces', hbehind, hpart⟩ := h.entries (hskip.tidy tidy') hentries
      exact ⟨.object ds, pieces', hbehind,
        (hpart.inside hskip (firm_of_readEntries hentries) hclose '\x7b').congr
          fun put p => readValue_brace rfl⟩
  · obtain ⟨pieces', hbehind, hpart⟩ := Part.scalar tidy hquote hbracket hbrace hread hcloses
    exact ⟨.scalar j, pieces', hbehind, hpart⟩

theorem finds_items (h : Finds fuel) {js : List Json} (tidy : Tidy pieces)
    (hread : readItems (fuel + 1) ⟨p, spell braced pieces⟩ = .ok (js, behind)) :
    ∃ ds pieces', behind.rest = spell braced pieces' ∧
      Part (readItems (fuel + 1)) (Document.values · ds) (Document.itemReferences ds) pieces
        pieces' := by
  rw [readItems_followed] at hread ⊢
  obtain ⟨item, here, hitem, hcloses, hcases⟩ := followed_cases (.inl rfl) hread
  obtain ⟨d, mid, hmid, hd⟩ := h.value tidy hitem hcloses
  obtain ⟨pieces', hbehind, hskip⟩ | ⟨next, last, others, q, hcomma, hskip, hothers⟩ :=
    hcases mid hmid
  · refine ⟨[d], pieces', hbehind, ?_⟩
    rw [show Document.itemReferences [d] = d.references from List.append_nil _]
    exact hd.last (by decide) hskip
  · have tidy' := hskip.tidy ((hcomma.tidy hd.tidy).tail (by decide))
    obtain ⟨ds, pieces', hbehind, hds⟩ := h.items tidy' hothers
    exact ⟨d :: ds, pieces', hbehind,
      hd.next (by decide) hcomma hskip (firm_of_readItems hothers) hds⟩

theorem Literal.entry {d : Document} {name mid behind next : List Piece} (hname : Literal name pieces mid)
    (hcolon : Skips mid (.char ':' :: behind)) (hskip : Skips behind next) (firm : Firm next)
    (hd : Part (readValue fuel) (Document.value · d) d.references next pieces') :
    Part (readEntry fuel) (fun said => (String.ofList (spell said name), d.value said))
      (Template.references name ++ d.references) (.char '"' :: pieces) pieces' where
  tidy := hd.tidy
  references := by
    have hquote : Template.references (.char '"' :: pieces) = Template.references pieces := rfl
    have hbehind : Template.references mid = Template.references behind := hcolon.references
    rw [hquote, hname.references, hbehind, hskip.references, hd.references, List.append_assoc]
  fits := List.forall_mem_append.2 ⟨hname.fits, hd.fits⟩
  reads := fun put said hfits p => by
    obtain ⟨hfirst, hothers⟩ := List.forall_mem_append.1 hfits
    obtain ⟨q, htext⟩ := hname.reads put said hfirst p (p + 1)
    obtain ⟨q₁, hgap⟩ := hcolon.filled (firm_char _ _) put q
    obtain ⟨q₂, hnext⟩ := hskip.filled_behind firm put ':' q₁
    obtain ⟨q₃, hvalue⟩ := hd.reads put said hothers q₂
    have htail : (spell put (.char '"' :: pieces)).tail = spell put pieces := rfl
    have hhead : (spell put (.char ':' :: behind)).head? = some ':' := rfl
    refine ⟨q₃, ?_⟩
    rw [readEntry_quote rfl, htail, htext, Attempt.ok_bind]
    dsimp only
    rw [hgap, hhead, if_pos rfl, hnext, hvalue]
    rfl

theorem finds_entry (h : Finds fuel) {entry : String × Json} (tidy : Tidy pieces)
    (hread : readEntry fuel ⟨p, spell braced pieces⟩ = .ok (entry, behind))
    (hcloses : Closes behind.rest) : ∃ name d pieces', behind.rest = spell braced pieces' ∧
      Part (readEntry fuel) (fun said => (String.ofList (spell said name), d.value said))
        (Template.references name ++ Document.references d) pieces pieces' := by
  rw [readEntry] at hread
  split at hread
  · next hquote =>
    obtain ⟨pieces, rfl⟩ := char_of_head hquote (by decide)
    obtain ⟨⟨cs, here⟩, htext, hread⟩ := Attempt.bind_ok hread
    obtain ⟨name, mid, hmid, hname⟩ := Literal.exists_of_read (tidy.tail (by decide)) htext
    obtain ⟨q, rest⟩ := here
    obtain rfl : rest = spell braced mid := hmid
    obtain ⟨behind', hcolon⟩ := exists_skips mid
    obtain ⟨q₁, hgap⟩ := hcolon.written q
    dsimp only at hread
    rw [hgap] at hread
    split at hread
    · next hhead =>
      obtain ⟨behind', rfl⟩ := char_of_head hhead (by decide)
      obtain ⟨next, hskip⟩ := exists_skips behind'
      obtain ⟨q₂, hnext⟩ := hskip.written_behind ':' q₁
      rw [hnext] at hread
      obtain ⟨⟨j, last⟩, hvalue, hlast⟩ := Attempt.bind_ok hread
      obtain ⟨-, rfl⟩ := Prod.mk.injEq .. ▸ Except.ok.inj hlast
      have tidy' := hskip.tidy ((hcolon.tidy hname.tidy).tail (by decide))
      obtain ⟨d, pieces', hbehind, hd⟩ := h.value tidy' hvalue hcloses
      exact ⟨name, d, pieces', hbehind, hname.entry hcolon hskip (firm_of_readValue hvalue) hd⟩
    · cases hread
  · cases hread

theorem finds_entries (h : Finds fuel) {es : List (String × Json)} (tidy : Tidy pieces)
    (hread : readEntries (fuel + 1) ⟨p, spell braced pieces⟩ = .ok (es, behind)) :
    ∃ ds pieces', behind.rest = spell braced pieces' ∧
      Part (readEntries (fuel + 1)) (Document.entryValues · ds) (Document.entryReferences ds) pieces
        pieces' := by
  rw [readEntries_followed] at hread ⊢
  obtain ⟨entry, here, hentry, hcloses, hcases⟩ := followed_cases (.inr rfl) hread
  obtain ⟨name, d, mid, hmid, hd⟩ := finds_entry h tidy hentry hcloses
  obtain ⟨pieces', hbehind, hskip⟩ | ⟨next, last, others, q, hcomma, hskip, hothers⟩ :=
    hcases mid hmid
  · refine ⟨[(name, d)], pieces', hbehind, ?_⟩
    rw [show Document.entryReferences [(name, d)] = Template.references name ++ d.references from
      List.append_nil _]
    exact hd.last (by decide) hskip
  · have tidy' := hskip.tidy ((hcomma.tidy hd.tidy).tail (by decide))
    obtain ⟨ds, pieces', hbehind, hds⟩ := h.entries tidy' hothers
    exact ⟨(name, d) :: ds, pieces', hbehind,
      hd.next (by decide) hcomma hskip (firm_of_readEntries hothers) hds⟩

theorem finds (fuel : Nat) : Finds fuel := by
  induction fuel with
  | zero => exact ⟨nofun, nofun, nofun⟩
  | succ fuel ih => exact ⟨finds_value ih, finds_items ih, finds_entries ih⟩

/-! ## Whole texts -/

theorem closes_of_gap {here : Cursor} (h : here.skipGap.rest = []) : Closes here.rest := by
  rw [skipGap_rest, List.dropWhile_eq_nil_iff] at h
  exact fun c hc => .inl (h c (List.mem_of_mem_head? hc))

/-- **A text of JSON whose placeholders all stand between quotes is a document**, in the texts of
which they are. Whatever is put in their place, if it is made up of whole units, the text is read as
this document with what the units say in the place of the placeholders. -/
theorem exists_document {j : Json} (tidy : Tidy pieces)
    (hread : read (String.ofList (spell braced pieces)) = .ok j) : ∃ d : Document,
      d.references = references pieces ∧ d.value (decoded ∘ braced) = j ∧
      Fits braced (decoded ∘ braced) d.references ∧
      ∀ put said, Fits put said d.references →
        read (String.ofList (spell put pieces)) = .ok (d.value said) := by
  obtain ⟨hmark, behind, hvalue, hend⟩ := read_ok_iff.1 hread
  obtain ⟨mid, hskip⟩ := exists_skips pieces
  obtain ⟨p, hgap⟩ := hskip.written 0
  rw [hgap] at hvalue
  have firm := firm_of_readValue hvalue
  obtain ⟨d, pieces', hbehind, hd⟩ := (finds _).value (hskip.tidy tidy) hvalue (closes_of_gap hend)
  obtain ⟨q, rest⟩ := behind
  obtain rfl : rest = spell braced pieces' := hbehind
  -- behind the value there is a gap, in which there is no placeholder
  obtain ⟨last, hlast⟩ := exists_skips pieces'
  obtain ⟨q', hgap'⟩ := hlast.written q
  rw [hgap'] at hend
  obtain rfl := eq_nil_of_spell hend
  have hreferences : d.references = references pieces := by
    rw [hskip.references, hd.references, hlast.references]
    exact (List.append_nil _).symm
  refine ⟨d, hreferences, ?_, hd.fits, fun put said hfits => read_ok_iff.2 ⟨?_, ?_⟩⟩
  · obtain ⟨q', hwritten⟩ := hd.reads braced (decoded ∘ braced) hd.fits p
    exact (Prod.mk.inj (Except.ok.inj (hwritten.symm.trans hvalue))).1
  · rwa [(hskip.firm firm).head_eq put]
  · -- the fuel is what the written text needs, and what is filled in may need another amount
    obtain ⟨p', hfront⟩ := hskip.filled firm put 0
    obtain ⟨q, hfilled⟩ := hd.reads put said hfits p'
    obtain ⟨q', hback⟩ := hlast.filled nofun put q
    have hle := length_skipGap_le ⟨0, spell put pieces⟩
    rw [← hfront] at hfilled
    exact readValue_fuel hfilled (congrArg Cursor.rest hback)
      (Nat.add_le_add_right (Nat.mul_le_mul_left 2 hle) 2)

/-- **Exactly the harmless texts stand for themselves between quotes.** -/
theorem read_quoted_iff {v : List Char} :
    read (String.ofList ('"' :: (v ++ ['"']))) = .ok (.text (String.ofList v)) ↔ Harmless v := by
  have hskip : Cursor.skipGap ⟨0, '"' :: (v ++ ['"'])⟩ = ⟨0, '"' :: (v ++ ['"'])⟩ := rfl
  rw [read_ok_iff, hskip]
  constructor
  · rintro ⟨-, behind, hvalue, -⟩
    rw [readValue_quote rfl] at hvalue
    obtain ⟨⟨cs, last⟩, htext, hlast⟩ := Attempt.bind_ok hvalue
    obtain ⟨hcs, rfl⟩ := Prod.mk.injEq .. ▸ Except.ok.inj hlast
    obtain rfl := String.ofList_injective (Json.text.inj hcs)
    obtain ⟨hlt, hharmless⟩ := readText_length htext
    simp only [List.tail_cons, List.length_append, List.length_singleton] at hlt hharmless
    exact hharmless (by omega)
  · intro h
    obtain ⟨q, htext⟩ := spells_harmless h 0 1 ['"'] (List.cons_ne_nil _ _)
    have hclosing : readText 0 q ['"'] = .ok ([], ⟨q + 1, []⟩) := by simp [readText]
    refine ⟨by simp, ⟨q + 1, []⟩, ?_, rfl⟩
    rw [readValue_quote rfl, List.tail_cons, htext, hclosing]
    exact congrArg (fun v => Except.ok (Json.text (String.ofList v), _)) (List.append_nil v)

end WorkflowEngine.Json
