import WorkflowEngine.Proofs.Expression.Templates
import WorkflowEngine.Proofs.Json.Texts

/-!
# Texts with placeholders

What stands between the quotes of a text is a row of units, each of which stands for one character
(`StandsFor`). A placeholder that stands between the quotes begins and ends with a unit, so whatever
units are put in its place, the text ends where it ended, and says what these units stand for where
it said what the placeholder is read as (`Literal.exists_of_read`). A text without quotes, backslashes and
control characters is a row of units that stand for themselves (`spells_harmless`).
-/

namespace WorkflowEngine

namespace Template

/-! ## Pieces with something in the place of placeholders -/

/-- The characters of a piece, with something in the place of a placeholder. -/
def Piece.spell (put : List Char → List Char) : Piece → List Char
  | .char c => [c]
  | .hole reference => put reference

/-- The characters of some pieces, with something in the place of each placeholder. -/
def spell (put : List Char → List Char) (pieces : List Piece) : List Char :=
  pieces.flatMap (Piece.spell put)

/-- The reference of a placeholder. -/
def Piece.reference? : Piece → Option (List Char)
  | .char _ => none
  | .hole reference => some reference

/-- The references of the placeholders among some pieces, in their order. -/
def references (pieces : List Piece) : List (List Char) := pieces.filterMap Piece.reference?

variable {put : List Char → List Char} {pieces : List Piece} {t rest : List Char}

theorem spell_chars (put : List Char → List Char) (t : List Char) (pieces : List Piece) :
    spell put (t.map .char ++ pieces) = t ++ spell put pieces := by
  induction t with
  | nil => rfl
  | cons c t ih => exact congrArg (c :: ·) ih

theorem references_chars (t : List Char) (pieces : List Piece) :
    references (t.map .char ++ pieces) = references pieces := by
  induction t with
  | nil => rfl
  | cons c t ih => exact ih

/-- Pieces that are written as some characters without an opening brace, and more, begin with these
characters. -/
theorem chars_of_spell (h : spell braced pieces = t ++ rest) (hbrace : '\x7b' ∉ t) :
    ∃ pieces', pieces = t.map .char ++ pieces' ∧ spell braced pieces' = rest := by
  induction t generalizing pieces with
  | nil => exact ⟨pieces, rfl, h⟩
  | cons c t ih =>
    rw [List.mem_cons, not_or] at hbrace
    cases pieces with
    | nil => cases h
    | cons piece pieces =>
      cases piece with
      | hole reference => exact absurd (List.cons.inj h).1 hbrace.1
      | char d =>
        obtain ⟨rfl, hrest⟩ := List.cons.inj h
        obtain ⟨pieces', rfl, hspell⟩ := ih hrest hbrace.2
        exact ⟨pieces', rfl, hspell⟩

theorem scan_of_no_hole? {c : Char} {cs : List Char} (h : hole? (c :: cs) = none) :
    scan 0 (c :: cs) = .char c :: scan 0 cs := by
  rw [scan, h]

/-- **What is found in a text is what it is written as**, with each placeholder between its braces. -/
theorem spell_scan (cs : List Char) : spell braced (scan 0 cs) = cs := by
  -- by the length, since a placeholder takes several characters at once
  induction hlength : cs.length using Nat.strong_induction_on generalizing cs with
  | _ n ih =>
    cases cs with
    | nil => rfl
    | cons c cs =>
      cases hhole : hole? (c :: cs) with
      | none =>
        rw [scan_of_no_hole? hhole]
        exact congrArg (c :: ·) (ih _ (hlength ▸ Nat.lt_succ_self _) cs rfl)
      | some found =>
        obtain ⟨reference, rest⟩ := found
        obtain ⟨hreference, hshape⟩ := hole?_eq_some_iff.1 hhole
        have hshorter : rest.length < n := by
          rw [← hlength, hshape, braced]
          simp
          omega
        rw [hshape, scan_braced hreference]
        exact congrArg (braced reference ++ ·) (ih _ hshorter rest rfl)

end Template

namespace Json

open Template Text

variable {start p : Nat} {u v cs out more : List Char} {x : Char} {behind : Cursor}

/-! ## Units -/

/-- What stands for one character in a text: the character itself, a letter behind a backslash, the
number of a unit that is no first half, or the numbers of the two halves. -/
inductive StandsFor : List Char → Char → Prop where
  | plain (c : Char) (quote : c ≠ '"') (slash : c ≠ '\\') (control : ¬ c.toNat < 32) :
    StandsFor [c] c
  | letter {c e : Char} (escape : escaped? c = some e) : StandsFor ['\\', c] e
  | single {a b c d : Char} {n : Nat} (number : hexNumber? [a, b, c, d] = some n)
    (half : isHighHalf n = false) : StandsFor ['\\', 'u', a, b, c, d] (scalar n)
  | pair {a b c d e f g h : Char} {n m : Nat} (first : hexNumber? [a, b, c, d] = some n)
    (second : hexNumber? [e, f, g, h] = some m) (high : isHighHalf n = true)
    (low : isLowHalf m = true) :
    StandsFor ['\\', 'u', a, b, c, d, '\\', 'u', e, f, g, h]
      (scalar (0x10000 + (n - 0xD800) * 0x400 + (m - 0xDC00)))

theorem StandsFor.read (h : StandsFor u x) (hmore : more ≠ []) (start p : Nat) :
    ∃ q, readText start p (u ++ more) = withChar x (readText start q more) := by
  cases h with
  | plain c quote slash control => exact ⟨_, readText_plain start p quote slash control⟩
  | letter escape => exact ⟨_, readText_letter start p escape⟩
  | single number half => exact ⟨_, readText_single start p number half hmore⟩
  | pair first second high low => exact ⟨_, readText_double start p first second high low hmore⟩

theorem StandsFor.ne_nil (h : StandsFor u x) : u ≠ [] := by
  cases h <;> exact List.cons_ne_nil _ _

theorem hexValue_letters {c : Char} {n : Nat} (h : hexValue? c = some n) :
    c ≠ '"' ∧ c ≠ '\\' ∧ c ≠ '\x7b' ∧ c ≠ '\x7d' := by
  refine ⟨?_, ?_, ?_, ?_⟩ <;> rintro rfl <;> cases h

theorem hexNumber_letters {a b c d : Char} {n : Nat} (h : hexNumber? [a, b, c, d] = some n) :
    ∀ x ∈ [a, b, c, d], x ≠ '"' ∧ x ≠ '\\' ∧ x ≠ '\x7b' ∧ x ≠ '\x7d' := by
  simp only [hexNumber?, List.foldl_cons, List.foldl_nil, Option.bind_eq_some_iff,
    Option.map_eq_some_iff, Option.bind_some] at h
  obtain ⟨_, ⟨_, ⟨_, ⟨_, ha, -⟩, _, hb, -⟩, _, hc, -⟩, _, hd, -⟩ := h
  simpa using ⟨hexValue_letters ha, hexValue_letters hb, hexValue_letters hc, hexValue_letters hd⟩

theorem hexNumber_free {a b c d : Char} {n : Nat} (h : hexNumber? [a, b, c, d] = some n) :
    ∀ x ∈ [a, b, c, d], x ≠ '"' ∧ x ≠ '\\' :=
  fun x hx => ⟨(hexNumber_letters h x hx).1, (hexNumber_letters h x hx).2.1⟩

/-- No unit that is written with a backslash has a brace in it. -/
theorem StandsFor.brace (h : StandsFor u x) : (∃ c, u = [c]) ∨ '\x7b' ∉ u ∧ '\x7d' ∉ u := by
  cases h with
  | plain _ => exact .inl ⟨x, rfl⟩
  | letter escape =>
    rename_i c
    have hopen : c ≠ '\x7b' := by
      rintro rfl
      cases escape
    have hclose : c ≠ '\x7d' := by
      rintro rfl
      cases escape
    exact .inr ⟨by simpa using hopen.symm, by simpa using hclose.symm⟩
  | single number half =>
    have hletters := hexNumber_letters number
    exact .inr ⟨by simp; grind, by simp; grind⟩
  | pair first second high low =>
    have hfirst := hexNumber_letters first
    have hsecond := hexNumber_letters second
    exact .inr ⟨by simp; grind, by simp; grind⟩

/-! ## Halves of pairs -/

/-- Whether a text begins with the number of a half of the given kind and goes on behind it. -/
def beginsHalf (half : Nat → Bool) : List Char → Bool
  | '\\' :: 'u' :: a :: b :: c :: d :: _ :: _ => (hexNumber? [a, b, c, d]).any half
  | _ => false

/-- Whether each number of a first half is followed by one of a second half. -/
def paired : List Char → Bool
  | [] => true
  | '\\' :: c :: cs =>
    (!beginsHalf isHighHalf ('\\' :: c :: cs) || beginsHalf isLowHalf (cs.drop 4)) && paired cs
  | _ :: cs => paired cs

theorem paired_cons {c : Char} (hslash : c ≠ '\\') : paired (c :: cs) = paired cs := by
  rw [paired]
  exact fun _ _ h => absurd h hslash

theorem paired_append (h : ∀ c ∈ u, c ≠ '\\') : paired (u ++ cs) = paired cs := by
  induction u with
  | nil => rfl
  | cons c u ih =>
    rw [List.cons_append, paired_cons (h c List.mem_cons_self),
      ih fun d hd => h d (List.mem_cons_of_mem _ hd)]

/-- Behind the number of a half the rest of the text is paired, and a first half is followed by a
second one. -/
theorem paired_number {a b c d : Char} {n : Nat} (hn : hexNumber? [a, b, c, d] = some n)
    (h : paired ('\\' :: 'u' :: a :: b :: c :: d :: cs) = true) :
    paired cs = true ∧ (cs ≠ [] → isHighHalf n = true → beginsHalf isLowHalf cs = true) := by
  have hletters := hexNumber_letters hn
  have hdigits : paired ([a, b, c, d] ++ cs) = paired cs :=
    paired_append fun x hx => (hletters x hx).2.1
  rw [paired, Bool.and_eq_true] at h
  refine ⟨hdigits.symm.trans h.2, fun hne hhigh => ?_⟩
  obtain ⟨e, rest, rfl⟩ := List.exists_cons_of_ne_nil hne
  simpa [beginsHalf, hn, hhigh] using h.1

/-- **A text that is read is over, or begins with a unit** and is read on behind it, as long as its
first halves are followed by second ones. -/
theorem readText_cases (hread : readText start p cs = .ok (out, behind))
    (hpaired : paired cs = true) :
    (cs = '"' :: behind.rest ∧ out = []) ∨
      ∃ u x more out' q, StandsFor u x ∧ cs = u ++ more ∧ out = x :: out' ∧ paired more = true ∧
        readText start q more = .ok (out', behind) := by
  fun_induction readText start p cs generalizing out behind with
  | case2 p rest =>
    cases hread
    exact .inl ⟨rfl, rfl⟩
  | case6 p a b c d e f g h i rest n hn hhigh m hm hlow =>
    obtain ⟨out', hrest, rfl⟩ := withChar_ok hread
    have hsecond := (paired_number hn hpaired).1
    exact .inr ⟨_, _, i :: rest, out', _, .pair hn hm hhigh hlow, rfl, rfl,
      (paired_number hm hsecond).1, hrest⟩
  | case7 p a b c d e f g h i rest n hn hhigh m hm hlow =>
    -- a first half in front of the number of no second half is not paired
    have hhalf := (paired_number hn hpaired).2 (List.cons_ne_nil _ _) hhigh
    simp only [beginsHalf, hm, Option.any_some] at hhalf
    exact absurd hhalf hlow
  | case8 p a b c d e f g h i rest n hn hhigh =>
    obtain ⟨out', hrest, rfl⟩ := withChar_ok hread
    exact .inr ⟨_, _, _, out', _, .single hn (by simpa using hhigh), rfl, rfl,
      (paired_number hn hpaired).1, hrest⟩
  | case10 p a b c d e rest hpair n hn =>
    obtain ⟨out', hrest, rfl⟩ := withChar_ok hread
    obtain ⟨hrest', hhalf⟩ := paired_number hn hpaired
    refine .inr ⟨_, _, e :: rest, out', _, .single hn ?_, rfl, rfl, hrest', hrest⟩
    -- a first half would be followed by the number of a second one, and so not be read by itself
    refine Bool.eq_false_iff.2 fun hhigh => ?_
    have hlow := hhalf (List.cons_ne_nil _ _) hhigh
    unfold beginsHalf at hlow
    split at hlow
    · next hsecond =>
      obtain ⟨he, hrest⟩ := List.cons.inj hsecond
      exact hpair _ _ _ _ _ _ he hrest
    · cases hlow
  | case13 p c rest _ _ hunit e hletter =>
    obtain ⟨out', hrest, rfl⟩ := withChar_ok hread
    rw [paired, Bool.and_eq_true] at hpaired
    exact .inr ⟨_, _, rest, out', _, .letter hletter, rfl, rfl, hpaired.2, hrest⟩
  | case15 p c rest hquote hend _ _ _ hslash hcontrol =>
    obtain ⟨out', hrest, rfl⟩ := withChar_ok hread
    have hne := ne_slash hend hslash
    exact .inr ⟨_, _, rest, out', _, .plain c (fun h => hquote h) hne hcontrol, rfl, rfl,
      paired_cons hne ▸ hpaired, hrest⟩
  | _ => cases hread

/-! ## Rows of units -/

/-- Some characters stand for some others in whatever text they are in, as long as it goes on. -/
def Spells (cs out : List Char) : Prop :=
  ∀ start p more, more ≠ [] → ∃ q, readText start p (cs ++ more) =
    (readText start q more).map fun r => (out ++ r.1, r.2)

theorem spells_nil : Spells [] [] := fun start p more _ =>
  ⟨p, by cases hread : readText start p more <;> simp [hread, Except.map]⟩

theorem StandsFor.spells (h : StandsFor u x) (hcs : Spells cs out) : Spells (u ++ cs) (x :: out) := by
  intro start p more hmore
  obtain ⟨q, hu⟩ := h.read (List.append_ne_nil_of_right_ne_nil cs hmore) start p
  obtain ⟨q', hcs⟩ := hcs start q more hmore
  refine ⟨q', ?_⟩
  rw [List.append_assoc, hu, hcs]
  cases readText start q' more <;> rfl

theorem Spells.append {cs' out' : List Char} (h : Spells cs out) (h' : Spells cs' out') :
    Spells (cs ++ cs') (out ++ out') := by
  intro start p more hmore
  obtain ⟨q, hcs⟩ := h start p (cs' ++ more) (List.append_ne_nil_of_right_ne_nil cs' hmore)
  obtain ⟨q', hcs'⟩ := h' start q more hmore
  refine ⟨q', ?_⟩
  rw [List.append_assoc, hcs, hcs']
  cases readText start q' more with
  | error c => rfl
  | ok r => exact congrArg (fun out => Except.ok (out, r.2)) (List.append_assoc _ _ _).symm

/-- No character of a text ends it, escapes another or is a control character. -/
def Harmless (cs : List Char) : Prop := ∀ c ∈ cs, c ≠ '"' ∧ c ≠ '\\' ∧ ¬ c.toNat < 32

theorem spells_harmless (h : Harmless v) : Spells v v := by
  induction v with
  | nil => exact spells_nil
  | cons c v ih =>
    obtain ⟨hquote, hslash, hcontrol⟩ := h c List.mem_cons_self
    exact (StandsFor.plain c hquote hslash hcontrol).spells
      (ih fun d hd => h d (List.mem_cons_of_mem _ hd))

theorem length_escape {cs' rest : List Char} (x : Char) (hlt : out.length + rest.length < cs'.length)
    (hle : cs'.length + 2 ≤ cs.length) : (x :: out).length + rest.length < cs.length ∧
      (cs.length = (x :: out).length + rest.length + 1 → Harmless (x :: out)) := by
  rw [List.length_cons]
  exact ⟨by omega, fun heq => by omega⟩

/-- **A text stands for itself between quotes only if it is harmless**: it takes its own length and the
closing quote, and every escape takes more. -/
theorem readText_length (hread : readText start p cs = .ok (out, behind)) :
    out.length + behind.rest.length < cs.length ∧
      (cs.length = out.length + behind.rest.length + 1 → Harmless out) := by
  fun_induction readText start p cs generalizing out behind with
  | case2 p rest =>
    cases hread
    exact ⟨by simp, fun _ c hc => absurd hc List.not_mem_nil⟩
  | case6 _ _ _ _ _ _ _ _ _ _ _ _ _ _ _ _ _ ih =>
    obtain ⟨out, hrest, rfl⟩ := withChar_ok hread
    exact length_escape _ (ih hrest).1 (by simp)
  | case7 _ _ _ _ _ _ _ _ _ _ _ _ _ _ _ _ _ ih =>
    obtain ⟨out, hrest, rfl⟩ := withChar_ok hread
    exact length_escape _ (ih hrest).1 (by simp)
  | case8 _ _ _ _ _ _ _ _ _ _ _ _ _ _ ih =>
    obtain ⟨out, hrest, rfl⟩ := withChar_ok hread
    exact length_escape _ (ih hrest).1 (by simp)
  | case10 _ _ _ _ _ _ _ _ _ _ ih =>
    obtain ⟨out, hrest, rfl⟩ := withChar_ok hread
    exact length_escape _ (ih hrest).1 (by simp)
  | case13 _ _ _ _ _ _ _ _ ih =>
    obtain ⟨out, hrest, rfl⟩ := withChar_ok hread
    exact length_escape _ (ih hrest).1 (by simp)
  | case15 p c rest hquote hend _ _ _ hslash hcontrol ih =>
    obtain ⟨out, hrest, rfl⟩ := withChar_ok hread
    obtain ⟨hlt, hharmless⟩ := ih hrest
    have hne := ne_slash hend hslash
    rw [List.length_cons, List.length_cons]
    refine ⟨by omega, fun heq => List.forall_mem_cons.2 ⟨⟨fun h => hquote h, hne, hcontrol⟩, ?_⟩⟩
    exact hharmless (by omega)
  | _ => cases hread

/-- What some characters are read as between quotes. -/
def decoded (cs : List Char) : List Char :=
  match readText 0 1 (cs ++ ['"']) with
  | .ok (out, _) => out
  | .error _ => []

theorem Spells.decoded_eq (h : Spells cs out) : decoded cs = out := by
  obtain ⟨q, hread⟩ := h 0 1 ['"'] (List.cons_ne_nil _ _)
  rw [decoded, hread]
  exact List.append_nil out

/-! ## Placeholders between quotes -/

/-- Whether there is no quote among some characters but behind a backslash. -/
def quoteFree : List Char → Bool
  | [] => true
  | '\\' :: _ :: cs => quoteFree cs
  | c :: cs => c != '"' && quoteFree cs

theorem quoteFree_cons {c : Char} (hslash : c ≠ '\\') :
    quoteFree (c :: cs) = (c != '"' && quoteFree cs) := by
  rw [quoteFree]
  exact fun _ _ h => absurd h hslash

theorem quoteFree_append (h : ∀ c ∈ u, c ≠ '"' ∧ c ≠ '\\') :
    quoteFree (u ++ cs) = quoteFree cs := by
  induction u with
  | nil => rfl
  | cons c u ih =>
    obtain ⟨hquote, hslash⟩ := h c List.mem_cons_self
    rw [List.cons_append, quoteFree_cons hslash, ih fun d hd => h d (List.mem_cons_of_mem _ hd)]
    simp [hquote]

theorem StandsFor.quoteFree (h : StandsFor u x) (hcs : quoteFree (u ++ cs) = true) :
    quoteFree cs = true := by
  cases h with
  | plain c quote slash control =>
    rw [List.singleton_append, quoteFree_cons slash, Bool.and_eq_true] at hcs
    exact hcs.2
  | letter escape => exact hcs
  | @single a b c d n number half =>
    have hdigits : quoteFree ([a, b, c, d] ++ cs) = quoteFree cs :=
      quoteFree_append (hexNumber_free number)
    exact hdigits.symm.trans hcs
  | @pair a b c d e f g h n m first second high low =>
    have hfirst : quoteFree ([a, b, c, d] ++ (['\\', 'u', e, f, g, h] ++ cs)) =
        quoteFree (['\\', 'u', e, f, g, h] ++ cs) := quoteFree_append (hexNumber_free first)
    have hsecond : quoteFree ([e, f, g, h] ++ cs) = quoteFree cs :=
      quoteFree_append (hexNumber_free second)
    exact hsecond.symm.trans (hfirst.symm.trans hcs)

theorem quoteFree_closed (h : quoteFree cs = true) : quoteFree (cs ++ ['\x7d']) = true := by
  fun_induction quoteFree cs with
  | case1 => rfl
  | case2 c cs ih => exact ih h
  | case3 c cs hslash ih =>
    rw [Bool.and_eq_true] at h
    by_cases hc : c = '\\'
    · cases cs with
      | nil => rw [hc]; rfl
      | cons d cs => exact absurd rfl (hslash d cs hc)
    · rw [List.cons_append, quoteFree_cons hc, h.1, ih h.2]
      rfl

/-- A unit in front of a text with a brace ends before the brace, or is the brace. -/
theorem StandsFor.split {r rest : List Char} (h : StandsFor u x)
    (hshape : r ++ '\x7d' :: more = u ++ rest) :
    (∃ r', r = u ++ r' ∧ rest = r' ++ '\x7d' :: more) ∨ (r = [] ∧ u = ['\x7d'] ∧ rest = more) := by
  obtain ⟨r', rfl, hmore⟩ | ⟨r', rfl, rfl⟩ := List.append_eq_append_iff.1 hshape
  · cases r' with
    | nil => exact .inl ⟨[], by simp, by simpa using hmore.symm⟩
    | cons c r' =>
      obtain ⟨rfl, rfl⟩ := List.cons.inj hmore
      obtain ⟨c, hc⟩ | ⟨-, hbrace⟩ := h.brace
      · cases r with
        | nil =>
          obtain ⟨-, rfl⟩ := List.cons.inj hc
          exact .inr ⟨rfl, rfl, rfl⟩
        | cons d r => simp at hc
      · exact absurd (by simp) hbrace
  · exact .inl ⟨r', rfl, rfl⟩

/-- **What is read up to a brace is a row of units**, if no quote ends the text before. -/
theorem readText_inside {r : List Char} (hquote : quoteFree r = true)
    (hpaired : paired (r ++ '\x7d' :: more) = true)
    (hread : readText start p (r ++ '\x7d' :: more) = .ok (out, behind)) :
    ∃ front back q, Spells (r ++ ['\x7d']) front ∧ out = front ++ back ∧ paired more = true ∧
      readText start q more = .ok (back, behind) := by
  -- unit by unit up to the brace: none of them has the brace within, so one of them is the brace
  induction hlength : r.length using Nat.strong_induction_on generalizing r p out with
  | _ n ih =>
    obtain ⟨hend, -⟩ | ⟨u, x, rest, out', q, hstands, hshape, rfl, hrest, hread'⟩ :=
      readText_cases hread hpaired
    · -- the text cannot end here: neither the brace nor what is before it is a bare quote
      cases r with
      | nil => cases hend
      | cons c r =>
        obtain ⟨rfl, -⟩ := List.cons.inj hend
        cases hquote
    obtain ⟨r', rfl, rfl⟩ | ⟨rfl, rfl, rfl⟩ := hstands.split hshape
    · have hshorter : r'.length < n := by
        have := List.length_pos_iff.2 hstands.ne_nil
        rw [List.length_append] at hlength
        omega
      obtain ⟨front, back, q', hspells, rfl, hmore, hback⟩ :=
        ih _ hshorter (hstands.quoteFree hquote) hrest hread' rfl
      refine ⟨x :: front, back, q', ?_, rfl, hmore, hback⟩
      rw [List.append_assoc]
      exact hstands.spells hspells
    · exact ⟨[x], out', q, hstands.spells spells_nil, rfl, hrest, hread'⟩

/-- **A placeholder in a text is a row of units**, if no quote ends the text in it. -/
theorem readText_braced {reference : List Char} (hquote : quoteFree reference = true)
    (hpaired : paired (braced reference ++ more) = true)
    (hread : readText start p (braced reference ++ more) = .ok (out, behind)) :
    ∃ back q, Spells (braced reference) (decoded (braced reference)) ∧
      out = decoded (braced reference) ++ back ∧ paired more = true ∧
      readText start q more = .ok (back, behind) := by
  have hinside : quoteFree ('\x7b' :: '\x7b' :: reference ++ ['\x7d']) = true := by
    rw [List.cons_append, List.cons_append, quoteFree_cons (by decide), quoteFree_cons (by decide),
      quoteFree_closed hquote]
    rfl
  have hshape : braced reference ++ more =
      ('\x7b' :: '\x7b' :: reference ++ ['\x7d']) ++ '\x7d' :: more := by simp [braced]
  rw [hshape] at hpaired hread
  obtain ⟨front, back, q, hspells, rfl, hmore, hback⟩ := readText_inside hinside hpaired hread
  have hbraced : Spells (braced reference) front := by simpa [braced] using hspells
  rw [hbraced.decoded_eq]
  exact ⟨back, q, hbraced, rfl, hmore, hback⟩

/-! ## Texts with placeholders -/

/-- What is put in the place of each of some placeholders is a row of units for what it says. -/
def Fits (put said : List Char → List Char) (references : List (List Char)) : Prop :=
  ∀ reference ∈ references, Spells (put reference) (said reference)

/-- No quote is in a placeholder but behind a backslash, and each number of a first half is followed
by one of a second half. -/
structure Tidy (pieces : List Piece) : Prop where
  inside : ∀ reference ∈ references pieces, quoteFree reference = true
  paired : paired (spell braced pieces) = true

/-- A placeholder with a quote in it reaches out of its text, and is taken for plain characters. -/
def enclosed : Piece → List Piece
  | .char c => [.char c]
  | .hole reference =>
    if quoteFree reference then [.hole reference] else (braced reference).map .char

theorem spell_enclosed {put : List Char → List Char} {pieces : List Piece}
    (h : ∀ reference ∈ references pieces, quoteFree reference = false → put reference = braced reference) :
    spell put (pieces.flatMap enclosed) = spell put pieces := by
  induction pieces with
  | nil => rfl
  | cons piece pieces ih =>
    cases piece with
    | char c => exact congrArg (c :: ·) (ih h)
    | hole reference =>
      obtain ⟨hfirst, hothers⟩ := List.forall_mem_cons.1 h
      rw [List.flatMap_cons, enclosed]
      cases hquote : quoteFree reference with
      | true => exact congrArg (put reference ++ ·) (ih hothers)
      | false =>
        rw [if_neg Bool.false_ne_true, spell_chars, ih hothers, ← hfirst hquote]
        rfl

theorem references_enclosed (pieces : List Piece) :
    references (pieces.flatMap enclosed) = (references pieces).filter quoteFree := by
  induction pieces with
  | nil => rfl
  | cons piece pieces ih =>
    cases piece with
    | char c => exact ih
    | hole reference =>
      rw [List.flatMap_cons, enclosed, show references (.hole reference :: pieces) =
        reference :: references pieces from rfl, List.filter_cons]
      split
      · exact congrArg (reference :: ·) ih
      · exact (references_chars _ _).trans ih

/-- The pieces that are found in a text are tidy once no placeholder reaches out of its text. -/
theorem tidy_enclosed (cs : List Char) (hpaired : Json.paired cs = true) :
    Tidy ((scan 0 cs).flatMap enclosed) where
  inside := by
    rw [references_enclosed]
    exact fun reference hmem => (List.mem_filter.1 hmem).2
  paired := by rwa [spell_enclosed fun _ _ _ => rfl, spell_scan]

theorem Tidy.tail {c : Char} {pieces : List Piece} (tidy : Tidy (.char c :: pieces))
    (hslash : c ≠ '\\') : Tidy pieces where
  inside := tidy.inside
  paired := (paired_cons hslash).symm.trans tidy.paired

theorem Tidy.drop {t : List Char} {pieces : List Piece} (tidy : Tidy (t.map .char ++ pieces))
    (hslash : ∀ c ∈ t, c ≠ '\\') : Tidy pieces := by
  induction t with
  | nil => exact tidy
  | cons c t ih =>
    exact ih (tidy.tail (hslash c List.mem_cons_self)) fun d hd => hslash d (List.mem_cons_of_mem _ hd)

/-- Some pieces begin with the text that some parts make up, up to its closing quote, and go on with
other pieces: whatever fits in the place of the placeholders, the text is read as what they say. -/
structure Literal (parts pieces pieces' : List Piece) : Prop where
  tidy : Tidy pieces'
  references : references pieces = references parts ++ references pieces'
  fits : Fits braced (decoded ∘ braced) (Template.references parts)
  reads : ∀ put said, Fits put said (Template.references parts) → ∀ start p, ∃ q,
    readText start p (spell put pieces) = .ok (spell said parts, ⟨q, spell put pieces'⟩)

namespace Literal

variable {parts pieces pieces' : List Piece} {put said : List Char → List Char}

theorem spell_ne_nil (h : Literal parts pieces pieces')
    (hfits : Fits put said (Template.references parts)) : spell put pieces ≠ [] := by
  intro hnil
  obtain ⟨q, hread⟩ := h.reads put said hfits 0 0
  rw [hnil] at hread
  cases hread

theorem closing (tidy : Tidy pieces) : Literal [] (.char '"' :: pieces) pieces where
  tidy := tidy
  references := rfl
  fits := fun _ hmem => absurd hmem List.not_mem_nil
  reads := fun put said _ start p => ⟨p + 1, by simp [spell, Piece.spell, readText]⟩

theorem unit (hstands : StandsFor u x) (h : Literal parts pieces pieces') :
    Literal (.char x :: parts) (u.map .char ++ pieces) pieces' where
  tidy := h.tidy
  references := (references_chars u pieces).trans h.references
  fits := h.fits
  reads := fun put said hfits start p => by
    obtain ⟨q, hunit⟩ := hstands.read (h.spell_ne_nil hfits) start p
    obtain ⟨q', hrest⟩ := h.reads put said hfits start q
    refine ⟨q', ?_⟩
    rw [spell_chars, hunit, hrest]
    rfl

theorem hole {reference : List Char}
    (hspells : Spells (braced reference) (decoded (braced reference)))
    (h : Literal parts pieces pieces') :
    Literal (.hole reference :: parts) (.hole reference :: pieces) pieces' where
  tidy := h.tidy
  references := congrArg (reference :: ·) h.references
  fits := List.forall_mem_cons.2 ⟨hspells, h.fits⟩
  reads := fun put said hfits start p => by
    obtain ⟨hhole, hparts⟩ := List.forall_mem_cons.1 hfits
    obtain ⟨q, hfirst⟩ := hhole start p (spell put pieces) (h.spell_ne_nil hparts)
    obtain ⟨q', hrest⟩ := h.reads put said hparts start q
    refine ⟨q', ?_⟩
    rw [show spell put (.hole reference :: pieces) = put reference ++ spell put pieces from rfl,
      hfirst, hrest]
    rfl

/-- **Every text that is read is made up of parts**: characters, each with its unit, and whole
placeholders. -/
theorem exists_of_read (tidy : Tidy pieces)
    (hread : readText start p (spell braced pieces) = .ok (out, behind)) :
    ∃ parts pieces', behind.rest = spell braced pieces' ∧ Literal parts pieces pieces' := by
  induction hlength : pieces.length using Nat.strong_induction_on generalizing pieces p out with
  | _ n ih =>
    cases pieces with
    | nil => cases hread
    | cons piece pieces =>
      cases piece with
      | hole reference =>
        obtain ⟨hquote, hothers⟩ := List.forall_mem_cons.1 tidy.inside
        obtain ⟨back, q, hspells, rfl, hpaired, hread'⟩ := readText_braced hquote tidy.paired hread
        obtain ⟨parts, pieces', hbehind, hparts⟩ :=
          ih _ (hlength ▸ Nat.lt_succ_self _) ⟨hothers, hpaired⟩ hread' rfl
        exact ⟨.hole reference :: parts, pieces', hbehind, hparts.hole hspells⟩
      | char c =>
        obtain ⟨hend, rfl⟩ | ⟨u, x, more, out', q, hstands, hshape, rfl, hpaired, hread'⟩ :=
          readText_cases hread tidy.paired
        · obtain ⟨rfl, hbehind⟩ := List.cons.inj hend
          exact ⟨[], pieces, hbehind.symm, .closing (tidy.tail (by decide))⟩
        · -- the unit begins with this piece, and has no opening brace further on
          obtain ⟨u', rfl⟩ : ∃ u', u = c :: u' := by
            cases u with
            | nil => exact absurd rfl hstands.ne_nil
            | cons d u' => exact ⟨u', congrArg (· :: u') (List.cons.inj hshape).1.symm⟩
          have hbrace : '\x7b' ∉ u' := by
            obtain ⟨d, hd⟩ | ⟨hopen, -⟩ := hstands.brace
            · obtain ⟨-, rfl⟩ := List.cons.inj hd
              exact List.not_mem_nil
            · exact fun hmem => hopen (List.mem_cons_of_mem _ hmem)
          obtain ⟨pieces, rfl, rfl⟩ := chars_of_spell (List.cons.inj hshape).2 hbrace
          have hshorter : pieces.length < n := by
            rw [← hlength, List.length_cons, List.length_append]
            omega
          have hinside := tidy.inside
          rw [show Template.references (.char c :: (u'.map .char ++ pieces)) =
            Template.references pieces from references_chars u' pieces] at hinside
          obtain ⟨parts, pieces', hbehind, hparts⟩ := ih _ hshorter ⟨hinside, hpaired⟩ hread' rfl
          exact ⟨.char x :: parts, pieces', hbehind, hparts.unit hstands⟩

end Literal

end Json

end WorkflowEngine
