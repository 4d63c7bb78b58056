import Mathlib.Data.List.Find
import WorkflowEngine.Proofs.Json.Texts

/-!
# Line ends in JSON

What a text of JSON says does not depend on how its lines end. Between the parts of the text line
ends are gaps, whichever they are, and within a part there is none. The reader is taken through a text
and the same text with unified line ends side by side, and comes to the same value in both or is
stopped in both (`read_unify`).
-/

namespace WorkflowEngine.Json

open Text

/-- The second text is the first, in which some line ends have been unified. -/
inductive Unified : List Char → List Char → Prop
  | nil : Unified [] []
  | char {cs cs' : List Char} (c : Char) (h : Unified cs cs') : Unified (c :: cs) (c :: cs')
  | pair {cs cs' : List Char} (h : Unified cs cs') : Unified ('\r' :: '\n' :: cs) ('\n' :: cs')
  | lone {cs cs' : List Char} (h : Unified cs cs') : Unified ('\r' :: cs) ('\n' :: cs')

theorem unified_unify (cs : List Char) : Unified cs (unifyLineEnds cs) := by
  induction cs using unifyLineEnds.induct with
  | case1 => exact .nil
  | case2 rest ih => exact .pair ih
  | case3 rest hnext ih =>
    rw [unifyLineEnds]
    · exact .lone ih
    · exact hnext
  | case4 c rest hpair hlone ih =>
    rw [unifyLineEnds]
    · exact .char c ih
    · exact hpair
    · exact hlone

/-- No line end is among some characters. -/
def Solid (cs : List Char) : Prop := ∀ c ∈ cs, c ≠ '\r' ∧ c ≠ '\n'

namespace Unified

variable {c : Char} {t r cs cs' : List Char}

theorem cons_left (h : Unified (c :: r) cs') (hc : c ≠ '\r') :
    ∃ r', cs' = c :: r' ∧ Unified r r' := by
  cases h with
  | char _ h => exact ⟨_, rfl, h⟩
  | pair => exact absurd rfl hc
  | lone => exact absurd rfl hc

theorem cons_right (h : Unified cs (c :: r)) (hc : c ≠ '\n') :
    ∃ r', cs = c :: r' ∧ Unified r' r := by
  cases h with
  | char _ h => exact ⟨_, rfl, h⟩
  | pair => exact absurd rfl hc
  | lone => exact absurd rfl hc

/-- A piece without line ends is the same in both texts. -/
theorem append_left (h : Unified (t ++ r) cs') (solid : Solid t) :
    ∃ r', cs' = t ++ r' ∧ Unified r r' := by
  induction t generalizing cs' with
  | nil => exact ⟨cs', rfl, h⟩
  | cons c t ih =>
    obtain ⟨rest, rfl, hrest⟩ := h.cons_left (solid c (by simp)).1
    obtain ⟨r', rfl, hr⟩ := ih hrest fun d hd => solid d (by simp [hd])
    exact ⟨r', rfl, hr⟩

@[inherit_doc append_left]
theorem append_right (h : Unified cs (t ++ r)) (solid : Solid t) :
    ∃ r', cs = t ++ r' ∧ Unified r' r := by
  induction t generalizing cs with
  | nil => exact ⟨cs, rfl, h⟩
  | cons c t ih =>
    obtain ⟨rest, rfl, hrest⟩ := h.cons_right (solid c (by simp)).2
    obtain ⟨r', rfl, hr⟩ := ih hrest fun d hd => solid d (by simp [hd])
    exact ⟨r', rfl, hr⟩

theorem nil_iff (h : Unified cs cs') : cs = [] ↔ cs' = [] := by
  cases h <;> simp

theorem drop {n : Nat} (h : Unified cs cs') (solid : Solid (cs.take n)) :
    Unified (cs.drop n) (cs'.drop n) := by
  rw [← List.take_append_drop n cs] at h
  obtain ⟨r', rfl, hr⟩ := h.append_left solid
  rcases Nat.le_total n cs.length with hn | hn
  · rwa [List.drop_left' (List.length_take_of_le hn)]
  · rw [List.drop_eq_nil_of_le hn] at hr ⊢
    cases hr
    rw [List.append_nil, List.drop_eq_nil_of_le (List.length_take_le n cs)]
    exact .nil

/-- Both texts begin with the same character, unless it is a line end. -/
theorem head_iff (h : Unified cs cs') (hc : c ≠ '\r' ∧ c ≠ '\n') :
    cs.head? = some c ↔ cs'.head? = some c := by
  cases h with
  | nil => exact Iff.rfl
  | char => exact Iff.rfl
  | _ => simp [hc.1.symm, hc.2.symm]

theorem tail (h : Unified cs cs') (hhead : cs.head? = some c) (hc : c ≠ '\r') :
    Unified cs.tail cs'.tail := by
  cases h with
  | nil => exact .nil
  | char _ h => exact h
  | _ =>
    obtain rfl := Option.some.inj hhead
    exact absurd rfl hc

theorem takeWhile_eq {p : Char → Bool} (h : Unified cs cs') (hr : p '\r' = false)
    (hn : p '\n' = false) : cs.takeWhile p = cs'.takeWhile p := by
  induction h with
  | nil => rfl
  | char c h ih => rw [List.takeWhile_cons, List.takeWhile_cons, ih]
  | _ => simp [hr, hn]

theorem isPrefixOf_eq {w : List Char} (h : Unified cs cs') (solid : Solid w) :
    w.isPrefixOf cs = w.isPrefixOf cs' := by
  induction w generalizing cs cs' with
  | nil => simp
  | cons c w ih =>
    have hc := solid c (by simp)
    cases h with
    | nil => rfl
    | char d h =>
      rw [List.isPrefixOf, List.isPrefixOf, ih h fun d hd => solid d (by simp [hd])]
    | _ =>
      rw [List.isPrefixOf, List.isPrefixOf, beq_false_of_ne hc.1, beq_false_of_ne hc.2]
      rfl

theorem skipGap (h : Unified cs cs') : Unified (cs.dropWhile isGap) (cs'.dropWhile isGap) := by
  induction h with
  | nil => exact .nil
  | char c h ih =>
    rw [List.dropWhile_cons, List.dropWhile_cons]
    split
    · exact ih
    · exact .char c h
  | _ _ ih => exact ih

end Unified

theorem skipGap_rest (here : Cursor) : here.skipGap.rest = here.rest.dropWhile isGap := by
  have hparts := List.takeWhile_append_dropWhile (p := isGap) (l := here.rest)
  calc here.rest.drop (here.rest.takeWhile isGap).length
      = (here.rest.takeWhile isGap ++ here.rest.dropWhile isGap).drop
          (here.rest.takeWhile isGap).length := by rw [hparts]
    _ = here.rest.dropWhile isGap := List.drop_left

theorem length_skipGap_le (here : Cursor) : here.skipGap.rest.length ≤ here.rest.length := by
  rw [skipGap_rest]
  exact (List.dropWhile_sublist _).length_le

/-! ## Reading side by side -/

/-- Two readings come to the same and go on at texts of the same lines, or both are stopped, by the
digits of an integer or by something else. -/
inductive Alike {α : Type} (start start' : Cursor) :
    Except Complaint (α × Cursor) → Except Complaint (α × Cursor) → Prop
  | read (v : α) {behind behind' : Cursor} (unified : Unified behind.rest behind'.rest)
      (shorter : behind.rest.length < start.rest.length)
      (shorter' : behind'.rest.length < start'.rest.length) :
      Alike start start' (.ok (v, behind)) (.ok (v, behind'))
  | stopped {c c' : Complaint} (causes : c.cause = .longInteger ↔ c'.cause = .longInteger) :
      Alike start start' (.error c) (.error c')

namespace Alike

variable {α β : Type} {start start' middle middle' : Cursor}

theorem fail {here here' : Cursor} {cause : Cause} :
    Alike start start' (here.fail cause : Except Complaint (α × Cursor)) (here'.fail cause) :=
  .stopped Iff.rfl

/-- What is read further on is read from here. -/
theorem mono {a a' : Except Complaint (α × Cursor)} (h : Alike middle middle' a a')
    (hle : middle.rest.length ≤ start.rest.length)
    (hle' : middle'.rest.length ≤ start'.rest.length) : Alike start start' a a' := by
  cases h with
  | read v unified shorter shorter' =>
    exact .read v unified (Nat.lt_of_lt_of_le shorter hle) (Nat.lt_of_lt_of_le shorter' hle')
  | stopped causes => exact .stopped causes

theorem bind {a a' : Except Complaint (α × Cursor)}
    {next next' : α × Cursor → Except Complaint (β × Cursor)} (h : Alike start start' a a')
    (hnext : ∀ v behind behind', Unified behind.rest behind'.rest →
      behind.rest.length < start.rest.length → behind'.rest.length < start'.rest.length →
      Alike start start' (next (v, behind)) (next' (v, behind'))) :
    Alike start start' (a >>= next) (a' >>= next') := by
  cases h with
  | read v unified shorter shorter' => exact hnext v _ _ unified shorter shorter'
  | stopped causes => exact .stopped causes

end Alike

/-! ## Texts -/

theorem solid_of_printable {t : List Char} (h : ∀ c ∈ t, 32 ≤ c.toNat) : Solid t := by
  intro c hc
  have hprintable := h c hc
  refine ⟨?_, ?_⟩ <;> rintro rfl <;> exact absurd hprintable (by decide)

theorem alike_text {start start' : Cursor} {a a' p p' : Nat} {cs cs' : List Char}
    (h : Unified cs cs') (hle : cs.length ≤ start.rest.length)
    (hle' : cs'.length ≤ start'.rest.length) :
    Alike start start' (readText a p cs) (readText a' p' cs') := by
  cases hread : readText a p cs with
  | ok r =>
    obtain ⟨out, behind⟩ := r
    obtain ⟨t, rfl, hne, hprintable, hany⟩ := readText_upTo hread
    obtain ⟨r', rfl, hrest⟩ := h.append_left (solid_of_printable hprintable)
    obtain ⟨q, hread'⟩ := hany a' p' r'
    have hpos := List.length_pos_iff.2 hne
    rw [List.length_append] at hle hle'
    rw [hread']
    exact .read out hrest (by omega) (by dsimp only; omega)
  | error c =>
    cases hread' : readText a' p' cs' with
    | ok r' =>
      obtain ⟨out, behind⟩ := r'
      obtain ⟨t, rfl, -, hprintable, hany⟩ := readText_upTo hread'
      obtain ⟨r, rfl, -⟩ := h.append_right (solid_of_printable hprintable)
      obtain ⟨q, hok⟩ := hany a p r
      cases hread.symm.trans hok
    | error c' =>
      exact .stopped (iff_of_false (readText_cause hread) (readText_cause hread'))

/-! ## Numbers and words -/

theorem take_length_takeWhile {p : Char → Bool} (cs : List Char) :
    cs.take (cs.takeWhile p).length = cs.takeWhile p := by
  have hparts := List.takeWhile_append_dropWhile (p := p) (l := cs)
  calc cs.take (cs.takeWhile p).length
      = (cs.takeWhile p ++ cs.dropWhile p).take (cs.takeWhile p).length := by rw [hparts]
    _ = cs.takeWhile p := List.take_left

theorem solid_digits (cs : List Char) : Solid (cs.takeWhile isDigit) := by
  intro c hc
  have hdigit := List.all_eq_true.1 List.all_takeWhile c hc
  refine ⟨?_, ?_⟩ <;> rintro rfl <;> exact absurd hdigit (by decide)

theorem Unified.digits_eq {cs cs' : List Char} (h : Unified cs cs') :
    cs.takeWhile isDigit = cs'.takeWhile isDigit :=
  h.takeWhile_eq (by decide) (by decide)

theorem Unified.wholePart_eq {cs cs' : List Char} (h : Unified cs cs') :
    wholePart cs = wholePart cs' := by
  cases h with
  | nil => rfl
  | char c h =>
    by_cases hc : c = '0'
    · rw [hc, wholePart, wholePart]
    · rw [wholePart, wholePart, (h.char c).digits_eq]
      all_goals simp [hc]
  | _ => rfl

theorem Unified.fractionPart_eq {cs cs' : List Char} (h : Unified cs cs') :
    fractionPart cs = fractionPart cs' := by
  cases h with
  | nil => rfl
  | char c h =>
    by_cases hc : c = '.'
    · rw [hc, fractionPart, fractionPart, h.digits_eq]
    · rw [fractionPart, fractionPart]
      all_goals simp [hc]
  | _ => rfl

theorem take_wholePart (cs : List Char) : cs.take (wholePart cs).length = wholePart cs := by
  unfold wholePart
  split
  · simp
  · exact take_length_takeWhile cs

theorem solid_wholePart (cs : List Char) : Solid (wholePart cs) := by
  unfold wholePart
  split
  · simp [Solid]
  · exact solid_digits cs

theorem solid_fractionPart {cs : List Char} (h : fractionPart cs ≠ []) :
    Solid (cs.take ((fractionPart cs).length + 1)) := by
  unfold fractionPart at h ⊢
  split
  · next cs =>
    rw [List.take_succ_cons, take_length_takeWhile]
    intro c hc
    rcases List.mem_cons.1 hc with rfl | hc
    · decide
    · exact solid_digits cs c hc
  · next hpoint => simp at h

theorem takeSign_none {cs : List Char} (h : ∀ c ∈ cs.head?, c ≠ '-' ∧ c ≠ '+') :
    Number.takeSign cs = (false, cs) := by
  unfold Number.takeSign
  split
  · exact absurd rfl (h '-' rfl).1
  · exact absurd rfl (h '+' rfl).2
  · rfl

theorem takeSign_append (cs : List Char) :
    ∃ sign, Solid sign ∧ cs = sign ++ (Number.takeSign cs).2 := by
  unfold Number.takeSign
  split
  · exact ⟨['-'], by simp [Solid], rfl⟩
  · exact ⟨['+'], by simp [Solid], rfl⟩
  · exact ⟨[], by simp [Solid], rfl⟩

theorem Unified.takeSign {cs cs' : List Char} (h : Unified cs cs') :
    (Number.takeSign cs).1 = (Number.takeSign cs').1 ∧
      Unified (Number.takeSign cs).2 (Number.takeSign cs').2 ∧
      cs.length - (Number.takeSign cs).2.length = cs'.length - (Number.takeSign cs').2.length := by
  cases h with
  | nil => exact ⟨rfl, .nil, rfl⟩
  | char c h =>
    by_cases hminus : c = '-'
    · subst hminus
      exact ⟨rfl, h, by simp [Number.takeSign]⟩
    by_cases hplus : c = '+'
    · subst hplus
      exact ⟨rfl, h, by simp [Number.takeSign]⟩
    rw [takeSign_none (by simp [hminus, hplus]), takeSign_none (by simp [hminus, hplus])]
    exact ⟨rfl, h.char c, by simp⟩
  | pair h => exact ⟨rfl, .pair h, by simp [Number.takeSign]⟩
  | lone h => exact ⟨rfl, .lone h, by simp [Number.takeSign]⟩

theorem solid_exponentPart {cs ds : List Char} {negative : Bool} {width : Nat}
    (h : exponentPart cs = some (negative, ds, width)) : Solid (cs.take width) := by
  unfold exponentPart at h
  split at h
  · next c cs =>
    split at h
    · next hletter =>
      dsimp only at h
      split at h
      · cases h
      obtain ⟨-, rfl, rfl⟩ := Prod.mk.injEq .. ▸ Option.some.inj h
      obtain ⟨sign, hsolid, hcs⟩ := takeSign_append cs
      generalize (Number.takeSign cs).2 = body at hcs
      subst hcs
      have hwidth : 1 + ((sign ++ body).length - body.length) + (body.takeWhile isDigit).length =
          sign.length + (body.takeWhile isDigit).length + 1 := by
        rw [List.length_append]
        omega
      rw [hwidth, List.take_succ_cons, List.take_length_add_append, take_length_takeWhile]
      intro d hd
      rcases List.mem_cons.1 hd with rfl | hd
      · refine ⟨?_, ?_⟩ <;> rintro rfl <;> exact absurd hletter (by decide)
      · rcases List.mem_append.1 hd with hd | hd
        · exact hsolid d hd
        · exact solid_digits body d hd
    · cases h
  · cases h

theorem Unified.exponentPart_eq {cs cs' : List Char} (h : Unified cs cs') :
    exponentPart cs = exponentPart cs' := by
  cases h with
  | nil => rfl
  | char c h =>
    obtain ⟨hsign, hbody, hwidth⟩ := h.takeSign
    simp only [exponentPart, hsign, hbody.digits_eq, hwidth]
  | _ => rfl

theorem Unified.advance {here here' : Cursor} {n : Nat} (h : Unified here.rest here'.rest)
    (solid : Solid (here.rest.take n)) : Unified (here.advance n).rest (here'.advance n).rest :=
  h.drop solid

theorem length_advance_le (here : Cursor) (n : Nat) :
    (here.advance n).rest.length ≤ here.rest.length := by
  simp [Cursor.advance]

theorem length_advance_lt {here : Cursor} {n : Nat} (hrest : here.rest ≠ []) (hn : n ≠ 0) :
    (here.advance n).rest.length < here.rest.length := by
  have hpos := List.length_pos_iff.2 hrest
  simp only [Cursor.advance, List.length_drop]
  omega

theorem length_wholePart_lt {here : Cursor} (h : wholePart here.rest ≠ []) :
    (here.advance (wholePart here.rest).length).rest.length < here.rest.length := by
  refine length_advance_lt (fun hnil => h (by rw [hnil]; rfl)) fun hzero => ?_
  exact h (List.eq_nil_of_length_eq_zero hzero)

theorem length_ite_le {here there : Cursor} (p : Prop) [Decidable p] {n : Nat}
    (hhere : here.rest.length ≤ n) (hthere : there.rest.length ≤ n) :
    (if p then here else there).rest.length ≤ n := by
  split
  · exact hhere
  · exact hthere

theorem solid_head {cs : List Char} {c : Char} (h : cs.head? = some c) (hc : c ≠ '\r' ∧ c ≠ '\n') :
    Solid (cs.take 1) := by
  obtain ⟨rest, rfl⟩ := List.head?_eq_some_iff.1 h
  simpa [Solid] using hc

theorem alike_number {start start' : Cursor} (h : Unified start.rest start'.rest) :
    Alike start start' (readNumber start) (readNumber start') := by
  unfold readNumber
  extract_lets negative body whole behind fraction tail m
    negative' body' whole' behind' fraction' tail' m'
  have hnegative : negative = negative' :=
    Bool.eq_iff_iff.2 (by simpa [negative, negative'] using h.head_iff (by decide))
  have hbody : Unified body.rest body'.rest := by
    simp only [body, body', ← hnegative]
    split
    · next hminus =>
      have hhead : start.rest.head? = some '-' := by simpa [negative] using hminus
      exact h.advance (solid_head hhead (by decide))
    · exact h
  have hwhole : whole = whole' := hbody.wholePart_eq
  have hbehind : Unified behind.rest behind'.rest := by
    simp only [behind, behind', ← hwhole]
    refine hbody.advance ?_
    rw [take_wholePart]
    exact solid_wholePart _
  have hfraction : fraction = fraction' := hbehind.fractionPart_eq
  have htail : Unified tail.rest tail'.rest := by
    simp only [tail, tail', ← hfraction]
    split
    · exact hbehind
    · next hsome => exact hbehind.advance (solid_fractionPart (by simpa using hsome))
  have hshorter : whole ≠ [] → tail.rest.length < start.rest.length := fun hne =>
    Nat.lt_of_le_of_lt (length_ite_le _ (Nat.le_refl _) (length_advance_le _ _))
      (Nat.lt_of_lt_of_le (length_wholePart_lt hne)
        (length_ite_le _ (length_advance_le _ _) (Nat.le_refl _)))
  have hshorter' : whole ≠ [] → tail'.rest.length < start'.rest.length := fun hne =>
    Nat.lt_of_le_of_lt (length_ite_le _ (Nat.le_refl _) (length_advance_le _ _))
      (Nat.lt_of_lt_of_le (length_wholePart_lt (show whole' ≠ [] from hwhole ▸ hne))
        (length_ite_le _ (length_advance_le _ _) (Nat.le_refl _)))
  have hm : m = m' := by
    simp only [m, m', hwhole, hfraction]
  rw [← hnegative, ← hwhole, ← hfraction, ← htail.exponentPart_eq, ← hm]
  split
  · exact .fail
  next hne =>
  have hne : whole ≠ [] := by simpa using hne
  split
  · next hexponent =>
    refine .read _ (htail.advance (solid_exponentPart hexponent)) ?_ ?_
    · exact Nat.lt_of_le_of_lt (length_advance_le _ _) (hshorter hne)
    · exact Nat.lt_of_le_of_lt (length_advance_le _ _) (hshorter' hne)
  · split
    · split
      · exact .fail
      · exact .read _ htail (hshorter hne) (hshorter' hne)
    · exact .read _ htail (hshorter hne) (hshorter' hne)

theorem solid_words : ∀ entry ∈ words, Solid entry.1.toList ∧ entry.1.toList ≠ [] := by
  simp [words, Solid]

/-- A text begins with one of the words or with none of them. -/
theorem find_words_cases (rest : List Char) :
    words.find? (fun (word, _) => word.toList.isPrefixOf rest) = none ∨
      ∃ word j, words.find? (fun (word, _) => word.toList.isPrefixOf rest) = some (word, j) ∧
        Solid word.toList ∧ word.toList ≠ [] ∧ word.toList <+: rest := by
  refine (Option.eq_none_or_eq_some _).imp_right ?_
  rintro ⟨⟨word, j⟩, hword⟩
  obtain ⟨hsolid, hne⟩ := solid_words _ (List.mem_of_find?_eq_some hword)
  have hprefix := List.find?_some hword
  exact ⟨word, j, hword, hsolid, hne, List.isPrefixOf_iff_prefix.1 hprefix⟩

theorem Unified.find_words_eq {rest rest' : List Char} (h : Unified rest rest') :
    words.find? (fun (word, _) => word.toList.isPrefixOf rest') =
      words.find? fun (word, _) => word.toList.isPrefixOf rest :=
  (List.find?_congr fun entry hentry => h.isPrefixOf_eq (solid_words entry hentry).1).symm

theorem alike_scalar {start start' : Cursor} (h : Unified start.rest start'.rest) :
    Alike start start' (readScalar start) (readScalar start') := by
  unfold readScalar
  rw [h.find_words_eq]
  obtain hnone | ⟨word, j, hword, hsolid, hne, rest, hrest⟩ := find_words_cases start.rest
  · rw [hnone]
    exact alike_number h
  · rw [hword]
    have htake : start.rest.take word.length = word.toList := by
      rw [← hrest, ← String.length_toList, List.take_left]
    have hlength : word.length ≠ 0 := by
      rw [← String.length_toList]
      exact fun hzero => hne (List.eq_nil_of_length_eq_zero hzero)
    have hadvance := h.advance (n := word.length) (by rwa [htake])
    have hrest : start.rest ≠ [] := by
      rw [← hrest]
      exact List.append_ne_nil_of_left_ne_nil hne rest
    exact .read j hadvance (length_advance_lt hrest hlength)
      (length_advance_lt (fun hnil => hrest (h.nil_iff.2 hnil)) hlength)

/-! ## Values, items and entries -/

/-- With as much fuel as the texts are long, and some more, a reader is alike on both. -/
def ReadsAlike {α : Type} (reader : Nat → Cursor → Except Complaint (α × Cursor))
    (margin fuel : Nat) : Prop :=
  ∀ fuel' start start', Unified start.rest start'.rest →
    2 * start.rest.length + margin ≤ fuel → 2 * start'.rest.length + margin ≤ fuel' →
    Alike start start' (reader fuel start) (reader fuel' start')

theorem readValue_succ (fuel : Nat) (start : Cursor) : readValue (fuel + 1) start =
    if start.rest.head? = some '"' then do
      let (cs, behind) ← readText start.place (start.place + 1) start.rest.tail
      pure (.text (String.ofList cs), behind)
    else if start.rest.head? = some '[' then
      if (start.advance 1).skipGap.rest.head? = some ']' then
        .ok (.list [], (start.advance 1).skipGap.advance 1)
      else do
        let (items, behind) ← readItems fuel (start.advance 1).skipGap
        pure (.list items, behind)
    else if start.rest.head? = some '\x7b' then
      if (start.advance 1).skipGap.rest.head? = some '\x7d' then
        .ok (.object [], (start.advance 1).skipGap.advance 1)
      else do
        let (entries, behind) ← readEntries fuel (start.advance 1).skipGap
        pure (.object (Entries.ofList entries), behind)
    else readScalar start := by
  rw [readValue]
  split
  · next h => simp [h]
  · next h => simp [h]
  · next h => simp [h]
  · next hquote hbracket hbrace =>
    cases hrest : start.rest with
    | nil => rfl
    | cons c rest =>
      have h₁ : c ≠ '"' := fun h => hquote rest (h ▸ hrest)
      have h₂ : c ≠ '[' := fun h => hbracket rest (h ▸ hrest)
      have h₃ : c ≠ '\x7b' := fun h => hbrace rest (h ▸ hrest)
      simp [h₁, h₂, h₃]

/-- What comes behind an item or an entry: the closing bracket, or a comma and more. -/
def goOn {α : Type} (close : Char) (first : α) (more : Cursor → Except Complaint (List α × Cursor))
    (behind : Cursor) : Except Complaint (List α × Cursor) :=
  if behind.skipGap.rest.head? = some close then .ok ([first], behind.skipGap.advance 1)
  else if behind.skipGap.rest.head? = some ',' then do
    let (others, last) ← more (behind.skipGap.advance 1).skipGap
    pure (first :: others, last)
  else behind.skipGap.fail .comma

theorem readItems_succ (fuel : Nat) (start : Cursor) :
    readItems (fuel + 1) start = (do
      let (item, behind) ← readValue fuel start
      goOn ']' item (readItems fuel) behind) := by
  rw [readItems]
  refine bind_congr fun ⟨item, behind⟩ => ?_
  dsimp only
  split
  · next h => simp [goOn, h]; rfl
  · next h => simp [goOn, h]
  · next hclose hcomma =>
    cases hrest : behind.skipGap.rest with
    | nil => simp [goOn, hrest]
    | cons c rest =>
      have h₁ : c ≠ ']' := fun h => hclose rest (h ▸ hrest)
      have h₂ : c ≠ ',' := fun h => hcomma rest (h ▸ hrest)
      simp [goOn, hrest, h₁, h₂]

theorem readEntries_succ (fuel : Nat) (start : Cursor) :
    readEntries (fuel + 1) start =
      if start.rest.head? = some '"' then do
        let (cs, behind) ← readText start.place (start.place + 1) start.rest.tail
        if behind.skipGap.rest.head? = some ':' then do
          let (value, behind) ← readValue fuel (behind.skipGap.advance 1).skipGap
          goOn '\x7d' (String.ofList cs, value) (readEntries fuel) behind
        else behind.skipGap.fail .colon
      else start.fail .name := by
  rw [readEntries]
  split
  · next rest h =>
    rw [h, List.head?_cons, if_pos rfl, List.tail_cons]
    refine bind_congr fun ⟨cs, behind⟩ => ?_
    by_cases hcolon : behind.skipGap.rest.head? = some ':'
    · simp only [hcolon, bne_self_eq_false, Bool.false_eq_true, if_false, if_true]
      refine bind_congr fun ⟨value, last⟩ => ?_
      dsimp only
      split
      · next h => simp [goOn, h]; rfl
      · next h => simp [goOn, h]
      · next hclose hcomma =>
        cases hrest : last.skipGap.rest with
        | nil => simp [goOn, hrest]
        | cons c rest =>
          have h₁ : c ≠ '\x7d' := fun h => hclose rest (h ▸ hrest)
          have h₂ : c ≠ ',' := fun h => hcomma rest (h ▸ hrest)
          simp [goOn, hrest, h₁, h₂]
    · simp [hcolon]
  · next h =>
    cases hrest : start.rest with
    | nil => simp
    | cons c rest =>
      have hc : c ≠ '"' := fun hc => h rest (hc ▸ hrest)
      simp [hc]

/-! ## Step by step -/

theorem Unified.skipGap_rest {here here' : Cursor} (h : Unified here.rest here'.rest) :
    Unified here.skipGap.rest here'.skipGap.rest := by
  rw [Json.skipGap_rest, Json.skipGap_rest]
  exact h.skipGap

theorem Unified.behind {here here' : Cursor} {c : Char} (h : Unified here.rest here'.rest)
    (hhead : here.rest.head? = some c) (hc : c ≠ '\r' ∧ c ≠ '\n') :
    Unified (here.advance 1).rest (here'.advance 1).rest :=
  h.advance (solid_head hhead hc)

theorem length_behind_lt {here : Cursor} {c : Char} (hhead : here.rest.head? = some c) :
    (here.advance 1).rest.length < here.rest.length := by
  refine length_advance_lt (fun hnil => ?_) (by decide)
  rw [hnil] at hhead
  cases hhead

section Steps

variable {α : Type} {start start' behind behind' : Cursor} {fuel fuel' : Nat}

theorem alike_goOn {close : Char} (hclose : close ≠ '\r' ∧ close ≠ '\n') {first : α}
    {reader : Nat → Cursor → Except Complaint (List α × Cursor)}
    (reads : ReadsAlike reader 3 fuel) (h : Unified behind.rest behind'.rest)
    (hlt : behind.rest.length < start.rest.length)
    (hlt' : behind'.rest.length < start'.rest.length)
    (hfuel : 2 * start.rest.length + 2 ≤ fuel) (hfuel' : 2 * start'.rest.length + 2 ≤ fuel') :
    Alike start start' (goOn close first (reader fuel) behind)
      (goOn close first (reader fuel') behind') := by
  have hskip := h.skipGap_rest
  have hle := length_skipGap_le behind
  have hle' := length_skipGap_le behind'
  unfold goOn
  by_cases hend : behind.skipGap.rest.head? = some close
  · have hend' := (hskip.head_iff hclose).1 hend
    rw [if_pos hend, if_pos hend']
    have hbehind := length_behind_lt hend
    have hbehind' := length_behind_lt hend'
    exact .read _ (hskip.behind hend hclose) (by omega) (by omega)
  rw [if_neg hend, if_neg fun hend' => hend ((hskip.head_iff hclose).2 hend')]
  by_cases hcomma : behind.skipGap.rest.head? = some ','
  · have hcomma' := (hskip.head_iff (by decide)).1 hcomma
    rw [if_pos hcomma, if_pos hcomma']
    have hbehind := length_behind_lt hcomma
    have hbehind' := length_behind_lt hcomma'
    have hnext := length_skipGap_le (behind.skipGap.advance 1)
    have hnext' := length_skipGap_le (behind'.skipGap.advance 1)
    have hmore := reads fuel' _ _ (hskip.behind hcomma (by decide)).skipGap_rest (by omega) (by omega)
    refine (hmore.mono (by omega) (by omega)).bind fun others last last' hlast hlt hlt' => ?_
    exact .read _ hlast hlt hlt'
  · rw [if_neg hcomma, if_neg fun hcomma' => hcomma ((hskip.head_iff (by decide)).2 hcomma')]
    exact .fail

/-- What is read inside brackets: nothing, or some parts. -/
theorem alike_inside {β : Type} {c : Char} (close : Char) (empty : β) (whole : α → β)
    (hhead : start.rest.head? = some c) (hc : c ≠ '\r' ∧ c ≠ '\n')
    (hclose : close ≠ '\r' ∧ close ≠ '\n')
    {reader : Nat → Cursor → Except Complaint (α × Cursor)} (reads : ReadsAlike reader 3 fuel)
    (h : Unified start.rest start'.rest) (hfuel : 2 * start.rest.length + 1 ≤ fuel)
    (hfuel' : 2 * start'.rest.length + 1 ≤ fuel') :
    Alike start start'
      (if (start.advance 1).skipGap.rest.head? = some close then
        .ok (empty, (start.advance 1).skipGap.advance 1)
      else do
        let (parts, behind) ← reader fuel (start.advance 1).skipGap
        pure (whole parts, behind))
      (if (start'.advance 1).skipGap.rest.head? = some close then
        .ok (empty, (start'.advance 1).skipGap.advance 1)
      else do
        let (parts, behind) ← reader fuel' (start'.advance 1).skipGap
        pure (whole parts, behind)) := by
  have hinside := (h.behind hhead hc).skipGap_rest
  have hlt := length_behind_lt hhead
  have hlt' := length_behind_lt ((h.head_iff hc).1 hhead)
  have hle := length_skipGap_le (start.advance 1)
  have hle' := length_skipGap_le (start'.advance 1)
  by_cases hend : (start.advance 1).skipGap.rest.head? = some close
  · have hend' := (hinside.head_iff hclose).1 hend
    rw [if_pos hend, if_pos hend']
    have hbehind := length_behind_lt hend
    have hbehind' := length_behind_lt hend'
    exact .read _ (hinside.behind hend hclose) (by omega) (by omega)
  · rw [if_neg hend, if_neg fun hend' => hend ((hinside.head_iff hclose).2 hend')]
    have hparts := reads fuel' _ _ hinside (by omega) (by omega)
    refine (hparts.mono (by omega) (by omega)).bind fun parts _ _ hbehind hlt hlt' => ?_
    exact .read _ hbehind hlt hlt'

theorem readsAlike_value (items : ReadsAlike readItems 3 fuel)
    (entries : ReadsAlike readEntries 3 fuel) : ReadsAlike readValue 2 (fuel + 1) := by
  intro fuel' start start' h hfuel hfuel'
  obtain ⟨fuel', rfl⟩ : ∃ n, fuel' = n + 1 := ⟨fuel' - 1, by omega⟩
  rw [readValue_succ, readValue_succ]
  by_cases hquote : start.rest.head? = some '"'
  · rw [if_pos hquote, if_pos ((h.head_iff (by decide)).1 hquote)]
    refine (alike_text (h.tail hquote (by decide)) ?_ ?_).bind fun cs _ _ hbehind hlt hlt' => ?_
    · simp
    · simp
    · exact .read _ hbehind hlt hlt'
  rw [if_neg hquote, if_neg fun hquote' => hquote ((h.head_iff (by decide)).2 hquote')]
  by_cases hbracket : start.rest.head? = some '['
  · rw [if_pos hbracket, if_pos ((h.head_iff (by decide)).1 hbracket)]
    exact alike_inside ']' (Json.list []) Json.list hbracket (by decide) (by decide) items h
      (by omega) (by omega)
  rw [if_neg hbracket, if_neg fun hbracket' => hbracket ((h.head_iff (by decide)).2 hbracket')]
  by_cases hbrace : start.rest.head? = some '\x7b'
  · rw [if_pos hbrace, if_pos ((h.head_iff (by decide)).1 hbrace)]
    exact alike_inside '\x7d' (Json.object []) (fun entries => Json.object (Entries.ofList entries))
      hbrace (by decide) (by decide) entries h (by omega) (by omega)
  rw [if_neg hbrace, if_neg fun hbrace' => hbrace ((h.head_iff (by decide)).2 hbrace')]
  exact alike_scalar h

theorem readsAlike_items (value : ReadsAlike readValue 2 fuel) (items : ReadsAlike readItems 3 fuel) :
    ReadsAlike readItems 3 (fuel + 1) := by
  intro fuel' start start' h hfuel hfuel'
  obtain ⟨fuel', rfl⟩ : ∃ n, fuel' = n + 1 := ⟨fuel' - 1, by omega⟩
  rw [readItems_succ, readItems_succ]
  refine (value fuel' start start' h (by omega) (by omega)).bind fun item _ _ hbehind hlt hlt' => ?_
  exact alike_goOn (by decide) items hbehind hlt hlt' (by omega) (by omega)

theorem readsAlike_entries (value : ReadsAlike readValue 2 fuel)
    (entries : ReadsAlike readEntries 3 fuel) : ReadsAlike readEntries 3 (fuel + 1) := by
  intro fuel' start start' h hfuel hfuel'
  obtain ⟨fuel', rfl⟩ : ∃ n, fuel' = n + 1 := ⟨fuel' - 1, by omega⟩
  rw [readEntries_succ, readEntries_succ]
  by_cases hquote : start.rest.head? = some '"'
  swap
  · rw [if_neg hquote, if_neg fun hquote' => hquote ((h.head_iff (by decide)).2 hquote')]
    exact .fail
  rw [if_pos hquote, if_pos ((h.head_iff (by decide)).1 hquote)]
  refine (alike_text (h.tail hquote (by decide)) (by simp) (by simp)).bind
    fun cs behind behind' hbehind hlt hlt' => ?_
  have hskip := hbehind.skipGap_rest
  have hle := length_skipGap_le behind
  have hle' := length_skipGap_le behind'
  dsimp only
  by_cases hcolon : behind.skipGap.rest.head? = some ':'
  swap
  · rw [if_neg hcolon, if_neg fun hcolon' => hcolon ((hskip.head_iff (by decide)).2 hcolon')]
    exact .fail
  have hcolon' := (hskip.head_iff (by decide)).1 hcolon
  rw [if_pos hcolon, if_pos hcolon']
  have hnext := length_skipGap_le (behind.skipGap.advance 1)
  have hnext' := length_skipGap_le (behind'.skipGap.advance 1)
  have hlast := length_behind_lt hcolon
  have hlast' := length_behind_lt hcolon'
  have hvalue := value fuel' _ _ (hskip.behind hcolon (by decide)).skipGap_rest (by omega) (by omega)
  refine (hvalue.mono (by omega) (by omega)).bind fun item _ _ hitem hlt hlt' => ?_
  exact alike_goOn (by decide) entries hitem hlt hlt' (by omega) (by omega)

/-- **Both texts are read alike**, step by step. -/
theorem readsAlike (fuel : Nat) : ReadsAlike readValue 2 fuel ∧ ReadsAlike readItems 3 fuel ∧
    ReadsAlike readEntries 3 fuel := by
  induction fuel with
  | zero =>
    refine ⟨?_, ?_, ?_⟩ <;> intro fuel' start start' h hfuel <;> omega
  | succ fuel ih =>
    obtain ⟨value, items, entries⟩ := ih
    exact ⟨readsAlike_value items entries, readsAlike_items value items,
      readsAlike_entries value entries⟩

end Steps

/-- **Line ends make no difference to what a text says.** -/
theorem read_unify (source : String) :
    (∃ j, read source = .ok j ∧ read (String.ofList (unifyLineEnds source.toList)) = .ok j) ∨
      ∃ c c', read source = .error c ∧
        read (String.ofList (unifyLineEnds source.toList)) = .error c' ∧
        (c.cause = .longInteger ↔ c'.cause = .longInteger) := by
  have h := unified_unify source.toList
  generalize unifyLineEnds source.toList = cs' at h
  unfold read
  simp only [String.toList_ofList, beq_iff_eq]
  by_cases hmark : source.toList.head? = some (Char.ofNat 0xFEFF)
  · rw [if_pos hmark, if_pos ((h.head_iff (by decide)).1 hmark)]
    exact .inr ⟨_, _, rfl, rfl, Iff.rfl⟩
  rw [if_neg hmark, if_neg fun hmark' => hmark ((h.head_iff (by decide)).2 hmark')]
  have hstart : Unified (Cursor.mk 0 source.toList).skipGap.rest (Cursor.mk 0 cs').skipGap.rest :=
    Unified.skipGap_rest h
  have hle : (Cursor.mk 0 source.toList).skipGap.rest.length ≤ source.toList.length :=
    length_skipGap_le _
  have hle' : (Cursor.mk 0 cs').skipGap.rest.length ≤ cs'.length := length_skipGap_le _
  have halike := (readsAlike (2 * source.toList.length + 2)).1 (2 * cs'.length + 2) _ _ hstart
    (by omega) (by omega)
  generalize readValue (2 * source.toList.length + 2) _ = reading at halike ⊢
  generalize readValue (2 * cs'.length + 2) _ = reading' at halike ⊢
  cases halike with
  | stopped causes => exact .inr ⟨_, _, rfl, rfl, causes⟩
  | @read j behind behind' hbehind =>
    have hrest := hbehind.skipGap_rest.nil_iff
    simp only [Attempt.ok_bind, List.isEmpty_iff]
    by_cases hend : behind.skipGap.rest = []
    · exact .inl ⟨j, by rw [if_pos hend]; rfl, by rw [if_pos (hrest.1 hend)]; rfl⟩
    · refine .inr ⟨⟨.extra, behind.skipGap.place⟩, ⟨.extra, behind'.skipGap.place⟩, ?_, ?_, Iff.rfl⟩
      · rw [if_neg hend]
        rfl
      · rw [if_neg fun hend' => hend (hrest.2 hend')]
        rfl

end WorkflowEngine.Json
