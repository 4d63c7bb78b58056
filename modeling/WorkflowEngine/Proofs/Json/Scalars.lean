import WorkflowEngine.Proofs.Json.LineEnds
import WorkflowEngine.Proofs.Json.RoundTrip

/-!
# Where words and numbers end

Which word or number a text begins with hangs on the run of letters, digits, signs and points alone
that the text begins with, and nothing behind the run is taken (`readScalar_abreast`). So a word or
a number that is read up to where its run ends is read there whatever stands behind it
(`readScalar_upTo`).
-/

namespace WorkflowEngine.Json

open Number

/-! ## Runs -/

/-- Whether a character can be one of a word or a number. -/
def isScalarChar (c : Char) : Bool := isDigit c || c.isAlpha || ['.', '+', '-'].contains c

/-- The run of such characters that a text begins with. -/
def scalarRun (cs : List Char) : List Char := cs.takeWhile isScalarChar

variable {cs : List Char} {n : Nat}

theorem takeWhile_scalarRun {p : Char → Bool} (h : ∀ c, p c = true → isScalarChar c = true)
    (cs : List Char) : (scalarRun cs).takeWhile p = cs.takeWhile p := by
  rw [scalarRun, List.takeWhile_takeWhile]
  congr 1
  funext c
  simpa using h c

theorem takeWhile_isDigit_scalarRun (cs : List Char) :
    (scalarRun cs).takeWhile isDigit = cs.takeWhile isDigit :=
  takeWhile_scalarRun (fun c hc => by rw [isScalarChar, hc]; rfl) cs

theorem scalarRun_cons {c : Char} (h : isScalarChar c = true) (cs : List Char) :
    scalarRun (c :: cs) = c :: scalarRun cs :=
  List.takeWhile_cons_of_pos h

/-- A text begins with the same character as its run, if that can be in a run. -/
theorem head_scalarRun {c : Char} (h : isScalarChar c = true) (cs : List Char) :
    (scalarRun cs).head? = some c ↔ cs.head? = some c := by
  cases cs with
  | nil => rfl
  | cons d cs =>
    rw [scalarRun, List.takeWhile_cons]
    split
    · rfl
    · next hd =>
      refine iff_of_false nofun fun hc => hd ?_
      rw [List.head?_cons, Option.some.injEq] at hc
      rw [hc, h]

theorem scalarRun_drop (h : n ≤ (scalarRun cs).length) :
    scalarRun (cs.drop n) = (scalarRun cs).drop n := by
  induction n generalizing cs with
  | zero => rfl
  | succ n ih =>
    cases cs with
    | nil => exact absurd h (Nat.not_succ_le_zero n)
    | cons c cs =>
      by_cases hc : isScalarChar c = true
      · rw [scalarRun_cons hc] at h ⊢
        exact ih (Nat.le_of_succ_le_succ h)
      · rw [scalarRun, List.takeWhile_cons_of_neg hc] at h
        exact absurd h (Nat.not_succ_le_zero n)

/-! ## The parts of a number -/

theorem wholePart_scalarRun (cs : List Char) : wholePart (scalarRun cs) = wholePart cs := by
  by_cases hzero : cs.head? = some '0'
  · obtain ⟨rest, rfl⟩ := List.head?_eq_some_iff.1 hzero
    rfl
  · have hzero' := mt (head_scalarRun (c := '0') rfl cs).1 hzero
    have hwhole : ∀ ds : List Char, ds.head? ≠ some '0' → wholePart ds = ds.takeWhile isDigit := by
      intro ds hds
      unfold wholePart
      split
      · exact absurd rfl hds
      · rfl
    rw [hwhole _ hzero, hwhole _ hzero', takeWhile_isDigit_scalarRun]

theorem fractionPart_scalarRun (cs : List Char) : fractionPart (scalarRun cs) = fractionPart cs := by
  by_cases hpoint : cs.head? = some '.'
  · obtain ⟨rest, rfl⟩ := List.head?_eq_some_iff.1 hpoint
    exact takeWhile_isDigit_scalarRun rest
  · have hpoint' := mt (head_scalarRun (c := '.') rfl cs).1 hpoint
    have hnone : ∀ ds : List Char, ds.head? ≠ some '.' → fractionPart ds = [] := by
      intro ds hds
      unfold fractionPart
      split
      · exact absurd rfl hds
      · rfl
    rw [hnone _ hpoint, hnone _ hpoint']

theorem takeSign_scalarRun (cs : List Char) :
    takeSign (scalarRun cs) = ((takeSign cs).1, scalarRun (takeSign cs).2) ∧
      (scalarRun cs).length - (scalarRun (takeSign cs).2).length =
        cs.length - (takeSign cs).2.length := by
  by_cases hminus : cs.head? = some '-'
  · obtain ⟨rest, rfl⟩ := List.head?_eq_some_iff.1 hminus
    rw [scalarRun_cons rfl]
    exact ⟨rfl, by simp [takeSign]⟩
  by_cases hplus : cs.head? = some '+'
  · obtain ⟨rest, rfl⟩ := List.head?_eq_some_iff.1 hplus
    rw [scalarRun_cons rfl]
    exact ⟨rfl, by simp [takeSign]⟩
  have hsign : ∀ c ∈ cs.head?, c ≠ '-' ∧ c ≠ '+' := fun c hc =>
    ⟨fun h => hminus (h ▸ hc), fun h => hplus (h ▸ hc)⟩
  have hsign' : ∀ c ∈ (scalarRun cs).head?, c ≠ '-' ∧ c ≠ '+' := fun c hc =>
    ⟨fun h => hminus ((head_scalarRun rfl cs).1 (h ▸ hc)),
      fun h => hplus ((head_scalarRun rfl cs).1 (h ▸ hc))⟩
  rw [takeSign_none hsign, takeSign_none hsign']
  exact ⟨rfl, by simp⟩

theorem exponentPart_scalarRun (cs : List Char) : exponentPart (scalarRun cs) = exponentPart cs := by
  cases cs with
  | nil => rfl
  | cons c cs =>
    by_cases hletter : (c == 'e' || c == 'E') = true
    · have hscalar : isScalarChar c = true := by
        rcases Bool.or_eq_true _ _ ▸ hletter with h | h
        · rw [eq_of_beq h]
          rfl
        · rw [eq_of_beq h]
          rfl
      obtain ⟨hsign, hwidth⟩ := takeSign_scalarRun cs
      rw [scalarRun_cons hscalar]
      simp only [exponentPart, hsign, hwidth, takeWhile_isDigit_scalarRun]
    · have hnone : ∀ ds : List Char, exponentPart (c :: ds) = none := fun ds => by
        rw [exponentPart, if_neg hletter]
      rw [hnone, scalarRun, List.takeWhile_cons]
      split
      · exact hnone _
      · rfl

theorem length_wholePart_le (cs : List Char) : (wholePart cs).length ≤ (scalarRun cs).length := by
  rw [← wholePart_scalarRun]
  generalize scalarRun cs = ds
  unfold wholePart
  split
  · simp
  · exact (List.takeWhile_sublist _).length_le

theorem length_fractionPart_lt (h : fractionPart cs ≠ []) :
    (fractionPart cs).length < (scalarRun cs).length := by
  rw [← fractionPart_scalarRun] at h ⊢
  generalize scalarRun cs = ds at h ⊢
  unfold fractionPart at h ⊢
  split at h
  · exact Nat.lt_succ_of_le (List.takeWhile_sublist _).length_le
  · exact absurd rfl h

theorem width_exponentPart_le {down : Bool} {digits : List Char} {width : Nat}
    (h : exponentPart cs = some (down, digits, width)) : width ≤ (scalarRun cs).length := by
  rw [← exponentPart_scalarRun] at h
  generalize scalarRun cs = ds at h ⊢
  cases ds with
  | nil => cases h
  | cons c ds =>
    rw [exponentPart] at h
    split at h
    · obtain ⟨sign, -, hds⟩ := takeSign_append ds
      have hdigits := (List.takeWhile_sublist (l := (takeSign ds).2) isDigit).length_le
      have hlength := congrArg List.length hds
      dsimp only at h
      split at h
      · cases h
      · obtain ⟨-, -, rfl⟩ := Prod.mk.injEq .. ▸ Option.some.inj h
        rw [List.length_append] at hlength
        rw [List.length_cons]
        omega
    · cases h

/-! ## Reading abreast -/

theorem advance_advance (here : Cursor) (m n : Nat) :
    (here.advance m).advance n = here.advance (m + n) := by
  simp [Cursor.advance, Nat.add_assoc]

/-- Two cursors are equally far behind two others, and not behind the run there. -/
def Abreast (start start' here here' : Cursor) : Prop :=
  ∃ n, n ≤ (scalarRun start.rest).length ∧ here = start.advance n ∧ here' = start'.advance n

section Abreast

variable {start start' here here' : Cursor}

theorem Abreast.refl : Abreast start start' start start' :=
  ⟨0, Nat.zero_le _, rfl, rfl⟩

theorem Abreast.advance (h : Abreast start start' here here')
    (hn : n ≤ (scalarRun here.rest).length) :
    Abreast start start' (here.advance n) (here'.advance n) := by
  obtain ⟨m, hm, rfl, rfl⟩ := h
  refine ⟨m + n, ?_, advance_advance _ _ _, advance_advance _ _ _⟩
  rw [Cursor.advance, scalarRun_drop hm, List.length_drop] at hn
  omega

theorem Abreast.scalarRun_eq (h : Abreast start start' here here')
    (same : scalarRun start.rest = scalarRun start'.rest) :
    scalarRun here.rest = scalarRun here'.rest := by
  obtain ⟨n, hn, rfl, rfl⟩ := h
  rw [Cursor.advance, Cursor.advance, scalarRun_drop hn, same, scalarRun_drop (same ▸ hn)]

theorem readNumber_abreast (same : scalarRun start.rest = scalarRun start'.rest) {j : Json}
    {behind : Cursor} (hread : readNumber start = .ok (j, behind)) : ∃ behind',
      readNumber start' = .ok (j, behind') ∧ Abreast start start' behind behind' := by
  unfold readNumber at hread ⊢
  extract_lets negative body whole behind₁ fraction behind₂ m at hread
  extract_lets negative' body' whole' behind₁' fraction' behind₂' m'
  -- each part is read off the run in front, so both cursors pass over the same parts
  have hminus : ∀ cs : List Char, (cs.head? == some '-') = ((scalarRun cs).head? == some '-') :=
    fun cs => Bool.eq_iff_iff.2 (by simpa using (head_scalarRun (c := '-') rfl cs).symm)
  have hnegative : negative = negative' := by
    simp only [negative, negative']
    rw [hminus, same, ← hminus]
  have hbody : Abreast start start' body body' := by
    simp only [body, body', ← hnegative]
    split
    · next h =>
      refine Abreast.refl.advance (List.length_pos_iff.2 fun hnil => ?_)
      rw [show negative = _ from hminus _, hnil] at h
      cases h
    · exact .refl
  have hwhole : whole = whole' := by
    simp only [whole, whole']
    rw [← wholePart_scalarRun, hbody.scalarRun_eq same, wholePart_scalarRun]
  have hbehind₁ : Abreast start start' behind₁ behind₁' := by
    simp only [behind₁, behind₁', ← hwhole]
    exact hbody.advance (length_wholePart_le _)
  have hfraction : fraction = fraction' := by
    simp only [fraction, fraction']
    rw [← fractionPart_scalarRun, hbehind₁.scalarRun_eq same, fractionPart_scalarRun]
  have hbehind₂ : Abreast start start' behind₂ behind₂' := by
    simp only [behind₂, behind₂', ← hfraction]
    split
    · exact hbehind₁
    · next hsome => exact hbehind₁.advance (length_fractionPart_lt (by simpa using hsome))
  have hexponent : exponentPart behind₂'.rest = exponentPart behind₂.rest := by
    rw [← exponentPart_scalarRun, ← hbehind₂.scalarRun_eq same, exponentPart_scalarRun]
  have hm : m' = m := by
    simp only [m, m', hwhole, hfraction]
  rw [← hnegative, ← hwhole, ← hfraction, hexponent, hm]
  split at hread
  · cases hread
  next hne =>
  rw [if_neg hne]
  split at hread
  · next hsome =>
    cases hread
    exact ⟨_, rfl, hbehind₂.advance (width_exponentPart_le hsome)⟩
  · split at hread
    · next hinteger =>
      split at hread
      · cases hread
      next hlimit =>
      obtain ⟨rfl, rfl⟩ := Prod.mk.injEq .. ▸ Except.ok.inj hread
      exact ⟨_, by rw [if_pos hinteger, if_neg hlimit], hbehind₂⟩
    · next hinteger =>
      obtain ⟨rfl, rfl⟩ := Prod.mk.injEq .. ▸ Except.ok.inj hread
      exact ⟨_, by rw [if_neg hinteger], hbehind₂⟩

/-! ## Words -/

theorem scalarRun_words : ∀ entry ∈ words, ∀ c ∈ entry.1.toList, isScalarChar c = true := by
  simp [words, isScalarChar, isDigit]

theorem isPrefixOf_scalarRun {word : List Char} (h : ∀ c ∈ word, isScalarChar c = true)
    (cs : List Char) : word.isPrefixOf (scalarRun cs) = word.isPrefixOf cs := by
  induction word generalizing cs with
  | nil => simp
  | cons d word ih =>
    have hd := h d List.mem_cons_self
    cases cs with
    | nil => rfl
    | cons c cs =>
      by_cases hc : d = c
      · subst hc
        rw [scalarRun_cons hd, List.isPrefixOf, List.isPrefixOf,
          ih fun e he => h e (List.mem_cons_of_mem _ he)]
      · have hfalse : (d :: word).isPrefixOf (c :: cs) = false := by simp [List.isPrefixOf, hc]
        rw [hfalse, scalarRun, List.takeWhile_cons]
        split
        · simp [List.isPrefixOf, hc]
        · rfl

theorem find_words_scalarRun (cs : List Char) :
    words.find? (fun (word, _) => word.toList.isPrefixOf (scalarRun cs)) =
      words.find? fun (word, _) => word.toList.isPrefixOf cs :=
  List.find?_congr fun entry hentry => isPrefixOf_scalarRun (scalarRun_words entry hentry) cs

/-- **The same run is read as the same word or number**, and no more than the run. -/
theorem readScalar_abreast (same : scalarRun start.rest = scalarRun start'.rest) {j : Json}
    {behind : Cursor} (hread : readScalar start = .ok (j, behind)) : ∃ behind',
      readScalar start' = .ok (j, behind') ∧ Abreast start start' behind behind' := by
  unfold readScalar at hread ⊢
  rw [← find_words_scalarRun, same, find_words_scalarRun] at hread
  obtain hnone | ⟨⟨word, value⟩, hword⟩ := Option.eq_none_or_eq_some
    (words.find? fun (word, _) => word.toList.isPrefixOf start'.rest)
  · rw [hnone] at hread ⊢
    exact readNumber_abreast same hread
  · rw [hword] at hread ⊢
    obtain ⟨rfl, rfl⟩ := Prod.mk.injEq .. ▸ Except.ok.inj hread
    have hfront := List.find?_some hword
    dsimp only at hfront
    rw [← isPrefixOf_scalarRun (scalarRun_words _ (List.mem_of_find?_eq_some hword)), ← same] at hfront
    have hlength := (List.isPrefixOf_iff_prefix.1 hfront).length_le
    rw [String.length_toList] at hlength
    exact ⟨_, rfl, Abreast.refl.advance hlength⟩

end Abreast

/-- Whether a word or a number is over where the rest begins. -/
def ScalarEnds (rest : List Char) : Prop := ∀ c ∈ rest.head?, isScalarChar c = false

theorem scalarRun_append {t rest : List Char} (h : ∀ c ∈ t, isScalarChar c = true)
    (hrest : ScalarEnds rest) : scalarRun (t ++ rest) = t := by
  have hnone : rest.takeWhile isScalarChar = [] := by
    cases rest with
    | nil => rfl
    | cons c cs => exact List.takeWhile_cons_of_neg (by simp [hrest c rfl])
  rw [scalarRun, List.takeWhile_append_of_pos h, hnone, List.append_nil]

/-- **A word or a number that is over where the rest begins is read by itself**: any other rest in
which it is over makes no difference. -/
theorem readScalar_upTo {start : Cursor} {j : Json} {behind : Cursor}
    (hread : readScalar start = .ok (j, behind)) (hends : ScalarEnds behind.rest) :
    ∃ t, start.rest = t ++ behind.rest ∧ (∀ c ∈ t, isScalarChar c = true) ∧
      ∀ rest, ScalarEnds rest → Gives readScalar (t ++ rest) j rest := by
  -- read abreast of itself it shows that nothing behind the run is taken
  have hself : scalarRun start.rest = scalarRun start.rest := rfl
  obtain ⟨-, -, n, hn, rfl, -⟩ := readScalar_abreast hself hread
  have hfront : start.rest.take n <+: scalarRun start.rest :=
    List.prefix_of_prefix_length_le (List.take_prefix _ _) (List.takeWhile_prefix _)
      (Nat.le_trans (List.length_take_le _ _) hn)
  have hscalar : ∀ c ∈ start.rest.take n, isScalarChar c = true := fun c hc =>
    List.mem_takeWhile_imp (hfront.subset hc)
  have hlength : n = (start.rest.take n).length := by
    have := (List.takeWhile_sublist (l := start.rest) isScalarChar).length_le
    rw [List.length_take_of_le (Nat.le_trans hn this)]
  refine ⟨start.rest.take n, (List.take_append_drop _ _).symm, hscalar, fun rest hrest p => ?_⟩
  have hsame : scalarRun start.rest = scalarRun (Cursor.mk p (start.rest.take n ++ rest)).rest := by
    rw [scalarRun_append hscalar hrest]
    exact (congrArg scalarRun (List.take_append_drop n start.rest).symm).trans
      (scalarRun_append hscalar hends)
  obtain ⟨_, hread', m, -, hbehind, rfl⟩ := readScalar_abreast hsame hread
  obtain rfl : n = m := Nat.add_left_cancel (congrArg Cursor.place hbehind)
  exact ⟨_, by rw [hread', advance_append p hlength rest]⟩

end WorkflowEngine.Json
