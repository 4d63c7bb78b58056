import WorkflowEngine.Json.Printer
import WorkflowEngine.Json.Reader

/-!
# Texts read back

A text in quotes is read as itself (`readText_quoted`). Each character is written as itself, as a
letter behind a backslash, as the number of a code unit, or as the numbers of a pair; one lemma for
each of the four forms tells what the reader makes of it (`readText_escapeChar`). What follows a text
does not matter to the reader (`readText_upTo`).
-/

namespace WorkflowEngine.Json

open Text

/-! ## Hexadecimal numbers -/

theorem hexValue_hexDigit {d : Nat} (h : d < 16) : hexValue? (hexDigit d) = some d := by
  revert d
  decide

/-- The four digits of a code unit. -/
theorem hex_four (n : Nat) : hex 4 n = [hexDigit (n / 4096 % 16), hexDigit (n / 256 % 16),
    hexDigit (n / 16 % 16), hexDigit (n % 16)] := by
  simp [hex, Nat.div_div_eq_div_mul]

theorem hexNumber_hex {n : Nat} (h : n < 0x10000) : hexNumber? (hex 4 n) = some n := by
  rw [hex_four]
  simp only [hexNumber?, List.foldl_cons, List.foldl_nil, Option.bind_some, Option.map_some,
    hexValue_hexDigit (Nat.mod_lt _ (by decide : 0 < 16))]
  congr 1
  omega

/-! ## The four forms of a character -/

variable (start p : Nat) {a b c d e f g h i : Char} {n m : Nat} {more : List Char}

/-- A character that neither ends a text nor escapes one stands for itself, unless it is a control. -/
theorem readText_other (hquote : c ≠ '"') (hslash : c ≠ '\\') : readText start p (c :: more) =
    if c.toNat < 32 then .error ⟨.control, p⟩ else withChar c (readText start (p + 1) more) := by
  rw [readText.eq_def]
  split <;> grind

theorem readText_plain (hquote : c ≠ '"') (hslash : c ≠ '\\') (hcontrol : ¬ c.toNat < 32) :
    readText start p (c :: more) = withChar c (readText start (p + 1) more) := by
  rw [readText_other start p hquote hslash, if_neg hcontrol]

theorem readText_control (hcontrol : c.toNat < 32) :
    readText start p (c :: more) = .error ⟨.control, p⟩ := by
  have hquote : c ≠ '"' := by
    rintro rfl
    exact absurd hcontrol (by decide)
  have hslash : c ≠ '\\' := by
    rintro rfl
    exact absurd hcontrol (by decide)
  rw [readText_other start p hquote hslash, if_pos hcontrol]

theorem readText_letter {letter : Char} (hletter : escaped? letter = some c) :
    readText start p ('\\' :: letter :: more) = withChar c (readText start (p + 2) more) := by
  have hunit : letter ≠ 'u' := by
    rintro rfl
    cases hletter
  rw [readText.eq_def]
  split <;> grind

/-- What a unit stands for hangs on the unit behind it only when it is the first half of a pair. -/
theorem readText_numbered (hn : hexNumber? [a, b, c, d] = some n) :
    readText start p ('\\' :: 'u' :: a :: b :: c :: d :: i :: more) =
      match i :: more with
      | '\\' :: 'u' :: e :: f :: g :: h :: j :: rest =>
        if isHighHalf n then
          match hexNumber? [e, f, g, h] with
          | none => .error ⟨.unicodeEscape, p + 7⟩
          | some m =>
            if isLowHalf m then
              withChar (scalar (0x10000 + (n - 0xD800) * 0x400 + (m - 0xDC00)))
                (readText start (p + 12) (j :: rest))
            else withChar replacement (readText start (p + 6) (i :: more))
        else withChar (scalar n) (readText start (p + 6) (i :: more))
      | _ => withChar (scalar n) (readText start (p + 6) (i :: more)) := by
  rw [readText.eq_def]
  split <;> grind

/-- A unit that is no first half of a pair stands for itself. -/
theorem readText_single (hn : hexNumber? [a, b, c, d] = some n) (hhalf : isHighHalf n = false)
    (hmore : more ≠ []) : readText start p ('\\' :: 'u' :: a :: b :: c :: d :: more) =
      withChar (scalar n) (readText start (p + 6) more) := by
  obtain ⟨i, rest, rfl⟩ := List.exists_cons_of_ne_nil hmore
  rw [readText_numbered start p hn, hhalf]
  split <;> rfl

theorem readText_double (hn : hexNumber? [a, b, c, d] = some n) (hm : hexNumber? [e, f, g, h] = some m)
    (hhigh : isHighHalf n = true) (hlow : isLowHalf m = true) (hmore : more ≠ []) :
    readText start p
        ('\\' :: 'u' :: a :: b :: c :: d :: '\\' :: 'u' :: e :: f :: g :: h :: more) =
      withChar (scalar (0x10000 + (n - 0xD800) * 0x400 + (m - 0xDC00)))
        (readText start (p + 12) more) := by
  obtain ⟨i, rest, rfl⟩ := List.exists_cons_of_ne_nil hmore
  rw [readText_numbered start p hn]
  simp only [hhigh, hm, hlow, if_true]

theorem readText_unit (h : n < 0x10000) (hhalf : isHighHalf n = false) (hmore : more ≠ []) :
    readText start p (unitEscape n ++ more) =
      withChar (scalar n) (readText start (p + 6) more) := by
  have hnumber := hexNumber_hex h
  rw [hex_four] at hnumber
  rw [unitEscape, hex_four]
  exact readText_single start p hnumber hhalf hmore

theorem readText_pair (hn : n < 0x10000) (hm : m < 0x10000) (hhigh : isHighHalf n = true)
    (hlow : isLowHalf m = true) (hmore : more ≠ []) :
    readText start p (unitEscape n ++ (unitEscape m ++ more)) =
      withChar (scalar (0x10000 + (n - 0xD800) * 0x400 + (m - 0xDC00)))
        (readText start (p + 12) more) := by
  have hfirst := hexNumber_hex hn
  have hsecond := hexNumber_hex hm
  rw [hex_four] at hfirst hsecond
  simp only [unitEscape, hex_four, List.cons_append, List.nil_append]
  exact readText_double start p hfirst hsecond hhigh hlow hmore

/-! ## A whole text -/

theorem scalar_toNat (c : Char) : scalar c.toNat = c := by
  rw [scalar, if_pos (show c.toNat.isValidChar from c.valid), Char.ofNat_toNat]

theorem eq_ofNat {n : Nat} (h : c.toNat = n) : c = Char.ofNat n := by
  rw [← h, Char.ofNat_toNat]

/-- **What a character is written with is read as the character**, as long as the text goes on. -/
theorem readText_escapeChar (c : Char) (hmore : more ≠ []) :
    ∃ p', readText start p (escapeChar c ++ more) = withChar c (readText start p' more) := by
  have hvalid : c.toNat < 0xD800 ∨ 0xDFFF < c.toNat ∧ c.toNat < 0x110000 := c.valid
  unfold escapeChar
  dsimp only
  split
  · rename_i hquote
    subst hquote
    exact ⟨_, readText_letter start p rfl⟩
  rename_i hquote
  split
  · rename_i hslash
    subst hslash
    exact ⟨_, readText_letter start p rfl⟩
  rename_i hslash
  iterate 5
    split
    · rename_i hcode
      exact ⟨_, readText_letter start p (eq_ofNat hcode ▸ rfl)⟩
  split
  · rename_i hprinted
    exact ⟨_, readText_plain start p hquote hslash (by omega)⟩
  split
  · rename_i hunit
    have hhalf : isHighHalf c.toNat = false := by
      simp only [isHighHalf, Bool.and_eq_false_iff, decide_eq_false_iff_not]
      omega
    exact ⟨_, scalar_toNat c ▸ readText_unit start p hunit hhalf hmore⟩
  · rename_i hpair
    have hscalar : 0x10000 + (0xD800 + (c.toNat - 0x10000) / 0x400 - 0xD800) * 0x400 +
        (0xDC00 + (c.toNat - 0x10000) % 0x400 - 0xDC00) = c.toNat := by omega
    refine ⟨p + 12, ?_⟩
    rw [List.append_assoc, readText_pair start p (by omega) (by omega) ?_ ?_ hmore, hscalar,
      scalar_toNat]
    · simp only [isHighHalf, Bool.and_eq_true, decide_eq_true_eq]
      omega
    · simp only [isLowHalf, Bool.and_eq_true, decide_eq_true_eq]
      omega

/-- **A text in quotes is read as itself.** -/
theorem readText_quoted (cs rest : List Char) : ∀ p, ∃ p',
    readText start p (cs.flatMap escapeChar ++ '"' :: rest) = .ok (cs, ⟨p', rest⟩) := by
  induction cs with
  | nil => exact fun p => ⟨p + 1, by simp [readText]⟩
  | cons c cs ih =>
    intro p
    rw [List.flatMap_cons, List.append_assoc]
    obtain ⟨p₁, hc⟩ := readText_escapeChar start p c
      (show cs.flatMap escapeChar ++ '"' :: rest ≠ [] by simp)
    obtain ⟨p₂, hcs⟩ := ih p₁
    exact ⟨p₂, by rw [hc, hcs]; rfl⟩

/-! ## What follows a text -/

theorem readText_half (hn : hexNumber? [a, b, c, d] = some n) (hm : hexNumber? [e, f, g, h] = some m)
    (hhigh : isHighHalf n = true) (hlow : isLowHalf m = false) (hmore : more ≠ []) :
    readText start p
        ('\\' :: 'u' :: a :: b :: c :: d :: '\\' :: 'u' :: e :: f :: g :: h :: more) =
      withChar replacement
        (readText start (p + 6) ('\\' :: 'u' :: e :: f :: g :: h :: more)) := by
  obtain ⟨i, rest, rfl⟩ := List.exists_cons_of_ne_nil hmore
  rw [readText_numbered start p hn]
  simp only [hhigh, hm, hlow, if_true, if_false, Bool.false_eq_true]

theorem readText_lone (hn : hexNumber? [a, b, c, d] = some n) (hmore : more ≠ [])
    (hnext : ∀ tail, more ≠ '\\' :: 'u' :: tail) :
    readText start p ('\\' :: 'u' :: a :: b :: c :: d :: more) =
      withChar (scalar n) (readText start (p + 6) more) := by
  obtain ⟨i, rest, rfl⟩ := List.exists_cons_of_ne_nil hmore
  rw [readText_numbered start p hn]
  split
  · next hsecond => exact absurd hsecond (hnext _)
  · rfl

/-- A unit that is begun in a text that is read is whole. -/
theorem unit_whole {t r : List Char} {result : List Char × Cursor}
    (hread : readText start p t = .ok result) (ht : t ≠ []) (hunit : '\\' :: 'u' :: more = t ++ r) :
    ∃ a b c d e tail, t = '\\' :: 'u' :: a :: b :: c :: d :: e :: tail := by
  match t, ht with
  | [x], _ =>
    obtain ⟨rfl, -⟩ := List.cons.inj hunit
    simp [readText] at hread
  | x :: y :: tail, _ =>
    obtain ⟨rfl, hrest⟩ := List.cons.inj hunit
    obtain ⟨rfl, -⟩ := List.cons.inj hrest
    rw [readText.eq_def] at hread
    split at hread <;> grind

theorem printable_of_hexValue {c : Char} {n : Nat} (h : hexValue? c = some n) : 32 ≤ c.toNat := by
  have hzero : ('0' : Char) ≤ c → 48 ≤ c.toNat := fun h => h
  have hsmall : ('a' : Char) ≤ c → 97 ≤ c.toNat := fun h => h
  have hlarge : ('A' : Char) ≤ c → 65 ≤ c.toNat := fun h => h
  unfold hexValue? at h
  split at h
  · next hc => have := hzero hc.1; omega
  split at h
  · next hc => have := hsmall hc.1; omega
  split at h
  · next hc => have := hlarge hc.1; omega
  · cases h

theorem printable_unit (hn : hexNumber? [a, b, c, d] = some n) :
    ∀ x ∈ ['\\', 'u', a, b, c, d], 32 ≤ x.toNat := by
  simp only [hexNumber?, List.foldl_cons, List.foldl_nil, Option.bind_eq_some_iff,
    Option.map_eq_some_iff, Option.bind_some] at hn
  obtain ⟨_, ⟨_, ⟨_, ⟨_, ha, -⟩, _, hb, -⟩, _, hc, -⟩, _, hd, -⟩ := hn
  intro x hx
  simp only [List.mem_cons, List.not_mem_nil, or_false] at hx
  rcases hx with rfl | rfl | rfl | rfl | rfl | rfl
  · decide
  · decide
  · exact printable_of_hexValue ha
  · exact printable_of_hexValue hb
  · exact printable_of_hexValue hc
  · exact printable_of_hexValue hd

theorem withChar_ok {c : Char} {read : Except Complaint (List Char × Cursor)} {out : List Char}
    {behind : Cursor} (h : withChar c read = .ok (out, behind)) :
    ∃ cs, read = .ok (cs, behind) ∧ out = c :: cs := by
  cases read with
  | error f => cases h
  | ok r =>
    obtain ⟨cs, last⟩ := r
    cases h
    exact ⟨cs, rfl, rfl⟩

theorem printable_letter {e : Char} (h : escaped? c = some e) : ∀ x ∈ ['\\', c], 32 ≤ x.toNat := by
  intro x hx
  simp only [List.mem_cons, List.not_mem_nil, or_false] at hx
  rcases hx with rfl | rfl
  · decide
  unfold escaped? at h
  split at h
  all_goals first | decide | cases h

theorem withChar_error {c : Char} {read : Except Complaint (List Char × Cursor)} {f : Complaint}
    (h : withChar c read = .error f) : read = .error f := by
  cases read with
  | error f' => exact h
  | ok r => cases h

/-- A text is read up to `r`, whatever stands there, and holds no control character. -/
def ReadUpTo (cs out r : List Char) : Prop :=
  ∃ t, cs = t ++ r ∧ t ≠ [] ∧ (∀ c ∈ t, 32 ≤ c.toNat) ∧
    ∀ start p rest, ∃ q, readText start p (t ++ rest) = .ok (out, ⟨q, rest⟩)

/-- A piece that stands for a character may stand in front of a text. -/
theorem ReadUpTo.cons {more out r : List Char} {x : Char} (h : ReadUpTo more out r)
    (piece : List Char) (printable : ∀ c ∈ piece, 32 ≤ c.toNat)
    (stands : ∀ t, t ≠ [] → more = t ++ r → (∃ result, readText 0 0 t = .ok result) →
      ∀ start p rest, ∃ q, readText start p (piece ++ (t ++ rest)) =
        withChar x (readText start q (t ++ rest))) :
    ReadUpTo (piece ++ more) (x :: out) r := by
  obtain ⟨t, rfl, hne, hprintable, hread⟩ := h
  refine ⟨piece ++ t, (List.append_assoc _ _ _).symm, by simp [hne], ?_, fun start p rest => ?_⟩
  · intro c hc
    rcases List.mem_append.1 hc with hc | hc
    · exact printable c hc
    · exact hprintable c hc
  · obtain ⟨q₀, hwhole⟩ := hread 0 0 []
    rw [List.append_nil] at hwhole
    obtain ⟨q, hstands⟩ := stands t hne rfl ⟨_, hwhole⟩ start p rest
    obtain ⟨q', hq'⟩ := hread start q rest
    exact ⟨q', by rw [List.append_assoc, hstands, hq']; rfl⟩

/-- A character that is no escape in front of any text is no backslash. -/
theorem ne_slash {c : Char} {rest : List Char} (hend : c = '\\' → rest = [] → False)
    (hslash : ∀ d more, c = '\\' → rest = d :: more → False) : c ≠ '\\' := by
  intro hc
  cases rest with
  | nil => exact hend hc rfl
  | cons d more => exact hslash d more hc rfl

/-- **A text is read by itself**: what follows it makes no difference. -/
theorem readText_upTo {start p : Nat} {cs out : List Char} {behind : Cursor}
    (hread : readText start p cs = .ok (out, behind)) : ReadUpTo cs out behind.rest := by
  fun_induction readText start p cs generalizing out behind with
  | case2 p rest =>
    cases hread
    exact ⟨['"'], rfl, by simp, by simp, fun start p rest => ⟨p + 1, by simp [readText]⟩⟩
  | case6 p a b c d e f g h i rest n hn hhigh m hm hlow ih =>
    obtain ⟨cs, hrest, rfl⟩ := withChar_ok hread
    refine (ih hrest).cons (['\\', 'u', a, b, c, d] ++ ['\\', 'u', e, f, g, h]) ?_ ?_
    · intro x hx
      rcases List.mem_append.1 hx with hx | hx
      · exact printable_unit hn x hx
      · exact printable_unit hm x hx
    · exact fun t hne _ _ start p rest =>
        ⟨p + 12, readText_double start p hn hm hhigh hlow (by simp [hne])⟩
  | case7 p a b c d e f g h i rest n hn hhigh m hm hlow ih =>
    obtain ⟨cs, hrest, rfl⟩ := withChar_ok hread
    refine (ih hrest).cons ['\\', 'u', a, b, c, d] (printable_unit hn) ?_
    intro t hne hmore ⟨result, ht⟩ start p rest
    obtain ⟨_, _, _, _, _, tail, rfl⟩ := unit_whole 0 0 ht hne hmore
    simp only [List.cons_append, List.cons.injEq, true_and] at hmore
    obtain ⟨rfl, rfl, rfl, rfl, rfl, -⟩ := hmore
    exact ⟨p + 6, readText_half start p hn hm hhigh (by simpa using hlow) (by simp)⟩
  | case8 p a b c d e f g h i rest n hn hhigh ih =>
    obtain ⟨cs, hrest, rfl⟩ := withChar_ok hread
    refine (ih hrest).cons ['\\', 'u', a, b, c, d] (printable_unit hn) ?_
    exact fun t hne _ _ start p rest =>
      ⟨p + 6, readText_single start p hn (by simpa using hhigh) (by simp [hne])⟩
  | case10 p a b c d e rest hpair n hn ih =>
    obtain ⟨cs, hrest, rfl⟩ := withChar_ok hread
    refine (ih hrest).cons ['\\', 'u', a, b, c, d] (printable_unit hn) ?_
    intro t hne hmore ⟨result, ht⟩ start p rest'
    refine ⟨p + 6, readText_lone start p hn (by simp [hne]) fun tail htail => ?_⟩
    -- a second unit would be whole, and so the two would have been taken together
    obtain ⟨_, _, _, _, _, tail', rfl⟩ := unit_whole 0 0 ht hne htail.symm
    obtain ⟨he, hrest⟩ := List.cons.inj hmore
    exact hpair _ _ _ _ _ _ he hrest
  | case13 p c rest _ _ hunit e hletter ih =>
    obtain ⟨cs, hrest, rfl⟩ := withChar_ok hread
    exact (ih hrest).cons ['\\', c] (printable_letter hletter) fun t _ _ _ start p rest =>
      ⟨p + 2, readText_letter start p hletter⟩
  | case15 p c rest hquote hend _ _ _ hslash hcontrol ih =>
    obtain ⟨cs, hrest, rfl⟩ := withChar_ok hread
    have hne := ne_slash hend hslash
    exact (ih hrest).cons [c] (by simpa using hcontrol) fun t _ _ _ start p rest =>
      ⟨p + 1, readText_plain start p hquote hne hcontrol⟩
  | _ => cases hread

theorem readText_cause {start p : Nat} {cs : List Char} {c : Complaint}
    (hread : readText start p cs = .error c) : c.cause ≠ .longInteger := by
  fun_induction readText start p cs with
  | case2 => cases hread
  | case6 _ _ _ _ _ _ _ _ _ _ _ _ _ _ _ _ _ ih => exact ih (withChar_error hread)
  | case7 _ _ _ _ _ _ _ _ _ _ _ _ _ _ _ _ _ ih => exact ih (withChar_error hread)
  | case8 _ _ _ _ _ _ _ _ _ _ _ _ _ _ ih => exact ih (withChar_error hread)
  | case10 _ _ _ _ _ _ _ _ _ _ ih => exact ih (withChar_error hread)
  | case13 _ _ _ _ _ _ _ _ ih => exact ih (withChar_error hread)
  | case15 _ _ _ _ _ _ _ _ _ _ ih => exact ih (withChar_error hread)
  | _ =>
    cases hread
    exact nofun

end WorkflowEngine.Json
