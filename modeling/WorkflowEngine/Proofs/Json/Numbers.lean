import WorkflowEngine.Json.Printer
import WorkflowEngine.Json.Reader
import WorkflowEngine.Proofs.Number.Shortest

/-!
# Numbers read back

A number is written as a sign, a whole part, perhaps digits behind a point and perhaps an exponent.
What is written so is read in one piece (`readNumber_chars`), and both kinds of numbers are written
so: an integer is read back as long as it has no more digits than the reader takes
(`readScalar_int`), and a binary64 number always, the words for what is no finite number included
(`readScalar_float`).
-/

namespace WorkflowEngine.Json

open Number

/-! ## Digits as characters -/

theorem isDigit_digitChar {d : Nat} (h : d < 10) : isDigit (digitChar d) = true := by
  revert d
  decide

theorem digitChar_value {d : Nat} (h : d < 10) : (digitChar d).toNat - 48 = d := by
  revert d
  decide

theorem digitChar_eq_zero {d : Nat} (h : d < 10) : digitChar d = '0' ↔ d = 0 := by
  revert d
  decide

theorem digitValues_map {ds : List Nat} (h : ∀ d ∈ ds, d < 10) :
    digitValues (ds.map digitChar) = ds := by
  rw [digitValues, List.map_map]
  exact (List.map_congr_left fun d hd => digitChar_value (h d hd)).trans (List.map_id ds)

/-- Whether what stands behind some digits is no further digit. -/
def NoDigit (rest : List Char) : Prop := ∀ c ∈ rest.head?, isDigit c = false

theorem takeWhile_of_noDigit {rest : List Char} (h : NoDigit rest) :
    rest.takeWhile isDigit = [] := by
  cases rest with
  | nil => rfl
  | cons c cs => exact List.takeWhile_cons_of_neg (by simp [h c rfl])

theorem takeWhile_digits {ds : List Nat} {rest : List Char} (h : ∀ d ∈ ds, d < 10)
    (hrest : NoDigit rest) : (ds.map digitChar ++ rest).takeWhile isDigit = ds.map digitChar := by
  rw [List.takeWhile_append_of_pos, takeWhile_of_noDigit hrest, List.append_nil]
  intro c hc
  obtain ⟨d, hd, rfl⟩ := List.mem_map.1 hc
  exact isDigit_digitChar (h d hd)

/-! ## A written number -/

/-- The parts of a written number, the digits by what they stand for. -/
structure Written where
  negative : Bool
  whole : List Nat
  /-- The digits behind the point; without any there is no point. -/
  fraction : List Nat
  /-- Whether the exponent is negative, and its digits. -/
  exponent : Option (Bool × List Nat)

namespace Written

/-- The characters behind the whole part up to the exponent. -/
def fractionChars (fraction : List Nat) : List Char :=
  if fraction.isEmpty then [] else '.' :: fraction.map digitChar

/-- The characters of the exponent. -/
def exponentChars : Option (Bool × List Nat) → List Char
  | none => []
  | some (down, ds) => 'e' :: (if down then '-' else '+') :: ds.map digitChar

/-- The characters of the sign. -/
def signChars (negative : Bool) : List Char := if negative then ['-'] else []

/-- The characters of a written number. -/
def chars (w : Written) : List Char :=
  signChars w.negative ++ (w.whole.map digitChar ++
    (fractionChars w.fraction ++ exponentChars w.exponent))

/-- A written number that can be read: the whole part is a zero or does not begin with one, and an
exponent has digits. -/
structure Proper (w : Written) : Prop where
  whole : ∀ d ∈ w.whole, d < 10
  head : w.whole = [0] ∨ ∃ d ds, w.whole = d :: ds ∧ d ≠ 0
  fraction : ∀ d ∈ w.fraction, d < 10
  exponent : ∀ down ds, w.exponent = some (down, ds) → ds ≠ [] ∧ ∀ d ∈ ds, d < 10

/-- What all digits write together. -/
def significand (w : Written) : Nat := ofDigits (w.whole ++ w.fraction)

/-- The power of ten of the last digit. -/
def scale (w : Written) : Int :=
  (w.exponent.elim 0 fun (down, ds) => signed down (ofDigits ds)) - w.fraction.length

/-- The magnitude that is written. -/
def value (w : Written) : ℚ := w.significand * 10 ^ w.scale

/-- Whether an integer is written: neither a point nor an exponent is there. -/
def isInteger (w : Written) : Bool := w.exponent.isNone && w.fraction.isEmpty

/-- The number that is written. -/
def json (w : Written) : Json :=
  if w.isInteger then .int (signed w.negative w.significand)
  else .float (ofDecimal w.negative w.significand w.scale)

end Written

/-- Whether a number ends where the rest begins: the rest does not go on with a part of one. -/
def NumberEnds (rest : List Char) : Prop :=
  ∀ c ∈ rest.head?, isDigit c = false ∧ c ≠ '.' ∧ c ≠ 'e' ∧ c ≠ 'E'

variable {rest : List Char}

theorem NumberEnds.noDigit (h : NumberEnds rest) : NoDigit rest := fun c hc => (h c hc).1

theorem noDigit_exponent (exponent : Option (Bool × List Nat)) (h : NoDigit rest) :
    NoDigit (Written.exponentChars exponent ++ rest) := by
  cases exponent with
  | none => exact h
  | some e =>
    intro c hc
    cases Option.some.inj hc
    rfl

theorem noDigit_fraction (fraction : List Nat) (h : NoDigit rest) :
    NoDigit (Written.fractionChars fraction ++ rest) := by
  unfold Written.fractionChars
  split
  · exact h
  · intro c hc
    cases Option.some.inj hc
    rfl

theorem wholePart_chars {ds : List Nat} (hdigit : ∀ d ∈ ds, d < 10)
    (hhead : ds = [0] ∨ ∃ d es, ds = d :: es ∧ d ≠ 0) (hrest : NoDigit rest) :
    wholePart (ds.map digitChar ++ rest) = ds.map digitChar := by
  rcases hhead with rfl | ⟨d, es, rfl, hd⟩
  · rfl
  · have hlt := hdigit d List.mem_cons_self
    unfold wholePart
    split
    · rename_i heq
      exact absurd ((digitChar_eq_zero hlt).1 (List.cons.inj heq).1) hd
    · exact takeWhile_digits hdigit hrest

theorem fractionPart_chars {ds : List Nat} (hdigit : ∀ d ∈ ds, d < 10) (hrest : NoDigit rest)
    (hpoint : ∀ c ∈ rest.head?, c ≠ '.') :
    fractionPart (Written.fractionChars ds ++ rest) = ds.map digitChar := by
  unfold Written.fractionChars
  split
  · rename_i hnone
    rw [List.isEmpty_iff.1 hnone, List.nil_append]
    unfold fractionPart
    split
    · exact absurd rfl (hpoint _ rfl)
    · rfl
  · exact takeWhile_digits hdigit hrest

theorem exponentPart_none (h : NumberEnds rest) : exponentPart rest = none := by
  cases rest with
  | nil => rfl
  | cons c cs =>
    obtain ⟨-, -, he, hE⟩ := h c rfl
    rw [exponentPart, if_neg (by simp [he, hE])]

theorem exponentPart_some {down : Bool} {ds : List Nat} (hne : ds ≠ []) (hdigit : ∀ d ∈ ds, d < 10)
    (hrest : NoDigit rest) :
    exponentPart (Written.exponentChars (some (down, ds)) ++ rest) =
      some (down, ds.map digitChar, 2 + ds.length) := by
  have hsign : takeSign ((if down then '-' else '+') :: (ds.map digitChar ++ rest)) =
      (down, ds.map digitChar ++ rest) := by
    cases down <;> rfl
  have hempty : (ds.map digitChar).isEmpty = false := by simpa using hne
  simp only [Written.exponentChars, List.cons_append, exponentPart, beq_self_eq_true, Bool.true_or,
    if_true, hsign, takeWhile_digits hdigit hrest, hempty, List.length_cons, List.length_map,
    Bool.false_eq_true, if_false]
  rw [show 1 + ((ds.map digitChar ++ rest).length + 1 - (ds.map digitChar ++ rest).length) = 2 by
    omega]

/-- The characters of the sign are taken off in front. -/
theorem advance_sign (negative : Bool) (p : Nat) {cs : List Char} (h : cs.head? ≠ some '-') :
    ((Written.signChars negative ++ cs).head? == some '-') = negative ∧
      ∃ p', (if negative then Cursor.advance ⟨p, Written.signChars negative ++ cs⟩ 1
        else ⟨p, Written.signChars negative ++ cs⟩) = ⟨p', cs⟩ := by
  cases negative with
  | false => exact ⟨by simpa [Written.signChars] using h, p, rfl⟩
  | true => exact ⟨rfl, p + 1, rfl⟩

theorem advance_append (p : Nat) {cs : List Char} {n : Nat} (h : n = cs.length) (rest : List Char) :
    Cursor.advance ⟨p, cs ++ rest⟩ n = ⟨p + n, rest⟩ := by
  subst h
  rw [Cursor.advance, List.drop_left]

theorem Written.Proper.whole_ne {w : Written} (h : w.Proper) : w.whole ≠ [] := by
  rcases h.head with heq | ⟨d, ds, heq, _⟩ <;> rw [heq] <;> exact List.cons_ne_nil _ _

theorem head_digits {ds : List Nat} (h : ∀ d ∈ ds, d < 10) (hne : ds ≠ []) (rest : List Char) :
    (ds.map digitChar ++ rest).head? ≠ some '-' := by
  obtain ⟨d, es, rfl⟩ := List.exists_cons_of_ne_nil hne
  intro hc
  have hd := isDigit_digitChar (h d List.mem_cons_self)
  rw [show digitChar d = '-' from Option.some.inj hc] at hd
  exact absurd hd (by decide)

theorem head_exponent (exponent : Option (Bool × List Nat)) (h : ∀ c ∈ rest.head?, c ≠ '.') :
    ∀ c ∈ (Written.exponentChars exponent ++ rest).head?, c ≠ '.' := by
  cases exponent with
  | none => exact h
  | some e =>
    intro c hc
    cases Option.some.inj hc
    decide

/-- The point and the digits behind it are passed if there are any. -/
theorem advance_fraction (p : Nat) (fraction : List Nat) (rest : List Char) :
    ∃ p', (if (fraction.map digitChar).isEmpty then
        (⟨p, Written.fractionChars fraction ++ rest⟩ : Cursor)
      else Cursor.advance ⟨p, Written.fractionChars fraction ++ rest⟩
        ((fraction.map digitChar).length + 1)) = ⟨p', rest⟩ := by
  cases fraction with
  | nil => exact ⟨p, rfl⟩
  | cons d ds => exact ⟨_, advance_append p rfl rest⟩

/-- **What is written as a number is read as the number it writes**, up to where it ends. -/
theorem readNumber_chars {w : Written} (h : w.Proper)
    (hlimit : w.isInteger = true → w.whole.length ≤ digitLimit) (hends : NumberEnds rest)
    (p : Nat) :
    ∃ p', readNumber ⟨p, w.chars ++ rest⟩ = .ok (w.json, ⟨p', rest⟩) := by
  obtain ⟨negative, whole, fraction, exponent⟩ := w
  have hne : whole ≠ [] := h.whole_ne
  have hexp := noDigit_exponent exponent hends.noDigit
  have hfrac := noDigit_fraction fraction hexp
  have hwhole := wholePart_chars h.whole h.head hfrac
  have hvalues : digitValues (whole.map digitChar ++ fraction.map digitChar) =
      whole ++ fraction := by
    rw [← List.map_append]
    exact digitValues_map fun d hd => (List.mem_append.1 hd).elim (h.whole d) (h.fraction d)
  obtain ⟨hsign, p₁, hbody⟩ := advance_sign negative p (head_digits h.whole hne
    (Written.fractionChars fraction ++ (Written.exponentChars exponent ++ rest)))
  have hbehind := advance_append p₁ (n := (whole.map digitChar).length) rfl
    (Written.fractionChars fraction ++ (Written.exponentChars exponent ++ rest))
  obtain ⟨p₂, hpoint⟩ := advance_fraction (p₁ + (whole.map digitChar).length) fraction
    (Written.exponentChars exponent ++ rest)
  have hfraction := fractionPart_chars h.fraction hexp (head_exponent exponent fun c hc =>
    (hends c hc).2.1)
  have hempty : (whole.map digitChar).isEmpty = false := by simpa using hne
  unfold readNumber
  simp only [Written.chars, List.append_assoc, hsign, hbody, hwhole, hempty, hbehind, hfraction,
    hpoint, hvalues, Bool.false_eq_true, if_false]
  cases exponent with
  | some e =>
    obtain ⟨down, ds⟩ := e
    obtain ⟨hds, hdigits⟩ := h.exponent down ds rfl
    rw [exponentPart_some hds hdigits hends.noDigit]
    dsimp only
    rw [digitValues_map hdigits, List.length_map, advance_append p₂ (by
      simp only [Written.exponentChars, List.length_cons, List.length_map]
      omega)]
    exact ⟨_, rfl⟩
  | none =>
    rw [Written.exponentChars, List.nil_append, exponentPart_none hends]
    cases fraction with
    | nil =>
      rw [List.append_nil]
      simp only [List.map_nil, List.isEmpty_nil, if_true, List.length_map,
        if_neg (Nat.not_lt.2 (hlimit rfl))]
      exact ⟨p₂, by simp [Written.json, Written.isInteger, Written.significand]⟩
    | cons d ds =>
      exact ⟨p₂, by simp [Written.json, Written.isInteger, Written.significand, Written.scale]⟩

/-- No word begins with a digit, be it behind a sign. -/
theorem words_noDigit {c : Char} (h : isDigit c = true) (cs : List Char) :
    ∀ e ∈ words, ¬ e.1.toList.isPrefixOf (c :: cs) ∧ ¬ e.1.toList.isPrefixOf ('-' :: c :: cs) := by
  have hletter : ∀ letter, isDigit letter = false → letter ≠ c := by
    rintro letter hletter rfl
    rw [h] at hletter
    cases hletter
  simp [words, hletter 'n' (by decide), hletter 't' (by decide), hletter 'f' (by decide),
    hletter 'N' (by decide), hletter 'I' (by decide), hletter '-' (by decide)]

theorem find_words {w : Written} (h : w.Proper) (rest : List Char) :
    words.find? (fun (word, _) => word.toList.isPrefixOf (w.chars ++ rest)) = none := by
  obtain ⟨d, ds, hwhole⟩ := List.exists_cons_of_ne_nil h.whole_ne
  have hd := isDigit_digitChar (h.whole d (hwhole ▸ List.mem_cons_self))
  rw [List.find?_eq_none]
  intro e he
  rw [Written.chars, hwhole, List.map_cons]
  cases w.negative with
  | false => exact (words_noDigit hd _ e he).1
  | true => exact (words_noDigit hd _ e he).2

/-- A number is no word. -/
theorem readScalar_chars {w : Written} (h : w.Proper)
    (hlimit : w.isInteger = true → w.whole.length ≤ digitLimit) (hends : NumberEnds rest)
    (p : Nat) :
    ∃ p', readScalar ⟨p, w.chars ++ rest⟩ = .ok (w.json, ⟨p', rest⟩) := by
  rw [readScalar, find_words h rest]
  exact readNumber_chars h hlimit hends p

/-- Whether a number or a word can begin with a character. -/
def isScalarStart (c : Char) : Bool := isDigit c || ['-', 'n', 't', 'f', 'N', 'I'].contains c

theorem Written.Proper.scalarStart {w : Written} (h : w.Proper) :
    ∃ c ∈ w.chars.head?, isScalarStart c = true := by
  obtain ⟨d, ds, hwhole⟩ := List.exists_cons_of_ne_nil h.whole_ne
  have hd := isDigit_digitChar (h.whole d (hwhole ▸ List.mem_cons_self))
  rw [Written.chars, hwhole]
  cases w.negative with
  | false => exact ⟨digitChar d, rfl, by rw [isScalarStart, hd, Bool.true_or]⟩
  | true => exact ⟨'-', rfl, rfl⟩

/-! ## Integers -/

theorem signed_natAbs (n : Int) : signed (decide (n < 0)) n.natAbs = n := by
  unfold signed
  split
  · rename_i hneg
    have := of_decide_eq_true hneg
    omega
  · rename_i hpos
    have := mt decide_eq_true hpos
    omega

theorem intText_written {n : Int} (h : n.natAbs < 10 ^ digitLimit) :
    ∃ w : Written, w.Proper ∧ w.whole.length ≤ digitLimit ∧ (intText n).toList = w.chars ∧
      w.json = .int n := by
  refine ⟨⟨decide (n < 0), digitsOf n.natAbs, [], none⟩, ⟨digitsOf_digit _, ?_, by simp, by simp⟩,
    digitsOf_length_le h (by decide), ?_, ?_⟩
  · rcases Nat.eq_zero_or_pos n.natAbs with hzero | hpos
    · exact .inl (by rw [hzero]; exact digitsOf_lt (by decide))
    · exact .inr (digitsOf_head hpos)
  · by_cases hneg : n < 0 <;>
      simp [intText, natText, Written.chars, Written.signChars, Written.fractionChars,
        Written.exponentChars, hneg]
  · simp only [Written.json, Written.isInteger, Written.significand, List.append_nil,
      ofDigits_digitsOf, signed_natAbs, Option.isNone_none, List.isEmpty_nil, Bool.and_self,
      if_true]

/-- **An integer is read back** unless it has more digits than the reader takes. -/
theorem readScalar_int {n : Int} (h : n.natAbs < 10 ^ digitLimit) (hends : NumberEnds rest)
    (p : Nat) : ∃ p', readScalar ⟨p, (intText n).toList ++ rest⟩ = .ok (.int n, ⟨p', rest⟩) := by
  obtain ⟨w, proper, hlimit, htext, hjson⟩ := intText_written h
  rw [htext, ← hjson]
  exact readScalar_chars proper (fun _ => hlimit) hends p

theorem scalarStart_int {n : Int} (h : n.natAbs < 10 ^ digitLimit) :
    ∃ c ∈ (intText n).toList.head?, isScalarStart c = true := by
  obtain ⟨w, proper, -, htext, -⟩ := intText_written h
  exact htext ▸ proper.scalarStart

/-! ## Binary64 numbers -/

/-- What is written is a binary64 number of the value of some digits. -/
structure Written.Of (w : Written) (negative : Bool) (ds : Digits) : Prop where
  proper : w.Proper
  chars : Written.signChars negative ++ (ds.layOut valueStyle).toList = w.chars
  number : w.isInteger = false
  negative : w.negative = negative
  value : w.value = ds.value

section

variable (negative : Bool) {digits : List Nat} {point : Int}

/-- The digits of an exponent, two at least. -/
def exponentDigits (n : Nat) : List Nat :=
  (if (digitsOf n).length < 2 then [0] else []) ++ digitsOf n

theorem ofDigits_exponentDigits (n : Nat) : ofDigits (exponentDigits n) = n := by
  rw [exponentDigits, ofDigits_append, ofDigits_digitsOf]
  split <;> simp [ofDigits]

theorem exponentDigits_digit (n : Nat) : ∀ d ∈ exponentDigits n, d < 10 := by
  intro d hd
  rcases List.mem_append.1 hd with hd | hd
  · split at hd
    · simp [List.mem_singleton.1 hd]
    · cases hd
  · exact digitsOf_digit n d hd

theorem exponentText_toList (e : Int) : (exponentText e).toList =
    Written.exponentChars (some (decide (e < 0), exponentDigits e.natAbs)) := by
  by_cases hneg : e < 0 <;> by_cases hshort : (digitsOf e.natAbs).length < 2 <;>
    simp [exponentText, Written.exponentChars, exponentDigits, natText, hneg, hshort, digitChar]

/-- Digits far from the point are written with an exponent. -/
theorem Written.of_exponent (h : (⟨digits, point⟩ : Digits).Proper)
    (hfar : point < valueStyle.least ∨ valueStyle.greatest < point) :
    ∃ w : Written, w.Of negative ⟨digits, point⟩ := by
  obtain ⟨d, tail, hds, hd⟩ := h.head
  dsimp only at hds
  subst hds
  refine ⟨⟨negative, [d], tail, some (decide (point - 1 < 0), exponentDigits (point - 1).natAbs)⟩,
    ⟨?_, ?_, ?_, ?_⟩, ?_, rfl, rfl, ?_⟩
  · simpa using h.digit d List.mem_cons_self
  · exact .inr ⟨d, [], rfl, hd⟩
  · exact fun d' hd' => h.digit d' (List.mem_cons_of_mem _ hd')
  · rintro down ds hexponent
    cases hexponent
    exact ⟨List.append_ne_nil_of_right_ne_nil _ (digitsOf_ne_nil _), exponentDigits_digit _⟩
  · rw [Digits.layOut, if_pos hfar, String.toList_append, exponentText_toList]
    cases tail <;> simp [Written.chars, Written.fractionChars]
  · simp only [Written.value, Written.significand, Written.scale, Digits.value, Option.elim_some,
      ofDigits_exponentDigits, signed_natAbs, List.length_cons]
    congr 2
    push_cast
    ring

/-- Digits behind the point are written with zeros between. -/
theorem Written.of_zeros (h : (⟨digits, point⟩ : Digits).Proper)
    (hnear : ¬ (point < valueStyle.least ∨ valueStyle.greatest < point)) (hpoint : point ≤ 0) :
    ∃ w : Written, w.Of negative ⟨digits, point⟩ := by
  obtain ⟨d, tail, hds, hd⟩ := h.head
  dsimp only at hds
  have hdigits : ofDigits ([0] ++ (List.replicate (-point).toNat 0 ++ digits)) =
      ofDigits digits := by
    rw [ofDigits_append, ofDigits_append, ofDigits_zeros]
    simp [ofDigits]
  refine ⟨⟨negative, [0], List.replicate (-point).toNat 0 ++ digits, none⟩,
    ⟨by simp, .inl rfl, ?_, by simp⟩, ?_, by simp [Written.isInteger, hds], rfl, ?_⟩
  · intro d' hd'
    rcases List.mem_append.1 hd' with hd' | hd'
    · simp [List.eq_of_mem_replicate hd']
    · exact h.digit d' hd'
  · rw [Digits.layOut, if_neg hnear, if_pos hpoint]
    simp [Written.chars, Written.fractionChars, Written.exponentChars, hds, digitChar]
  · simp only [Written.value, Written.significand, Written.scale, Digits.value, Option.elim_none,
      hdigits, List.length_append, List.length_replicate]
    congr 2
    omega

/-- The point stands among the digits or behind them. -/
theorem Written.of_point (h : (⟨digits, point⟩ : Digits).Proper)
    (hnear : ¬ (point < valueStyle.least ∨ valueStyle.greatest < point)) (hpoint : ¬ point ≤ 0) :
    ∃ w : Written, w.Of negative ⟨digits, point⟩ := by
  obtain ⟨d, tail, hds, hd⟩ := h.head
  dsimp only at hds
  obtain ⟨places, rfl⟩ := Int.eq_ofNat_of_zero_le (show 0 ≤ point by omega)
  have hplaces : 0 < places := by omega
  refine ⟨⟨negative, digits.take places ++ List.replicate (places - digits.length) 0,
    if (digits.drop places).isEmpty then [0] else digits.drop places, none⟩,
    ⟨?_, ?_, ?_, by simp⟩, ?_, ?_, rfl, ?_⟩
  · intro d' hd'
    rcases List.mem_append.1 hd' with hd' | hd'
    · exact h.digit d' (List.mem_of_mem_take hd')
    · simp [List.eq_of_mem_replicate hd']
  · obtain ⟨k, rfl⟩ := Nat.exists_eq_add_of_le' hplaces
    rw [hds, List.take_succ_cons, List.cons_append]
    exact .inr ⟨d, _, rfl, hd⟩
  · intro d' hd'
    split at hd'
    · simp [List.mem_singleton.1 hd']
    · exact h.digit d' (List.mem_of_mem_drop hd')
  · rw [Digits.layOut, if_neg hnear, if_neg hpoint]
    by_cases hdrop : digits.length ≤ places <;>
      simp [Written.chars, Written.fractionChars, Written.exponentChars, hdrop, digitChar,
        valueStyle, List.map_drop]
  · by_cases hdrop : digits.length ≤ places <;> simp [Written.isInteger, hdrop]
  · simp only [Written.value, Written.significand, Written.scale, Digits.value, Option.elim_none]
    rcases Nat.lt_or_ge places digits.length with hlt | hge
    · rw [if_neg (by simpa using hlt), Nat.sub_eq_zero_of_le hlt.le, List.replicate_zero,
        List.append_nil, List.take_append_drop, List.length_drop]
      congr 2
      omega
    · obtain ⟨k, rfl⟩ := Nat.exists_eq_add_of_le hge
      rw [if_pos (by simp), List.take_of_length_le hge, Nat.add_sub_cancel_left, ofDigits_append,
        ofDigits_append, ofDigits_zeros]
      simp [ofDigits]

/-- **Digits laid out are a written number of their value**, in each of the three forms. -/
theorem layOut_written {ds : Digits} (h : ds.Proper) : ∃ w : Written, w.Of negative ds := by
  by_cases hnear : ds.point < valueStyle.least ∨ valueStyle.greatest < ds.point
  · exact Written.of_exponent negative h hnear
  · by_cases hpoint : ds.point ≤ 0
    · exact Written.of_zeros negative h hnear hpoint
    · exact Written.of_point negative h hnear hpoint

end

/-- A finite number is written as a number that rounds to it. -/
theorem floatText_written {x : Float} {negative : Bool} {m : Nat} {e : Int}
    (h : decode x = .finite negative m e) :
    ∃ w : Written, w.Proper ∧ w.isInteger = false ∧ (floatText x).toList = w.chars ∧
      w.json = .float x := by
  have htext : (floatText x).toList = Written.signChars negative ++
      (if m = 0 then "0.0" else (shortest m e).layOut valueStyle).toList := by
    rw [floatText, printWith, h]
    cases negative <;> simp [Written.signChars]
  rcases Nat.eq_zero_or_pos m with rfl | hm
  · refine ⟨⟨negative, [0], [0], none⟩, ⟨by simp, .inl rfl, by simp, by simp⟩, rfl, ?_, ?_⟩
    · rw [htext, if_pos rfl]
      rfl
    · have hzero : ofDecimal negative 0 (-1) = x := (if_pos rfl).trans (nearest_zero h 1)
      exact congrArg Json.float hzero
  · obtain ⟨canonical, -⟩ := toBits_of_decode h
    obtain ⟨proper, hround⟩ := shortest_roundsTo canonical hm
    obtain ⟨w, hw⟩ := layOut_written negative proper
    refine ⟨w, hw.proper, hw.number, ?_, ?_⟩
    · rw [htext, if_neg hm.ne', hw.chars]
    · rw [Written.json, if_neg (by simp [hw.number]), hw.negative]
      rw [← hw.value] at hround
      rw [ofDecimal_eq h hm hround]

/-- **A binary64 number is read back**, be it finite or a word. -/
theorem readScalar_float (x : Float) (hends : NumberEnds rest) (p : Nat) :
    ∃ p', readScalar ⟨p, (numberText x).toList ++ rest⟩ = .ok (.float x, ⟨p', rest⟩) := by
  unfold numberText
  cases h : decode x with
  | nan => exact ⟨p + 3, by rw [eq_of_decode_nan h]; rfl⟩
  | infinite negative =>
    have hx := eq_of_decode_infinite h
    cases negative with
    | false => exact ⟨p + 8, by rw [hx]; rfl⟩
    | true => exact ⟨p + 9, by rw [hx]; rfl⟩
  | finite negative m e =>
    obtain ⟨w, proper, hnumber, htext, hjson⟩ := floatText_written h
    dsimp only
    rw [htext, ← hjson]
    exact readScalar_chars proper (fun hint => absurd hint (by simp [hnumber])) hends p

theorem scalarStart_float (x : Float) :
    ∃ c ∈ (numberText x).toList.head?, isScalarStart c = true := by
  unfold numberText
  cases h : decode x with
  | nan => exact ⟨'N', by simp, rfl⟩
  | infinite negative => cases negative with
    | false => exact ⟨'I', by simp, rfl⟩
    | true => exact ⟨'-', by simp, rfl⟩
  | finite negative m e =>
    obtain ⟨w, proper, -, htext, -⟩ := floatText_written h
    exact htext ▸ proper.scalarStart

end WorkflowEngine.Json
