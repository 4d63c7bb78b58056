import WorkflowEngine.CommandLine.Perform
import WorkflowEngine.Proofs.Json.LineEnds
import WorkflowEngine.Proofs.Workflow.Reading

/-!
# Definitions in files and in bytes

A definition is read from a file as a text in UTF-8 whose line ends are unified, and from bytes as a
text in the encoding that shows in them, in which surrogates are let pass. Both come to the same if the
bytes are UTF-8 and show no other encoding (`ofFile_decides`): what is UTF-8 strictly is the same text
if surrogates are let pass (`looseUtf8_of_utf8`), and line ends make no difference to JSON. Bytes that
show another encoding are, if they are UTF-8 at all, the beginning of no JSON text in it
(`read_otherwise`).
-/

namespace WorkflowEngine

namespace Text

/-! ## Bytes of UTF-8 -/

theorem leadByte_loose {b owed bits low high : Nat}
    (h : leadByte? false b = some (owed, bits, low, high)) :
    0x80 ≤ low ∧ ∃ high', high ≤ high' ∧ leadByte? true b = some (owed, bits, low, high') := by
  unfold leadByte? at h ⊢
  split_ifs at h ⊢ <;> simp_all <;> omega

/-- What may follow in strict UTF-8 may follow if surrogates are let pass. -/
def Pending.Within (p p' : Pending) : Prop :=
  p'.owed = p.owed ∧ p'.bits = p.bits ∧ p'.low = p.low ∧ p.high ≤ p'.high

theorem readUtf8_loose {bs : List UInt8} {p p' : Option Pending} {cs : List Char}
    (hp : Option.Rel Pending.Within p p') (h : readUtf8 false none p bs = some cs) :
    readUtf8 true none p' bs = some cs := by
  induction bs generalizing p p' cs with
  | nil =>
    cases hp with
    | none => exact h
    | some hp => cases h
  | cons b bs ih =>
    cases hp with
    | none =>
      rw [readUtf8] at h ⊢
      split at h
      · next hascii =>
        rw [if_pos hascii]
        obtain ⟨rest, hrest, rfl⟩ := Option.map_eq_some_iff.1 h
        rw [ih .none hrest]
        rfl
      · next hascii =>
        rw [if_neg hascii]
        split at h
        · next owed bits low high hlead =>
          obtain ⟨-, high', hhigh, hlead'⟩ := leadByte_loose hlead
          rw [hlead']
          exact ih (p := some ⟨owed, bits, low, high⟩) (.some ⟨rfl, rfl, rfl, hhigh⟩) h
        · cases h
    | @some p p' hp =>
      obtain ⟨howed, hbits, hlow, hhigh⟩ := hp
      rw [readUtf8] at h ⊢
      dsimp only at h ⊢
      split at h
      · next hrange =>
        rw [if_pos ⟨hlow ▸ hrange.1, hrange.2.trans hhigh⟩, howed, hbits]
        split at h
        · next hlast =>
          rw [if_pos hlast]
          obtain ⟨rest, hrest, rfl⟩ := Option.map_eq_some_iff.1 h
          rw [ih .none hrest]
          rfl
        · next hlast =>
          rw [if_neg hlast]
          exact ih (.some ⟨rfl, rfl, rfl, le_rfl⟩) h
      · cases h

/-- A text in UTF-8 is the same if surrogates are let pass. -/
theorem looseUtf8_of_utf8 {bs : List UInt8} {s : String} (h : utf8? bs = some s) :
    looseUtf8? bs = some s := by
  obtain ⟨cs, hcs, rfl⟩ := Option.map_eq_some_iff.1 h
  rw [looseUtf8?, readUtf8_loose .none hcs]
  rfl

theorem readUtf8_ascii {surrogates : Bool} {b : UInt8} (hb : b.toNat < 0x80) (bs : List UInt8) :
    readUtf8 surrogates none none (b :: bs) =
      (readUtf8 surrogates none none bs).map (Char.ofNat b.toNat :: ·) := by
  rw [readUtf8, if_pos hb]

theorem readUtf8_alien {surrogates : Bool} {b : UInt8} (hb : ¬ b.toNat < 0x80)
    (hlead : leadByte? surrogates b.toNat = none) (bs : List UInt8) :
    readUtf8 surrogates none none (b :: bs) = none := by
  rw [readUtf8, if_neg hb, hlead]
  rfl

/-- No character of several bytes goes on with the byte zero. -/
theorem readUtf8_zero_behind {b : UInt8} (hb : ¬ b.toNat < 0x80) (bs : List UInt8) :
    readUtf8 false none none (b :: 0 :: bs) = none := by
  rw [readUtf8, if_neg hb]
  cases hlead : leadByte? false b.toNat with
  | none => rfl
  | some shape =>
    obtain ⟨owed, bits, low, high⟩ := shape
    have hlow := (leadByte_loose hlead).1
    dsimp only
    rw [readUtf8]
    dsimp only
    rw [if_neg fun h => absurd (hlow.trans h.1) (by decide)]
    rfl

theorem readUtf8_mark (bs : List UInt8) : readUtf8 false none none (0xEF :: 0xBB :: 0xBF :: bs) =
    (readUtf8 false none none bs).map (Char.ofNat 0xFEFF :: ·) := by
  have hlead : leadByte? false (0xEF : UInt8).toNat = some (2, 0xF, 0x80, 0xBF) := by decide
  have hscalar : scalar ((0xF * 64 + ((0xBB : UInt8).toNat - 0x80)) * 64 +
      ((0xBF : UInt8).toNat - 0x80)) = Char.ofNat 0xFEFF := by
    rw [scalar, if_pos (by decide)]
    exact congrArg Char.ofNat (by decide)
  rw [readUtf8, if_neg (by decide), hlead]
  dsimp only
  rw [readUtf8]
  dsimp only
  rw [if_pos (by decide), if_neg (by decide), readUtf8]
  dsimp only
  rw [if_pos (by decide), if_pos (by decide), hscalar]

theorem encodingByZeros_cases {bs : List UInt8} (h : encodingByZeros bs ≠ .utf8) :
    (∃ rest, bs = 0 :: rest) ∨ ∃ b rest, bs = b :: 0 :: rest := by
  have two : ∀ first second rest, (first = 0 ∨ second = 0) →
      (∃ rest', first :: second :: rest = 0 :: rest') ∨
        ∃ b rest', first :: second :: rest = b :: 0 :: (rest' : List UInt8) := by
    rintro first second rest (rfl | rfl)
    · exact .inl ⟨_, rfl⟩
    · exact .inr ⟨_, _, rfl⟩
  unfold encodingByZeros at h
  split at h
  · refine two _ _ _ ?_
    by_contra hzero
    simp_all
  · refine two _ _ _ ?_
    by_contra hzero
    simp_all
  · exact absurd rfl h

/-- Bytes begin with one of the byte order marks or with none of them. -/
theorem orderMarks_cases (bs : List UInt8) :
    orderMarks.find? (fun (mark, _) => mark.isPrefixOf bs) = none ∨
      ∃ mark encoding, (mark, encoding) ∈ orderMarks ∧ mark <+: bs := by
  refine (Option.eq_none_or_eq_some _).imp_right ?_
  rintro ⟨⟨mark, encoding⟩, hmark⟩
  have hprefix := List.find?_some hmark
  exact ⟨mark, encoding, List.mem_of_find?_eq_some hmark, List.isPrefixOf_iff_prefix.1 hprefix⟩

/-- Bytes that show another encoding than UTF-8 have a zero among the first two, or begin with a byte
order mark. -/
theorem encodingOf_cases {bs : List UInt8} (h : encodingOf bs ≠ (.utf8, 0)) :
    (∃ rest, bs = 0 :: rest) ∨ (∃ b rest, bs = b :: 0 :: rest) ∨
      (∃ b rest, ¬ b.toNat < 0x80 ∧ leadByte? false b.toNat = none ∧ bs = b :: rest) ∨
      ∃ rest, bs = 0xEF :: 0xBB :: 0xBF :: rest := by
  unfold encodingOf at h
  obtain hnone | ⟨mark, encoding, hmem, rest, rfl⟩ := orderMarks_cases bs
  · rw [hnone] at h
    rcases encodingByZeros_cases fun hutf8 => h (by rw [hutf8]) with hzero | hzero
    · exact .inl hzero
    · exact .inr (.inl hzero)
  · simp only [orderMarks, List.mem_cons, Prod.mk.injEq, List.not_mem_nil, or_false] at hmem
    rcases hmem with ⟨rfl, -⟩ | ⟨rfl, -⟩ | ⟨rfl, -⟩ | ⟨rfl, -⟩ | ⟨rfl, -⟩
    · exact .inl ⟨_, rfl⟩
    · exact .inr (.inr (.inl ⟨0xFF, _, by decide, by decide, rfl⟩))
    · exact .inr (.inr (.inl ⟨0xFE, _, by decide, by decide, rfl⟩))
    · exact .inr (.inr (.inl ⟨0xFF, _, by decide, by decide, rfl⟩))
    · exact .inr (.inr (.inr ⟨rest, rfl⟩))

/-- How a text in UTF-8 begins of which the bytes show another encoding: with the byte order mark,
with the character zero, or with that behind another character. -/
theorem utf8_otherwise {bs : List UInt8} {s : String} (h : utf8? bs = some s)
    (hother : encodingOf bs ≠ (.utf8, 0)) :
    s.toList.head? = some (Char.ofNat 0xFEFF) ∨ s.toList.head? = some (Char.ofNat 0) ∨
      ∃ c rest, s.toList = c :: Char.ofNat 0 :: rest := by
  obtain ⟨cs, hcs, rfl⟩ := Option.map_eq_some_iff.1 h
  rw [String.toList_ofList]
  have hnul : (0 : UInt8).toNat < 0x80 := Nat.zero_lt_succ _
  have hzero : ∀ rest, bs = 0 :: rest → cs.head? = some (Char.ofNat 0) := by
    intro rest hbs
    rw [hbs, readUtf8_ascii hnul] at hcs
    obtain ⟨tail, -, rfl⟩ := Option.map_eq_some_iff.1 hcs
    rfl
  have hsecond : ∀ b rest, bs = b :: 0 :: rest → ∃ c rest, cs = c :: Char.ofNat 0 :: rest := by
    intro b rest hbs
    rw [hbs] at hcs
    by_cases hb : b.toNat < 0x80
    · rw [readUtf8_ascii hb, readUtf8_ascii hnul] at hcs
      obtain ⟨tail, htail, rfl⟩ := Option.map_eq_some_iff.1 hcs
      obtain ⟨tail, -, rfl⟩ := Option.map_eq_some_iff.1 htail
      exact ⟨_, tail, rfl⟩
    · rw [readUtf8_zero_behind hb] at hcs
      cases hcs
  rcases encodingOf_cases hother with ⟨rest, rfl⟩ | ⟨b, rest, rfl⟩ | ⟨b, rest, hb, hlead, rfl⟩ | ⟨rest, rfl⟩
  · exact .inr (.inl (hzero _ rfl))
  · exact .inr (.inr (hsecond _ _ rfl))
  · rw [readUtf8_alien hb hlead] at hcs
    cases hcs
  · rw [readUtf8_mark] at hcs
    obtain ⟨tail, -, rfl⟩ := Option.map_eq_some_iff.1 hcs
    exact .inl (List.head?_cons)

end Text

namespace Json

/-! ## Texts that begin like no JSON -/

/-- Whether a reading is stopped by something else than the digits of an integer. -/
def Stopped {α : Type} (reading : Except Complaint α) : Prop :=
  ∃ c, reading = .error c ∧ c.cause ≠ .longInteger

theorem Stopped.bind {α β : Type} {reading : Except Complaint α} (h : Stopped reading)
    (next : α → Except Complaint β) : Stopped (reading >>= next) := by
  obtain ⟨c, rfl, hc⟩ := h
  exact ⟨c, rfl, hc⟩

theorem stopped_error {α : Type} {cause : Cause} (h : cause ≠ .longInteger) (place : Nat) :
    Stopped (.error ⟨cause, place⟩ : Except Complaint α) :=
  ⟨_, rfl, h⟩

section Nul

variable {start : Cursor} {rest : List Char}

/-- No word has the character zero in one of the first two places. -/
theorem find_words_nul (h : start.rest = Char.ofNat 0 :: rest ∨
      ∃ c, start.rest = c :: Char.ofNat 0 :: rest) :
    words.find? (fun (word, _) => word.toList.isPrefixOf start.rest) = none := by
  obtain h | ⟨c, h⟩ := h
  · simp [words, h]
  · simp [words, h]

theorem readScalar_nul (h : start.rest = Char.ofNat 0 :: rest) : Stopped (readScalar start) := by
  have hfail : readScalar start = start.fail .value := by
    unfold readScalar
    rw [find_words_nul (.inl h)]
    simp [readNumber, h, wholePart, isDigit, Cursor.fail]
  rw [hfail]
  exact stopped_error (by decide) start.place

theorem readValue_nul (h : start.rest = Char.ofNat 0 :: rest) (fuel : Nat) :
    Stopped (readValue fuel start) := by
  cases fuel with
  | zero => exact stopped_error (by decide) start.place
  | succ fuel =>
    rw [readValue_succ, h, if_neg (by simp), if_neg (by simp), if_neg (by simp)]
    exact readScalar_nul h

theorem readItems_nul (h : start.rest = Char.ofNat 0 :: rest) (fuel : Nat) :
    Stopped (readItems fuel start) := by
  cases fuel with
  | zero => exact stopped_error (by decide) start.place
  | succ fuel =>
    rw [readItems_succ]
    exact (readValue_nul h fuel).bind _

theorem readEntries_nul (h : start.rest = Char.ofNat 0 :: rest) (fuel : Nat) :
    Stopped (readEntries fuel start) := by
  cases fuel with
  | zero => exact stopped_error (by decide) start.place
  | succ fuel =>
    rw [readEntries_succ, h, if_neg (by simp)]
    exact stopped_error (by decide) start.place

theorem readText_nul (place p : Nat) : Stopped (readText place p (Char.ofNat 0 :: rest)) := by
  rw [readText_control place p (by decide)]
  exact stopped_error (by decide) p

/-- A single character is read as a digit, or not at all. -/
theorem readScalar_beside_nul {c : Char} (h : start.rest = c :: Char.ofNat 0 :: rest) :
    Stopped (readScalar start) ∨
      ∃ j behind, readScalar start = .ok (j, behind) ∧ behind.rest = Char.ofNat 0 :: rest := by
  unfold readScalar
  rw [find_words_nul (.inr ⟨c, h⟩)]
  by_cases hminus : c = '-'
  · have hfail : readNumber start = start.fail .value := by
      simp [readNumber, h, hminus, Cursor.advance, wholePart, isDigit, Cursor.fail]
    exact .inl (hfail ▸ stopped_error (by decide) start.place)
  by_cases hdigit : isDigit c = true
  · have hwhole : wholePart (c :: Char.ofNat 0 :: rest) = [c] := by
      unfold wholePart
      split
      · next hcons => rw [(List.cons.inj hcons).1]
      · rw [List.takeWhile_cons_of_pos hdigit]
        rfl
    refine .inr ⟨.int (Number.signed false (Number.ofDigits (digitValues [c]))), start.advance 1, ?_, ?_⟩
    · simp [readNumber, h, beq_false_of_ne hminus, hwhole, Cursor.advance, fractionPart,
        exponentPart, digitLimit]
    · simp [Cursor.advance, h]
  · have hwhole : wholePart (c :: Char.ofNat 0 :: rest) = [] := by
      unfold wholePart
      split
      · next hcons => exact absurd (show isDigit c = true by rw [(List.cons.inj hcons).1]; rfl) hdigit
      · exact List.takeWhile_cons_of_neg hdigit
    have hfail : readNumber start = start.fail .value := by
      simp [readNumber, h, hminus, hwhole, Cursor.fail]
    exact .inl (hfail ▸ stopped_error (by decide) start.place)

theorem readValue_beside_nul {c : Char} (h : start.rest = c :: Char.ofNat 0 :: rest) (fuel : Nat) :
    Stopped (readValue fuel start) ∨
      ∃ j behind, readValue fuel start = .ok (j, behind) ∧ behind.rest = Char.ofNat 0 :: rest := by
  have hinside : (start.advance 1).skipGap.rest = Char.ofNat 0 :: rest := by
    rw [skipGap_rest]
    simp [Cursor.advance, h, isGap]
  cases fuel with
  | zero => exact .inl (stopped_error (by decide) start.place)
  | succ fuel =>
    rw [readValue_succ, hinside, h, List.head?_cons, List.head?_cons, List.tail_cons]
    split
    · exact .inl ((readText_nul _ _).bind _)
    split
    · rw [if_neg (by simp)]
      exact .inl ((readItems_nul hinside fuel).bind _)
    split
    · rw [if_neg (by simp)]
      exact .inl ((readEntries_nul hinside fuel).bind _)
    · exact readScalar_beside_nul h

/-- **A text that begins so is no JSON**, and no long integer is what it is refused for. -/
theorem read_otherwise {source : String}
    (h : source.toList.head? = some (Char.ofNat 0xFEFF) ∨
      source.toList.head? = some (Char.ofNat 0) ∨
      ∃ c rest, source.toList = c :: Char.ofNat 0 :: rest) : Stopped (read source) := by
  unfold read
  dsimp only
  split
  · exact stopped_error (by decide) 0
  next hmark =>
  have hmark : source.toList.head? ≠ some (Char.ofNat 0xFEFF) := by simpa using hmark
  rcases h with h | h | ⟨c, rest, h⟩
  · exact absurd h hmark
  · obtain ⟨rest, h⟩ := List.head?_eq_some_iff.1 h
    have hnul : (Cursor.skipGap ⟨0, source.toList⟩).rest = Char.ofNat 0 :: rest := by
      rw [skipGap_rest, h]
      rfl
    exact (readValue_nul hnul _).bind _
  have hskip : (Cursor.skipGap ⟨0, source.toList⟩).rest =
      (c :: Char.ofNat 0 :: rest).dropWhile isGap := by
    rw [skipGap_rest, h]
  rw [List.dropWhile_cons] at hskip
  split at hskip
  · exact (readValue_nul (hskip.trans (by rfl)) _).bind _
  rcases readValue_beside_nul hskip (2 * source.toList.length + 2) with
    hstopped | ⟨j, behind, hread, hbehind⟩
  · exact hstopped.bind _
  · rw [hread, Attempt.ok_bind]
    have hrest : behind.skipGap.rest = Char.ofNat 0 :: rest := by
      rw [skipGap_rest, hbehind]
      rfl
    dsimp only
    rw [hrest]
    exact stopped_error (by decide) _

end Nul

end Json

namespace Workflow

open Text

/-- Two attempts to read a definition agree: they come to the same workflow, or both complain about
the definition, or both stop at an integer with too many digits. -/
inductive Agree : Attempt Value → Attempt Value → Prop
  | read (workflow : Value) : Agree (.ok workflow) (.ok workflow)
  | refused (fault fault' : FormatFault) : Agree (refuse fault) (refuse fault')
  | tooLong : Agree (.fault .malformed) (.fault .malformed)

section Text

variable {source : String} {j : Json} {c : Json.Complaint}

theorem ofText_ok (h : Json.read source = .ok j) : ofText source = ofValue j.toValue := by
  rw [ofText, decodeText, h]
  rfl

theorem ofText_refused (h : Json.read source = .error c) (hcause : c.cause ≠ .longInteger) :
    ofText source = refuse (.notJson (c.message source)) := by
  rw [ofText, decodeText, h]
  dsimp only
  rw [if_neg hcause]
  rfl

theorem ofText_tooLong (h : Json.read source = .error c) (hcause : c.cause = .longInteger) :
    ofText source = .fault .malformed := by
  rw [ofText, decodeText, h]
  dsimp only
  rw [if_pos hcause]
  rfl

end Text

/-- A text is read as a workflow, or complained about. -/
theorem ofText_settled (source : String) : Agree (ofText source) (ofText source) := by
  cases hread : Json.read source with
  | error c =>
    by_cases hcause : c.cause = .longInteger
    · rw [ofText_tooLong hread hcause]
      exact .tooLong
    · rw [ofText_refused hread hcause]
      exact .refused _ _
  | ok j =>
    rw [ofText_ok hread]
    obtain ⟨-, w, hw, -⟩ | ⟨-, fault, hrefused⟩ := ofValue_decides ⟨j, Json.readable_read hread, rfl⟩
    · rw [hw]
      exact .read w
    · rw [hrefused]
      exact .refused _ _

/-- **Unified line ends make no difference to a definition.** -/
theorem ofText_unify (source : String) :
    Agree (ofText (String.ofList (unifyLineEnds source.toList))) (ofText source) := by
  rcases Json.read_unify source with ⟨j, hread, hunified⟩ | ⟨c, c', hread, hunified, hcauses⟩
  · rw [ofText_ok hunified, ← ofText_ok hread]
    exact ofText_settled source
  by_cases hcause : c.cause = .longInteger
  · rw [ofText_tooLong hunified (hcauses.1 hcause), ofText_tooLong hread hcause]
    exact .tooLong
  · rw [ofText_refused hunified fun h => hcause (hcauses.2 h), ofText_refused hread hcause]
    exact .refused _ _

/-- Bytes that show no other encoding are read as UTF-8. -/
theorem ofBytes_utf8 {content : List UInt8} {source : String} (h : utf8? content = some source)
    (hplain : encodingOf content = (.utf8, 0)) : ofBytes content = ofText source := by
  have hdetected : detected? content = some source := by
    rw [detected?, hplain]
    exact looseUtf8_of_utf8 h
  rw [ofBytes, hdetected]

/-- What agrees with itself is a workflow, or a complaint, or stops at an integer with too many
digits. -/
theorem Agree.settled {reading : Attempt Value} (h : Agree reading reading) :
    (∃ workflow, reading = .ok workflow) ∨ (∃ fault, reading = refuse fault) ∨
      reading = .fault .malformed := by
  cases h with
  | read workflow => exact .inl ⟨workflow, rfl⟩
  | refused fault => exact .inr (.inl ⟨fault, rfl⟩)
  | tooLong => exact .inr (.inr rfl)

/-- **What is read from a file, and what from its bytes.** A file is taken for UTF-8. If it is not,
it cannot be decoded, and a command that loads it does not explain why. If its bytes begin with a byte
order mark or show another encoding it is complained about, whatever is read from the bytes as such.
In all other cases the two agree. Bytes as such are read or complained about, or stop at an integer
with too many digits. -/
theorem ofFile_decides (content : List UInt8) :
    (match utf8? content with
      | none => ofFile content = .fault .undecodable ∧
          CommandLine.isExplained (.data .undecodable) = false
      | some _ =>
        if encodingOf content = (.utf8, 0) then Agree (ofFile content) (parse (.bytes content))
        else ∃ fault, ofFile content = refuse fault) ∧
    ((∃ workflow, parse (.bytes content) = .ok workflow) ∨
      (∃ fault, parse (.bytes content) = refuse fault) ∨
      parse (.bytes content) = .fault .malformed) := by
  have hparse : parse (.bytes content) = ofBytes content := rfl
  rw [hparse]
  constructor
  · cases hutf8 : utf8? content with
    | none =>
      rw [ofFile, hutf8]
      exact ⟨rfl, rfl⟩
    | some source =>
      have hfile : ofFile content = ofText (String.ofList (unifyLineEnds source.toList)) := by
        rw [ofFile, hutf8]
      dsimp only
      split
      · next hplain =>
        rw [hfile, ofBytes_utf8 hutf8 hplain]
        exact ofText_unify source
      · next hother =>
        obtain ⟨c, hread, hcause⟩ := Json.read_otherwise (utf8_otherwise hutf8 hother)
        rcases Json.read_unify source with ⟨j, hok, -⟩ | ⟨d, c', hread', hunified, hcauses⟩
        · cases hread.symm.trans hok
        obtain rfl := Except.error.inj (hread.symm.trans hread')
        rw [hfile, ofText_refused hunified fun h => hcause (hcauses.2 h)]
        exact ⟨_, rfl⟩
  · unfold ofBytes
    split
    · exact (ofText_settled _).settled
    · exact .inr (.inl ⟨_, rfl⟩)

/-- A byte that begins no character of UTF-8 is complained about as such, but not in a file. -/
example : parse (.bytes [0xFF]) = refuse (.notJson "undecodable") ∧
    ofFile [0xFF] = .fault .undecodable :=
  ⟨rfl, rfl⟩

end Workflow

end WorkflowEngine
