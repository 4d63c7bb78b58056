import WorkflowEngine.Proofs.Json.RoundTrip

/-!
# Printed JSON as bytes

What is printed is plain: ASCII without a carriage return (`plain_renderIn`). So a file that holds it
is decoded to the text that was written, and unifying its line ends changes nothing
(`utf8_toUtf8`, `unifyLineEnds_plain`).
-/

namespace WorkflowEngine.Json

open Number Text

/-- Whether some characters are ASCII without a carriage return. -/
def Plain (cs : List Char) : Prop := ∀ c ∈ cs, c.toNat < 128 ∧ c ≠ '\r'

theorem Plain.append {cs ds : List Char} (hcs : Plain cs) (hds : Plain ds) : Plain (cs ++ ds) :=
  fun c hc => (List.mem_append.1 hc).elim (hcs c) (hds c)

theorem plain_cons {c : Char} {cs : List Char} (hc : c.toNat < 128 ∧ c ≠ '\r') (hcs : Plain cs) :
    Plain (c :: cs) :=
  List.forall_mem_cons.2 ⟨hc, hcs⟩

theorem plain_of_all {cs : List Char} (h : cs.all (fun c => c.toNat < 128 && c != '\r') = true) :
    Plain cs := by
  simpa [Plain] using h

theorem plain_nil : Plain [] := fun _ h => absurd h List.not_mem_nil

theorem plain_map {α : Type} {f : α → Char} {xs : List α}
    (h : ∀ x ∈ xs, (f x).toNat < 128 ∧ f x ≠ '\r') : Plain (xs.map f) := by
  intro c hc
  obtain ⟨x, hx, rfl⟩ := List.mem_map.1 hc
  exact h x hx

/-! ## Numbers and texts -/

theorem plain_digits {ds : List Nat} (h : ∀ d ∈ ds, d < 10) : Plain (ds.map digitChar) := by
  have hdigit : ∀ d < 10, (digitChar d).toNat < 128 ∧ digitChar d ≠ '\r' := by decide
  exact plain_map fun d hd => hdigit d (h d hd)

theorem Written.Proper.plain {w : Written} (h : w.Proper) : Plain w.chars := by
  have hsign : Plain (Written.signChars w.negative) := by
    unfold Written.signChars
    split
    · exact plain_cons (by decide) plain_nil
    · exact plain_nil
  have hfraction : Plain (Written.fractionChars w.fraction) := by
    unfold Written.fractionChars
    split
    · exact plain_nil
    · exact plain_cons (by decide) (plain_digits h.fraction)
  refine hsign.append ((plain_digits h.whole).append (hfraction.append ?_))
  cases hexponent : w.exponent with
  | none => exact plain_nil
  | some e =>
    refine plain_cons (by decide) (plain_cons ?_ (plain_digits (h.exponent e.1 e.2 hexponent).2))
    split <;> decide

theorem plain_int (n : Int) : Plain (intText n).toList := by
  rw [intText, natText, String.toList_append, String.toList_ofList]
  refine Plain.append ?_ (plain_digits (digitsOf_digit _))
  split
  · exact plain_cons (by decide) plain_nil
  · exact plain_nil

theorem plain_float (x : Float) : Plain (numberText x).toList := by
  have hnan : Plain "NaN".toList := plain_of_all (by decide)
  have hinfinity : Plain "Infinity".toList := plain_of_all (by decide)
  have hnegative : Plain "-Infinity".toList := plain_of_all (by decide)
  unfold numberText
  cases h : decode x with
  | nan => exact hnan
  | infinite negative =>
    cases negative with
    | false => exact hinfinity
    | true => exact hnegative
  | finite negative m e =>
    obtain ⟨w, proper, -, htext, -⟩ := floatText_written h
    exact htext ▸ proper.plain

theorem plain_unit (n : Nat) : Plain (unitEscape n) := by
  have hdigit : ∀ d < 16, (hexDigit d).toNat < 128 ∧ hexDigit d ≠ '\r' := by decide
  have hdigits : ∀ width n, Plain (hex width n) := by
    intro width
    induction width with
    | zero => exact fun _ => plain_nil
    | succ width ih =>
      intro n
      exact (ih _).append (plain_cons (hdigit _ (Nat.mod_lt _ (by decide))) plain_nil)
  exact plain_cons (by decide) (plain_cons (by decide) (hdigits 4 n))

theorem plain_escapeChar (c : Char) : Plain (escapeChar c) := by
  unfold escapeChar
  dsimp only
  iterate 7
    split
    · exact plain_of_all (by decide)
  split
  · rename_i hprinted
    refine plain_cons ⟨by omega, ?_⟩ plain_nil
    rintro rfl
    exact absurd hprinted (by decide)
  split
  · exact plain_unit _
  · exact (plain_unit _).append (plain_unit _)

theorem plain_quotedText (s : String) : Plain (quotedText s).toList := by
  rw [quotedText_toList]
  refine plain_cons (by decide) (Plain.append ?_ (plain_cons (by decide) plain_nil))
  intro c hc
  obtain ⟨c', -, hc⟩ := List.mem_flatMap.1 hc
  exact plain_escapeChar c' c hc

/-! ## Whole values -/

variable {l : Layout}

theorem plain_newLine {unit : Option String} (h : ∀ s ∈ unit, Plain s.toList) (level : Nat) :
    Plain (newLine unit level).toList := by
  intro c hc
  obtain rfl | ⟨s, hs, hc⟩ := mem_newLine hc
  · decide
  · exact h s hs c hc

theorem plain_between (h : ∀ s ∈ l.unit, Plain s.toList) : Plain l.between.toList := by
  unfold Layout.between
  split
  · exact plain_of_all (by decide)
  · rw [String.toList_append]
    exact Plain.append (plain_cons (by decide) plain_nil) (plain_newLine h _)

mutual

/-- **What is printed for a value is plain** if the unit of indentation is. -/
theorem plain_renderIn (l : Layout) (h : ∀ s ∈ l.unit, Plain s.toList) :
    (j : Json) → Plain (renderIn l j).toList
  | .null => by
    rw [renderIn]
    exact plain_of_all (by decide)
  | .bool b => by
    rw [renderIn]
    cases b <;> exact plain_of_all (by decide)
  | .int n => plain_int n
  | .float x => plain_float x
  | .text s => plain_quotedText s
  | .list [] => by
    rw [renderIn]
    exact plain_of_all (by decide)
  | .list (j :: js) => by
    rw [renderList_toList, itemsText, List.append_assoc]
    exact plain_cons (by decide) ((plain_newLine h _).append ((plain_renderIn l.inner h j).append
      ((plain_renderRest l h js).append ((plain_newLine h _).append
        (plain_cons (by decide) plain_nil)))))
  | .object [] => by
    rw [renderIn]
    exact plain_of_all (by decide)
  | .object ((k, j) :: rest) => by
    rw [renderObject_toList, entriesText, List.append_assoc, List.cons_append, List.cons_append,
      List.append_assoc]
    exact plain_cons (by decide) ((plain_newLine h _).append ((plain_quotedText k).append
      (plain_cons (by decide) (plain_cons (by decide) ((plain_renderIn l.inner h j).append
        ((plain_renderEntries l h rest).append ((plain_newLine h _).append
          (plain_cons (by decide) plain_nil))))))))

theorem plain_renderRest (l : Layout) (h : ∀ s ∈ l.unit, Plain s.toList) :
    (items : List Json) → Plain (renderRest l items).toList
  | [] => plain_nil
  | j :: js => by
    rw [renderRest, String.toList_append, String.toList_append]
    exact ((plain_between h).append (plain_renderIn l.inner h j)).append (plain_renderRest l h js)

theorem plain_renderEntries (l : Layout) (h : ∀ s ∈ l.unit, Plain s.toList) :
    (entries : List (String × Json)) → Plain (renderEntries l entries).toList
  | [] => plain_nil
  | (k, j) :: rest => by
    rw [renderEntries]
    simp only [String.toList_append]
    exact ((((plain_between h).append (plain_quotedText k)).append
      (plain_cons (by decide) (plain_cons (by decide) plain_nil))).append
        (plain_renderIn l.inner h j)).append (plain_renderEntries l h rest)

end

/-! ## Bytes and lines -/

theorem unifyLineEnds_plain {cs : List Char} (h : Plain cs) : unifyLineEnds cs = cs := by
  induction cs with
  | nil => rfl
  | cons c cs ih =>
    obtain ⟨⟨-, hc⟩, hcs⟩ := List.forall_mem_cons.1 h
    have hrest := ih hcs
    rw [unifyLineEnds.eq_def]
    split <;> grind

/-- The bytes of an array from some place on, behind those that have been gone through. -/
theorem byteArray_loop (bs : ByteArray) (k : Nat) : ∀ i r, bs.size - i = k →
    ByteArray.toList.loop bs i r = r.reverse ++ bs.data.toList.drop i := by
  have hsize : bs.data.toList.length = bs.size := rfl
  induction k with
  | zero =>
    intro i r hk
    rw [ByteArray.toList.loop, if_neg (by omega), List.drop_eq_nil_of_le (by omega),
      List.append_nil]
  | succ k ih =>
    intro i r hk
    have hlt : i < bs.data.toList.length := by omega
    have hget : bs.get! i = bs.data.toList[i] := getElem!_pos bs.data i hlt
    rw [ByteArray.toList.loop, if_pos (by omega), ih (i + 1) _ (by omega),
      List.drop_eq_getElem_cons hlt, List.reverse_cons, List.append_assoc, hget]
    rfl

theorem toUtf8_ofList (cs : List Char) :
    toUtf8 (String.ofList cs) = cs.flatMap String.utf8EncodeChar := by
  rw [toUtf8, ByteArray.toList, byteArray_loop _ _ 0 [] rfl]
  exact List.toList_data_toByteArray

theorem readUtf8_plain (surrogates : Bool) (onBad : Option (List Char)) {cs : List Char}
    (h : Plain cs) : readUtf8 surrogates onBad none (cs.flatMap String.utf8EncodeChar) = some cs := by
  induction cs with
  | nil => rfl
  | cons c cs ih =>
    obtain ⟨⟨hc, -⟩, hcs⟩ := List.forall_mem_cons.1 h
    have hcode : c.val.toNat ≤ 127 := Nat.le_of_lt_succ hc
    have hbyte : (UInt8.ofNat c.val.toNat).toNat = c.toNat := Nat.mod_eq_of_lt (by omega)
    rw [List.flatMap_cons, String.utf8EncodeChar, if_pos hcode, List.singleton_append, readUtf8,
      hbyte, if_pos hc, ih hcs, Option.map_some, Char.ofNat_toNat]

/-- Plain text is decoded to itself. -/
theorem utf8_toUtf8 {s : String} (h : Plain s.toList) : utf8? (toUtf8 s) = some s := by
  rw [utf8?, ← String.ofList_toList (s := s), toUtf8_ofList, readUtf8_plain _ none (by simpa using h),
    Option.map_some]

end WorkflowEngine.Json
