import WorkflowEngine.Proofs.Expression.References

/-!
# Expressions that are JSON

The text of a JSON value is no template and begins with no root, whatever braces and dollars its
texts have, and it has no blanks at its ends (`unclaimed_compact`). So as an expression it is read as
JSON, and gives the value that it was made of (`evaluate?_compact`).
-/

namespace WorkflowEngine

open Number Text

/-! ## The text of a value -/

namespace Json

mutual

/-- A value that JSON stands for says JSON, if it can be read. -/
theorem saysJson_toValue : (j : Json) → j.Readable → j.toValue.SaysJson
  | .null, _ => .null
  | .bool b, _ => .bool b
  | .int n, h => .int n none (longIntegerBound_eq ▸ h)
  | .float x, _ => .float x none
  | .text s, _ => .text s none
  | .list items, h => .list _ none (saysJson_toValues items h)
  | .object entries, h => by
    refine .dict _ none (fun e he => ?_) (saysJson_toFields entries h.2)
    rw [toFields_eq] at he
    obtain ⟨e, -, rfl⟩ := List.mem_map.1 he
    exact ⟨e.1, rfl⟩

theorem saysJson_toValues : (items : List Json) → ReadableAll items →
    ∀ v ∈ toValues items, v.SaysJson
  | [], _ => fun _ hv => absurd hv List.not_mem_nil
  | j :: js, h => List.forall_mem_cons.2 ⟨saysJson_toValue j h.1, saysJson_toValues js h.2⟩

theorem saysJson_toFields : (entries : List (String × Json)) → ReadableEntries entries →
    ∀ e ∈ toFields entries, e.2.SaysJson
  | [], _ => fun _ he => absurd he List.not_mem_nil
  | (_, j) :: rest, h =>
    List.forall_mem_cons.2 ⟨saysJson_toValue j h.1, saysJson_toFields rest h.2⟩

end

/-- The JSON text of such a value is the text of the JSON that it stands for. -/
theorem jsonText_toValue {j : Json} (h : j.Readable) (scopes : Scopes) :
    j.toValue.jsonText scopes = .ok j.compact := by
  rw [Value.jsonText, (saysJson_toValue j h).unfold_eq, toJson_toValue true j h]
  rfl

/-! ## The characters of numbers and words -/

/-- Whether a character stands in the stretch of ASCII that numbers and words are written with, from
the sign `+` to the last letter. It has no blanks, no braces and no dollar. -/
def IsInk (c : Char) : Prop := 43 ≤ c.toNat ∧ c.toNat ≤ 122

theorem ink_of_all {cs : List Char} (h : cs.all (fun c => 43 ≤ c.toNat && c.toNat ≤ 122) = true) :
    ∀ c ∈ cs, IsInk c := by
  simpa [IsInk] using h

theorem digitChars_ink {ds : List Nat} (h : ∀ d ∈ ds, d < 10) :
    ∀ c ∈ ds.map digitChar, IsInk c := by
  have hdigit : ∀ d < 10, 43 ≤ (digitChar d).toNat ∧ (digitChar d).toNat ≤ 122 := by decide
  intro c hc
  obtain ⟨d, hd, rfl⟩ := List.mem_map.1 hc
  exact hdigit d (h d hd)

theorem Written.Proper.ink {w : Written} (h : w.Proper) : ∀ c ∈ w.chars, IsInk c := by
  have hsign : ∀ c ∈ Written.signChars w.negative, IsInk c := by
    unfold Written.signChars
    split <;> exact ink_of_all rfl
  have hfraction : ∀ c ∈ Written.fractionChars w.fraction, IsInk c := by
    unfold Written.fractionChars
    split
    · exact fun _ hc => absurd hc List.not_mem_nil
    · have hpoint : ∀ c ∈ ['.'], IsInk c := ink_of_all rfl
      exact List.forall_mem_append.2 ⟨hpoint, digitChars_ink h.fraction⟩
  have hexponent : ∀ c ∈ Written.exponentChars w.exponent, IsInk c := by
    cases hexponent : w.exponent with
    | none => exact fun _ hc => absurd hc List.not_mem_nil
    | some e =>
      have hdigits := digitChars_ink (h.exponent e.1 e.2 hexponent).2
      have hmark : ∀ down : Bool, ∀ c ∈ ['e', if down then '-' else '+'], IsInk c :=
        fun down => by cases down <;> exact ink_of_all rfl
      obtain ⟨down, ds⟩ := e
      cases down with
      | false => exact List.forall_mem_append.2 ⟨hmark false, hdigits⟩
      | true => exact List.forall_mem_append.2 ⟨hmark true, hdigits⟩
  intro c hc
  simp only [Written.chars, List.mem_append] at hc
  obtain hc | hc | hc | hc := hc
  · exact hsign c hc
  · exact digitChars_ink h.whole c hc
  · exact hfraction c hc
  · exact hexponent c hc

theorem ink_float (x : Float) : ∀ c ∈ (numberText x).toList, IsInk c := by
  have hnan : ∀ c ∈ "NaN".toList, IsInk c := ink_of_all rfl
  have hinfinity : ∀ c ∈ "Infinity".toList, IsInk c := ink_of_all rfl
  have hnegative : ∀ c ∈ "-Infinity".toList, IsInk c := ink_of_all rfl
  unfold numberText
  cases h : decode x with
  | nan => exact hnan
  | infinite negative =>
    cases negative with
    | false => exact hinfinity
    | true => exact hnegative
  | finite negative m e =>
    obtain ⟨w, proper, -, htext, -⟩ := floatText_written h
    exact htext ▸ proper.ink

end Json

/-! ## Texts that are read as nothing but JSON -/

/-- No other way to read an expression claims the text: no blanks are removed from it, and neither a
placeholder nor a root stands in front. -/
structure Unclaimed (cs : List Char) : Prop where
  bare : Bare cs
  hole : Template.hole? cs = none
  root : ∀ c ∈ cs.head?, c ≠ '$'

variable {cs : List Char} {context : Context} {s : String} {j : Json}

theorem hole?_cons {c : Char} (h : c ≠ '\x7b') : Template.hole? (c :: cs) = none := by
  rw [Template.hole?]
  rintro rest ⟨⟩
  exact h rfl

theorem unclaimed_ink (h : ∀ c ∈ cs, Json.IsInk c) : Unclaimed cs where
  bare := bare_of_all fun c hc => by
    have hc := h c hc
    simp only [Json.IsInk] at hc
    simp only [isBlank]
    grind
  hole := by
    cases cs with
    | nil => rfl
    | cons c cs =>
      refine hole?_cons ?_
      rintro rfl
      exact absurd (h _ List.mem_cons_self).2 (by decide)
  root := by
    rintro c hc rfl
    exact absurd (h _ (List.mem_of_mem_head? hc)).1 (by decide)

/-- A text between brackets or quotes of which no placeholder stands in front. -/
theorem unclaimed_enclosed {first last : Char} (inside : List Char)
    (hfirst : isBlank first = false) (hdollar : first ≠ '$') (hlast : isBlank last = false)
    (hhole : Template.hole? (first :: (inside ++ [last])) = none) :
    Unclaimed (first :: (inside ++ [last])) where
  bare := {
    front := by
      rintro _ ⟨⟩
      exact hfirst
    back := by
      intro c hc
      rw [← List.cons_append, List.getLast?_concat] at hc
      exact Option.some.inj hc ▸ hlast }
  hole := hhole
  root := by
    rintro _ ⟨⟩
    exact hdollar

/-- **The text of a JSON value is claimed by no other way to read an expression.** -/
theorem unclaimed_compact : (j : Json) → j.Readable → Unclaimed j.compact.toList := by
  intro j h
  rw [Json.compact, Json.render]
  match j, h with
  | .null, _ => exact unclaimed_ink (Json.ink_of_all rfl)
  | .bool false, _ => exact unclaimed_ink (Json.ink_of_all rfl)
  | .bool true, _ => exact unclaimed_ink (Json.ink_of_all rfl)
  | .int n, h =>
    obtain ⟨w, proper, -, htext, -⟩ := Json.intText_written h
    exact unclaimed_ink (by rw [Json.renderIn, htext]; exact proper.ink)
  | .float x, _ => exact unclaimed_ink (by rw [Json.renderIn]; exact Json.ink_float x)
  | .text s, _ =>
    rw [Json.renderIn, Json.quotedText_toList]
    exact unclaimed_enclosed _ rfl (by decide) rfl (hole?_cons (by decide))
  | .list [], _ => exact unclaimed_enclosed [] rfl (by decide) rfl rfl
  | .list (j :: js), _ =>
    rw [Json.renderList_toList, ← List.append_assoc, ← List.append_assoc]
    exact unclaimed_enclosed _ rfl (by decide) rfl (hole?_cons (by decide))
  | .object [], _ => exact unclaimed_enclosed [] rfl (by decide) rfl rfl
  | .object (e :: rest), _ =>
    -- on one line the first name stands right behind the brace
    obtain ⟨cs, hname⟩ := Json.entriesText_head ⟨none, 0⟩ e rest
    rw [Json.renderObject_toList, ← List.append_assoc, ← List.append_assoc, hname]
    exact unclaimed_enclosed _ rfl (by decide) rfl rfl

/-! ## What such a text is read as -/

theorem behind?_eq_none {c : Char} {beginning : List Char} (h : ∀ d ∈ cs.head?, d ≠ c) :
    behind? (c :: beginning) cs = none := by
  refine if_neg fun hprefix => ?_
  obtain ⟨rest, rfl⟩ := List.isPrefixOf_iff_prefix.1 hprefix
  exact h c rfl rfl

/-- Every root begins with a dollar. -/
theorem fromRoot?_eq_none (h : ∀ c ∈ cs.head?, c ≠ '$') : context.fromRoot? cs = none := by
  rw [Context.fromRoot?, List.findSome?_eq_none_iff]
  rintro ⟨name, root⟩ hroot
  obtain ⟨rest, hname⟩ : ∃ rest, name.toList = '$' :: rest := by
    simp only [Context.roots, List.mem_cons, Prod.mk.injEq, List.not_mem_nil, or_false] at hroot
    obtain ⟨rfl, -⟩ | ⟨rfl, -⟩ | ⟨rfl, -⟩ := hroot <;> exact ⟨_, rfl⟩
  have hne : cs ≠ '$' :: rest := by
    rintro rfl
    exact h '$' rfl rfl
  simp only [hname, if_neg hne, List.cons_append, behind?_eq_none h, Option.map_none]

theorem evaluate?_unclaimed (h : Unclaimed s.toList) (hjson : Json.read? s = some j) :
    context.evaluate? s = some j.toValue := by
  rw [Context.evaluate?, h.bare.trim_eq, String.ofList_toList]
  simp only [Template.single?_eq_none h.bare h.hole, fromRoot?_eq_none h.root, hjson]

/-- **As an expression, the text of a JSON value gives the value**, in every context. -/
theorem evaluate?_compact (context : Context) (h : j.Readable) :
    context.evaluate? j.compact = some j.toValue :=
  evaluate?_unclaimed (unclaimed_compact j h) (Json.read?_compact h)

end WorkflowEngine
