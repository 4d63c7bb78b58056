import WorkflowEngine.Expression.Path
import WorkflowEngine.Proofs.Text.Pieces

/-!
# Where paths lead

A path is walked segment by segment. A segment names at most one part of a value (`Value.Names`): an
entry of an object or of a table of the run, or the item of a list or a row at the place that it
writes. The walk goes from part to part (`Value.Leads`), and from a segment that names nothing on it
gives null, to the end of the path (`nested_of_missing`). So a path that is put together from two
leads to where the second leads from the end of the first (`nested_composes`).
-/

namespace WorkflowEngine

open Number Text

namespace Value

variable {scopes : Scopes} {u v w : Value} {path segment : List Char}
variable {front back segments : List (List Char)}

/-! ## What a segment names -/

/-- The items of a list or a row. -/
def rowItems? : Value → Option (List Value)
  | .list items _ | .tuple items _ => some items
  | _ => none

/-- A segment of a path names a part of a value. -/
inductive Names (scopes : Scopes) : Value → List Char → Value → Prop where
  /-- The entry of an object, or of a table of the run, under the segment. -/
  | entry {v part : Value} {segment : List Char} {entries : Fields}
      (object : v.entries? scopes = some entries)
      (found : entries.lookup (.text (String.ofList segment)) = some part) :
      Names scopes v segment part
  /-- The item at the place that the segment writes, counted from the end if it is negative. -/
  | item {v part : Value} {segment : List Char} {items : List Value} {place : Int} {i : Nat}
      (row : v.rowItems? = some items)
      (written : readInt? (String.ofList segment) = some place)
      (counted : place = i ∨ place + items.length = i)
      (found : items[i]? = some part) :
      Names scopes v segment part

/-- A row of segments leads from a value to a part of it. -/
inductive Leads (scopes : Scopes) : Value → List (List Char) → Value → Prop where
  | here (v : Value) : Leads scopes v [] v
  | on {u v w : Value} {segment : List Char} {segments : List (List Char)}
      (named : Names scopes v segment u) (rest : Leads scopes u segments w) :
      Leads scopes v (segment :: segments) w

/-- An item that is there is found at both of its places. -/
theorem itemAt_eq {items : List Value} {place : Int} {i : Nat}
    (counted : place = i ∨ place + items.length = i) (found : items[i]? = some v) :
    itemAt items place = v := by
  obtain ⟨hbound, -⟩ := List.getElem?_eq_some_iff.1 found
  have hplace : (if place < 0 then place + items.length else place) = i := by
    split <;> omega
  rw [itemAt, hplace, if_neg (by omega), Int.toNat_natCast, found, Option.getD_some]

/-- At a place where there is no item there is null. -/
theorem itemAt_eq_null {items : List Value} {place : Int}
    (missing : ∀ (i : Nat) v, place = i ∨ place + items.length = i → items[i]? ≠ some v) :
    itemAt items place = .null := by
  unfold itemAt
  extract_lets i
  have hi : i = place ∨ i = place + items.length := by
    simp only [i]
    split
    · exact .inr rfl
    · exact .inl rfl
  split
  · rfl
  · have hcounted : place = i.toNat ∨ place + items.length = i.toNat := by omega
    rw [Option.eq_none_iff_forall_ne_some.2 fun v => missing i.toNat v hcounted, Option.getD_none]

theorem step_of_names (h : Names scopes v segment w) : step scopes v segment = w := by
  cases h with
  | entry object found =>
    cases v with
    | dict _ _ | live _ =>
      cases object
      rw [step, found, Option.getD_some]
    | _ => cases object
  | item row written counted found =>
    cases v with
    | list _ _ | tuple _ _ =>
      cases row
      rw [step, written]
      exact itemAt_eq counted found
    | _ => cases row

/-- **Where a segment names nothing there is null.** -/
theorem step_of_missing (h : ∀ w, ¬ Names scopes v segment w) : step scopes v segment = .null := by
  have hentry : ∀ entries : Fields, v.entries? scopes = some entries →
      (entries.lookup (.text (String.ofList segment))).getD .null = .null := by
    intro entries object
    rw [Option.eq_none_iff_forall_ne_some.2 fun w found => h w (.entry object found),
      Option.getD_none]
  have hitem : ∀ items : List Value, v.rowItems? = some items →
      ∀ place, readInt? (String.ofList segment) = some place → itemAt items place = .null := by
    intro items row place written
    exact itemAt_eq_null fun i w counted found => h w (.item row written counted found)
  cases v with
  | dict entries _ => exact hentry entries rfl
  | live scope => exact hentry (scopes.table scope) rfl
  | list items _ | tuple items _ =>
    rw [step]
    split
    · next place written => exact hitem items rfl place written
    · rfl
  | _ => rfl

/-! ## Walks -/

theorem steps_null (segments : List (List Char)) : segments.foldl (step scopes) .null = .null := by
  induction segments with
  | nil => rfl
  | cons segment segments ih => exact ih

/-- A path that can lead nowhere leads to null, and from null on to null. -/
theorem steps_of_not_container (h : v.isContainer = false) (segment : List Char)
    (segments : List (List Char)) : (segment :: segments).foldl (step scopes) v = .null := by
  have hstep : step scopes v segment = .null := by
    cases v with
    | list _ _ | tuple _ _ | dict _ _ | live _ => cases h
    | _ => rfl
  rw [List.foldl_cons, hstep, steps_null]

/-- A path that is not empty is walked from any value, be it a container or not. -/
theorem nested_eq_steps (h : path ≠ []) :
    v.nested scopes path = (pieces '.' path).foldl (step scopes) v := by
  rw [nested, List.isEmpty_eq_false_iff.2 h]
  cases hcontainer : v.isContainer with
  | true => rfl
  | false =>
    obtain ⟨segment, segments, hpieces⟩ := List.exists_cons_of_ne_nil (pieces_ne_nil '.' path)
    rw [hpieces, steps_of_not_container hcontainer]
    rfl

theorem Leads.steps_eq (h : Leads scopes v segments w) : segments.foldl (step scopes) v = w := by
  induction h with
  | here v => rfl
  | on named rest ih => rw [List.foldl_cons, step_of_names named, ih]

/-- **Behind a segment that names nothing a path leads to null.** -/
theorem nested_of_missing (hpath : path ≠ []) (hpieces : pieces '.' path = front ++ segment :: back)
    (hfront : Leads scopes v front u) (hmissing : ∀ w, ¬ Names scopes u segment w) :
    v.nested scopes path = .null := by
  rw [nested_eq_steps hpath, hpieces, List.foldl_append, hfront.steps_eq, List.foldl_cons,
    step_of_missing hmissing, steps_null]

/-- A path that is put together from two leads to where the second leads from the end of the
first. -/
theorem nested_separated (scopes : Scopes) (v : Value) {p q : List Char} (hp : p ≠ [])
    (hq : q ≠ []) :
    v.nested scopes (p ++ '.' :: q) = (v.nested scopes p).nested scopes q := by
  have hjoined : p ++ '.' :: q ≠ [] := List.append_ne_nil_of_right_ne_nil _ (List.cons_ne_nil _ _)
  calc v.nested scopes (p ++ '.' :: q)
      = (pieces '.' p ++ pieces '.' q).foldl (step scopes) v := by
        rw [nested_eq_steps hjoined, pieces_separated]
    _ = (pieces '.' q).foldl (step scopes) ((pieces '.' p).foldl (step scopes) v) :=
        List.foldl_append
    _ = (v.nested scopes p).nested scopes q := by
        rw [← nested_eq_steps hp, ← nested_eq_steps hq]

/-- **Paths compose.** The path that joins two leads to where the second leads from the end of the
first. A path leads to the part that its segments name one after another, and to null if one of them
names nothing in what those before it have led to. Every text is a path of the settings and leads
somewhere, from whatever value. -/
theorem nested_composes (scopes : Scopes) (v : Value) :
    (∀ p q, p ≠ [] → q ≠ [] →
      v.nested scopes (p ++ '.' :: q) = (v.nested scopes p).nested scopes q) ∧
    (∀ path, path ≠ [] →
      (∀ w, Leads scopes v (pieces '.' path) w → v.nested scopes path = w) ∧
      ∀ front segment back u, pieces '.' path = front ++ segment :: back →
        Leads scopes v front u → (∀ w, ¬ Names scopes u segment w) →
        v.nested scopes path = .null) ∧
    ∀ s mark, v.nestedBy scopes (.text s mark) = .ok (v.nested scopes s.toList) := by
  refine ⟨fun p q hp hq => nested_separated scopes v hp hq, fun path hpath => ⟨?_, ?_⟩, ?_⟩
  · intro w hleads
    rw [nested_eq_steps hpath, hleads.steps_eq]
  · intro front segment back u hpieces hfront hmissing
    exact nested_of_missing hpath hpieces hfront hmissing
  · intro s mark
    rfl

/-- An object with a list, in which an object and null stand. -/
def basket : Value := .object [("items", .list [.object [("id", .text "x")], .null])]

theorem nested_composes_basket :
    basket.nested {} "items.-2.id".toList =
      (basket.nested {} "items".toList).nested {} "-2.id".toList ∧
    basket.nested {} "items.-2.id".toList = .text "x" ∧
    basket.nested {} "items.01.id".toList = .null ∧
    basket.nestedBy {} (.text "items.2") = .ok .null := by
  obtain ⟨hjoined, hleads, htotal⟩ := nested_composes {} basket
  have hitems : Names {} basket "items".toList (.list [.object [("id", .text "x")], .null]) :=
    .entry rfl rfl
  have hfirst : Names {} (.list [.object [("id", .text "x")], .null]) "-2".toList
      (.object [("id", .text "x")]) := .item rfl rfl (.inr rfl) rfl
  have hsecond : Names {} (.list [.object [("id", .text "x")], .null]) "01".toList .null :=
    .item rfl rfl (.inl rfl) rfl
  have hid : Names {} (.object [("id", .text "x")]) "id".toList (.text "x") := .entry rfl rfl
  have hnothing : ∀ w, ¬ Names {} .null "id".toList w := by
    intro w h
    cases h with
    | entry object => cases object
    | item row => cases row
  refine ⟨hjoined "items".toList "-2.id".toList (by decide) (by decide), ?_, ?_,
    htotal "items.2" none⟩
  · exact (hleads "items.-2.id".toList (by decide)).1 _
      (.on hitems (.on hfirst (.on hid (.here _))))
  · exact (hleads "items.01.id".toList (by decide)).2 ["items".toList, "01".toList] "id".toList []
      .null rfl (.on hitems (.on hsecond (.here _))) hnothing

end Value

end WorkflowEngine
