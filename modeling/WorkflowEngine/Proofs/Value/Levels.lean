import Mathlib.Data.List.Forall2
import Mathlib.Logic.Relation
import WorkflowEngine.Proofs.Value.Recorded

/-!
# How deep a record looks

Whatever a value is made of, be it that it lies inside itself, a record keeps of it JSON of bounded
depth, and of JSON that is not deeper than that it keeps everything (`recordedTo_bounded`). The mark
that is left in place of what lies too deep adds one level, and to record a record once more finds it
where it is: a second pass changes nothing. The only thing that can go wrong is a key that cannot be
shown.
-/

namespace WorkflowEngine

theorem Attempt.mapM_of_forall₂ {α β : Type} {f : α → Attempt β} {items : List α} {made : List β}
    (h : List.Forall₂ (fun a b => f a = .ok b) items made) : items.mapM f = .ok made := by
  induction h with
  | nil => rfl
  | cons hfirst _ ih =>
    rw [List.mapM_cons, hfirst, Attempt.ok_bind, ih]
    rfl

namespace Value

/-! ## Values that are JSON -/

/-- Whether a value is a JSON value of at most so many levels, wherever its parts were made. A scalar
has one level, and a container one more than its deepest part. -/
def IsJson : (levels : Nat) → Value → Json → Prop
  | _ + 1, .null, .null => True
  | _ + 1, .bool b, .bool b' => b = b'
  | _ + 1, .int n _, .int n' => n = n'
  | _ + 1, .float x _, .float x' => x = x'
  | _ + 1, .text s _, .text s' => s = s'
  | levels + 1, .list vs _, .list js => List.Forall₂ (IsJson levels) vs js
  | levels + 1, .dict es _, .object js =>
    (js.map Prod.fst).Nodup ∧
      List.Forall₂ (fun e e' => e.1 = .text e'.1 ∧ IsJson levels e.2 e'.2) es js
  | _, _, _ => False

/-- A JSON value without parts. -/
def IsScalar : Json → Prop
  | .list _ | .object _ => False
  | _ => True

variable {scopes : Scopes} {depth : Nat} {p : Place} {j : Json}

theorem recordedLeaf_isScalar (v : Value) : IsScalar (recordedLeaf v) := by
  have hplaceholder : ∀ home kind shown, IsScalar (placeholder home kind shown) := by
    intro home kind shown
    cases shown <;> trivial
  cases v with
  | complex | thing =>
    rw [recordedLeaf]
    exact hplaceholder _ _ _
  | _ => trivial

theorem isJson_scalar (hj : IsScalar j) (levels : Nat) : IsJson (levels + 1) j.toValue j := by
  cases j with
  | list | object => exact hj.elim
  | null => trivial
  | _ => rfl

/-! ## What a record is made of -/

theorem namedEntries_of_forall₂ {α : Type} {record : α → Attempt Json} {entries : List (Key × α)}
    {named : List (String × Json)} (h : List.Forall₂
      (fun e e' => e.1.plain = .ok e'.1 ∧ record e.2 = .ok e'.2) entries named) :
    namedEntries record entries = .ok named := by
  induction h with
  | nil => rfl
  | cons hfirst _ ih =>
    rw [namedEntries, hfirst.1, Attempt.ok_bind, hfirst.2, Attempt.ok_bind, ih]
    rfl

/-- **What holds of the mark, of scalars, and of a container if one level less deep it holds of its
parts, holds of every record.** -/
theorem recordedAt_rec {motive : Nat → Json → Prop} (cut : motive 0 tooDeep)
    (scalar : ∀ depth j, IsScalar j → motive (depth + 1) j)
    (row : ∀ depth items, (∀ j ∈ items, motive depth j) → motive (depth + 1) (.list items))
    (table : ∀ depth entries, (entries.map Prod.fst).Nodup → (∀ e ∈ entries, motive depth e.2) →
      motive (depth + 1) (.object entries))
    (h : recordedAt scopes depth p = .ok j) : motive depth j := by
  induction depth generalizing p j with
  | zero =>
    cases h
    exact cut
  | succ depth ih =>
    rw [recordedAt] at h
    split at h
    · cases h
      exact scalar depth _ (recordedLeaf_isScalar _)
    · next items _ =>
      cases hitems : items.mapM (recordedAt scopes depth) with
      | error f => rw [hitems] at h; cases h
      | ok made =>
        rw [hitems] at h
        cases h
        refine row depth made fun j hj => ?_
        obtain ⟨q, -, hq⟩ := Attempt.mapM_ok hitems j hj
        exact ih hq
    · next entries _ =>
      cases hnamed : namedEntries (recordedAt scopes depth) entries with
      | error f => rw [hnamed] at h; cases h
      | ok named =>
        rw [hnamed] at h
        cases h
        obtain ⟨hnodup, hmem⟩ := Entries.ofList_spec named
        refine table depth _ hnodup fun e he => ?_
        obtain ⟨q, hq⟩ := namedEntries_ok hnamed e (hmem e he)
        exact ih hq

/-! ## What a record leaves as it is -/

@[simp] theorem Place.layer_list (vs : List Value) (mark : Option Stamp) (around : List Value) :
    layer scopes ⟨.list vs mark, around⟩ = .row (vs.map (inner ⟨.list vs mark, around⟩)) :=
  rfl

@[simp] theorem Place.layer_dict (es : Fields) (mark : Option Stamp) (around : List Value) :
    layer scopes ⟨.dict es mark, around⟩ =
      .table (es.map fun e => (e.1, inner ⟨.dict es mark, around⟩ e.2)) :=
  rfl

/-- Scalars, of any place, are kept. -/
theorem recordedAt_scalar {v : Value} (h : IsJson (depth + 1) v j) (hj : IsScalar j)
    (around : List Value) : recordedAt scopes (depth + 1) ⟨v, around⟩ = .ok j := by
  cases j with
  | list | object => exact hj.elim
  | _ =>
    cases v <;> cases h
    rfl

/-- A list is kept if its items are, one level less deep. -/
theorem recordedAt_list {vs : List Value} {js : List Json} (h : List.Forall₂ (fun v j =>
      ∀ around, recordedAt scopes depth ⟨v, around⟩ = .ok j) vs js)
    (mark : Option Stamp) (around : List Value) :
    recordedAt scopes (depth + 1) ⟨.list vs mark, around⟩ = .ok (.list js) := by
  have hitems : (vs.map (Place.inner ⟨.list vs mark, around⟩)).mapM (recordedAt scopes depth) =
      .ok js :=
    Attempt.mapM_of_forall₂ (List.forall₂_map_left_iff.2 (h.imp fun _ _ hv => hv _))
  simp only [recordedAt, Place.layer_list, hitems]
  rfl

/-- An object is kept if its keys are distinct texts and its values are kept, one level less deep. -/
theorem recordedAt_dict {es : Fields} {js : List (String × Json)}
    (hnodup : (js.map Prod.fst).Nodup) (h : List.Forall₂ (fun e e' => e.1 = .text e'.1 ∧
      ∀ around, recordedAt scopes depth ⟨e.2, around⟩ = .ok e'.2) es js)
    (mark : Option Stamp) (around : List Value) :
    recordedAt scopes (depth + 1) ⟨.dict es mark, around⟩ = .ok (.object js) := by
  have hentries : namedEntries (recordedAt scopes depth)
      (es.map fun e => (e.1, Place.inner ⟨.dict es mark, around⟩ e.2)) = .ok js := by
    refine namedEntries_of_forall₂ (List.forall₂_map_left_iff.2 (h.imp fun e e' he => ?_))
    exact ⟨by rw [he.1]; rfl, he.2 _⟩
  simp only [recordedAt, Place.layer_dict, hentries]
  exact congrArg (fun es => Except.ok (Json.object es)) (Entries.ofList_of_nodup hnodup)

/-- **Of JSON that is not deeper than a record looks, everything is kept.** -/
theorem recordedAt_of_isJson {v : Value} (h : IsJson depth v j) (around : List Value) :
    recordedAt scopes depth ⟨v, around⟩ = .ok j := by
  induction depth generalizing v j around with
  | zero => exact h.elim
  | succ depth ih =>
    cases j with
    | list js =>
      cases v with
      | list vs mark => exact recordedAt_list (List.Forall₂.imp (fun _ _ hv => ih hv) h) mark around
      | _ => exact h.elim
    | object js =>
      cases v with
      | dict es mark =>
        exact recordedAt_dict h.1 (h.2.imp fun _ _ he => ⟨he.1, ih he.2⟩) mark around
      | _ => exact h.elim
    | _ => exact recordedAt_scalar h trivial around

theorem forall₂_toValues {r : Value → Json → Prop} {items : List Json}
    (h : ∀ j ∈ items, r j.toValue j) : List.Forall₂ r (Json.toValues items) items := by
  induction items with
  | nil => exact .nil
  | cons j js ih =>
    exact .cons (h j List.mem_cons_self) (ih fun j hj => h j (List.mem_cons_of_mem _ hj))

theorem forall₂_toFields {r : Value → Json → Prop} {entries : List (String × Json)}
    (h : ∀ e ∈ entries, r e.2.toValue e.2) :
    List.Forall₂ (fun e e' => e.1 = .text e'.1 ∧ r e.2 e'.2) (Json.toFields entries) entries := by
  induction entries with
  | nil => exact .nil
  | cons e rest ih =>
    exact .cons ⟨rfl, h e List.mem_cons_self⟩ (ih fun e he => h e (List.mem_cons_of_mem _ he))

/-- **A record is JSON that is at most one level deeper than it looks.** -/
theorem isJson_recordedAt (h : recordedAt scopes depth p = .ok j) :
    IsJson (depth + 1) j.toValue j :=
  recordedAt_rec (motive := fun depth j => IsJson (depth + 1) j.toValue j) rfl
    (fun depth _ hj => isJson_scalar hj (depth + 1)) (fun _ _ => forall₂_toValues)
    (fun _ _ hnodup hentries => ⟨hnodup, forall₂_toFields hentries⟩) h

/-- **The record of a record is that record**, wherever it is found. -/
theorem recordedAt_recordedAt (h : recordedAt scopes depth p = .ok j) (scopes' : Scopes) :
    ∀ around, recordedAt scopes' depth ⟨j.toValue, around⟩ = .ok j := by
  refine recordedAt_rec (motive := fun depth j =>
    ∀ around, recordedAt scopes' depth ⟨j.toValue, around⟩ = .ok j) (fun _ => rfl) ?_ ?_ ?_ h
  · exact fun depth j hj => recordedAt_scalar (isJson_scalar hj depth) hj
  · exact fun depth items hitems => recordedAt_list (forall₂_toValues hitems) none
  · exact fun depth entries hnodup hentries =>
      recordedAt_dict hnodup (forall₂_toFields (r := fun v j =>
        ∀ around, recordedAt scopes' depth ⟨v, around⟩ = .ok j) hentries) none

/-! ## Keys that can be shown -/

namespace Place

/-- The places right inside a place. -/
def parts (scopes : Scopes) (p : Place) : List Place :=
  match p.layer scopes with
  | .leaf _ => []
  | .row items => items
  | .table entries => entries.map Prod.snd

/-- The keys of the object that stands at a place. -/
def keys (scopes : Scopes) (p : Place) : List Key :=
  match p.layer scopes with
  | .table entries => entries.map Prod.fst
  | _ => []

/-- Whether some place lies, at any depth, in another. -/
def Within (scopes : Scopes) : Place → Place → Prop :=
  Relation.ReflTransGen fun p q => q ∈ p.parts scopes

/-- Whether every key that lies in a place, at any depth, can be shown. -/
def KeysShow (scopes : Scopes) (p : Place) : Prop :=
  ∀ q, Within scopes p q → ∀ k ∈ q.keys scopes, ∃ s, k.plain = .ok s

theorem KeysShow.part (h : p.KeysShow scopes) {q : Place} (hq : q ∈ p.parts scopes) :
    q.KeysShow scopes :=
  fun r hr => h r (.head hq hr)

/-- Keys that can be shown are found by a search: some places whose parts are among them, and whose
keys can be shown. -/
theorem keysShow_of_closed (places : List Place) (closed : ∀ q ∈ places,
      (∀ r ∈ q.parts scopes, r ∈ places) ∧ ∀ k ∈ q.keys scopes, ∃ s, k.plain = .ok s)
    (hp : p ∈ places) : p.KeysShow scopes := by
  intro q hq
  suffices hmem : q ∈ places from (closed q hmem).2
  induction hq with
  | refl => exact hp
  | tail _ hstep ih => exact (closed _ ih).1 _ hstep

end Place

theorem namedEntries_succeeds {α : Type} {record : α → Attempt Json} {entries : List (Key × α)}
    (h : ∀ e ∈ entries, (∃ s, e.1.plain = .ok s) ∧ ∃ j, record e.2 = .ok j) :
    ∃ named, namedEntries record entries = .ok named := by
  induction entries with
  | nil => exact ⟨[], rfl⟩
  | cons e rest ih =>
    obtain ⟨⟨name, hname⟩, j, hj⟩ := h e List.mem_cons_self
    obtain ⟨others, hothers⟩ := ih fun e he => h e (List.mem_cons_of_mem _ he)
    rw [namedEntries, hname, Attempt.ok_bind, hj, Attempt.ok_bind, hothers]
    exact ⟨_, rfl⟩

/-- **If all keys can be shown a record can be made.** -/
theorem recordedAt_succeeds (shown : p.KeysShow scopes) :
    ∃ j, recordedAt scopes depth p = .ok j := by
  induction depth generalizing p with
  | zero => exact ⟨_, rfl⟩
  | succ depth ih =>
    have hpart : ∀ q ∈ p.parts scopes, ∃ j, recordedAt scopes depth q = .ok j :=
      fun q hq => ih (shown.part hq)
    have hkeys := shown p .refl
    rw [recordedAt]
    unfold Place.parts at hpart
    unfold Place.keys at hkeys
    cases hlayer : p.layer scopes with
    | leaf v => exact ⟨_, rfl⟩
    | row items =>
      rw [hlayer] at hpart
      obtain ⟨made, hmade⟩ := Attempt.mapM_total hpart
      exact ⟨.list made, by simp only [hmade]; rfl⟩
    | table entries =>
      rw [hlayer] at hpart hkeys
      obtain ⟨named, hnamed⟩ := namedEntries_succeeds fun e he =>
        ⟨hkeys e.1 (List.mem_map_of_mem he), hpart e.2 (List.mem_map_of_mem he)⟩
      exact ⟨.object (Entries.ofList named), by simp only [hnamed]; rfl⟩

/-- **What a record keeps of a value**, however deep it looks: JSON that is at most one level deeper,
the value itself if it is JSON and not deeper, and no less and no more the second time. -/
theorem recordedTo_bounded (scopes : Scopes) (v : Value) (depth : Nat)
    (shown : Place.KeysShow scopes ⟨v, []⟩) :
    ∃ j, recordedTo scopes depth v = .ok j ∧ IsJson (depth + 1) j.toValue j ∧
      (∀ j', IsJson depth v j' → j = j') ∧
      ∀ scopes', recordedTo scopes' depth j.toValue = .ok j := by
  obtain ⟨j, hj⟩ : ∃ j, recordedTo scopes depth v = .ok j := recordedAt_succeeds shown
  refine ⟨j, hj, isJson_recordedAt hj, fun j' hj' => ?_, fun scopes' =>
    recordedAt_recordedAt hj scopes' []⟩
  exact Except.ok.inj (hj.symm.trans (recordedAt_of_isJson hj' []))

/-- A list that holds itself, the variables of the run, and an object with two keys of one name. -/
def selfContaining : Value :=
  .list [.enclosing .list 0, .live .vars,
    .dict [(.bool true, .ellipsis), (.text "True", .int 1), (.null, .enclosing .list 1)]]

/-- Variables that hold themselves. -/
def selfContainingScopes : Scopes := { vars := [(.text "self", .live .vars)] }

theorem selfContaining_keysShow : Place.KeysShow selfContainingScopes ⟨selfContaining, []⟩ := by
  let whole := selfContaining
  let last : Value :=
    .dict [(.bool true, .ellipsis), (.text "True", .int 1), (.null, .enclosing .list 1)]
  refine Place.keysShow_of_closed [⟨whole, []⟩, ⟨.enclosing .list 0, [whole]⟩,
    ⟨.live .vars, [whole]⟩, ⟨last, [whole]⟩, ⟨.live .vars, [.live .vars]⟩,
    ⟨.ellipsis, [last, whole]⟩, ⟨.int 1, [last, whole]⟩,
    ⟨.enclosing .list 1, [last, whole]⟩] ?_ List.mem_cons_self
  simp [Place.parts, Place.keys, Place.layer, Place.settle, Place.inner, selfContainingScopes,
    Scopes.table, whole, last, selfContaining, Key.plain, Key.literal]

/-- What a record keeps of it, looking two levels deep. -/
def selfContainingRecord : Json :=
  .list [.list [tooDeep, tooDeep, tooDeep], .object [("self", tooDeep)],
    .object [("True", tooDeep), ("None", tooDeep)]]

theorem recordedTo_bounded_selfContaining :
    Place.KeysShow selfContainingScopes ⟨selfContaining, []⟩ ∧
      recordedTo selfContainingScopes 2 selfContaining = .ok selfContainingRecord ∧
      IsJson 3 selfContainingRecord.toValue selfContainingRecord ∧
      recordedTo {} 2 selfContainingRecord.toValue = .ok selfContainingRecord := by
  obtain ⟨j, hj, hjson, -, hagain⟩ :=
    recordedTo_bounded selfContainingScopes selfContaining 2 selfContaining_keysShow
  obtain rfl : j = selfContainingRecord := (Except.ok.inj hj).symm
  exact ⟨selfContaining_keysShow, hj, hjson, hagain {}⟩

end Value

end WorkflowEngine
