import Mathlib.Data.List.Sort
import WorkflowEngine.Value.Sorting

/-!
# What a sort does

Sorting by a comparison that may fail rearranges the items (`sort_perm`). It succeeds if every two
items can be compared (`sort_succeeds`), and only if all of them are of one kind, whatever the kinds
are that the comparison keeps apart (`sort_kind`). By keys that are linearly ordered the items come
out in the order of their keys, and those with equal keys in the order in which they came
(`sort_ordered`), in falling order too (`sortIn_arranged`). Each is shown for one insertion, and of the
whole by induction on the items that are inserted. A comparison that has no keys but is a total
preorder on the items orders them by how many of them come before each (`sortIn_rising`).
-/

namespace WorkflowEngine.Sorting

variable {α : Type} {less : α → α → Attempt Bool} {x last : α} {xs ys run rest : List α}

/-! ## One insertion -/

/-- An item is put into an empty row, or it is compared with an item of the row and put into the part
before or behind that one. -/
theorem insertBinary_rec (less : α → α → Attempt Bool) (x : α) {motive : List α → Prop}
    (empty : insertBinary less x [] = .ok [x] → motive [])
    (split : ∀ xs front middle back, xs = front ++ middle :: back → motive front → motive back →
      (insertBinary less x xs = do
        if ← less x middle then
          let front ← insertBinary less x front
          pure (front ++ middle :: back)
        else
          let back ← insertBinary less x back
          pure (front ++ middle :: back)) →
      motive xs) (xs : List α) : motive xs := by
  induction xs using insertBinary.induct with
  | case1 xs hdrop =>
    have hlength : xs.length ≤ xs.length / 2 := List.drop_eq_nil_iff.1 hdrop
    obtain rfl : xs = [] := List.eq_nil_of_length_eq_zero (by omega)
    refine empty ?_
    rw [insertBinary]
    split
    · rfl
    · next hcons => simp at hcons
  | case2 xs middle right hdrop ihfront ihback =>
    have hxs : xs = xs.take (xs.length / 2) ++ middle :: right := by
      rw [← hdrop, List.take_append_drop]
    refine split xs _ middle right hxs ihfront ihback ?_
    conv_lhs => rw [insertBinary]
    split
    · next hnil => simp [hdrop] at hnil
    · next hcons =>
      obtain ⟨rfl, rfl⟩ := List.cons.inj (hdrop.symm.trans hcons)
      rfl

theorem insertBinary_perm (h : insertBinary less x xs = .ok ys) : ys.Perm (x :: xs) := by
  induction xs using insertBinary_rec less x generalizing ys with
  | empty hempty =>
    obtain rfl := Except.ok.inj (h.symm.trans hempty)
    exact .refl _
  | split xs front middle back hxs ihfront ihback hstep =>
    rw [hstep] at h
    obtain ⟨before, -, h⟩ := Attempt.bind_ok h
    rw [hxs]
    cases before with
    | true =>
      obtain ⟨front', hfront, h⟩ := Attempt.bind_ok h
      obtain rfl := Except.ok.inj h
      exact (ihfront hfront).append_right _
    | false =>
      obtain ⟨back', hback, h⟩ := Attempt.bind_ok h
      obtain rfl := Except.ok.inj h
      have hmiddle := @List.perm_middle _ x (front ++ [middle]) back
      rw [List.append_assoc, List.append_assoc] at hmiddle
      exact (((ihback hback).cons middle).append_left front).trans hmiddle

theorem insertBinary_succeeds (h : ∀ y ∈ xs, ∃ before, less x y = .ok before) :
    ∃ ys, insertBinary less x xs = .ok ys := by
  induction xs using insertBinary_rec less x with
  | empty hempty => exact ⟨_, hempty⟩
  | split xs front middle back hxs ihfront ihback hstep =>
    obtain ⟨before, hbefore⟩ := h middle (by simp [hxs])
    rw [hstep, hbefore]
    cases before with
    | true =>
      obtain ⟨front', hfront⟩ := ihfront fun y hy => h y (by simp [hxs, hy])
      exact ⟨front' ++ middle :: back, by rw [Attempt.ok_bind, if_pos rfl, hfront]; rfl⟩
    | false =>
      obtain ⟨back', hback⟩ := ihback fun y hy => h y (by simp [hxs, hy])
      exact ⟨front ++ middle :: back', by
        rw [Attempt.ok_bind, if_neg Bool.false_ne_true, hback]
        rfl⟩

/-- An item that is put into a row has met one of its items. -/
theorem insertBinary_meets (h : insertBinary less x xs = .ok ys) (hxs : xs ≠ []) :
    ∃ y ∈ xs, ∃ before, less x y = .ok before := by
  induction xs using insertBinary_rec less x with
  | empty => exact absurd rfl hxs
  | split xs front middle back hparts _ _ hstep =>
    rw [hstep] at h
    obtain ⟨before, hbefore, -⟩ := Attempt.bind_ok h
    exact ⟨middle, by simp [hparts], before, hbefore⟩

/-! ## The run in front -/

theorem runBehind_append {falling : Bool} (h : runBehind falling less last xs = .ok (run, rest)) :
    run ++ rest = xs := by
  induction xs generalizing last run with
  | nil => cases h; rfl
  | cons x xs ih =>
    obtain ⟨falls, -, h⟩ := Attempt.bind_ok h
    split at h
    · obtain ⟨⟨run', rest'⟩, hrun, h⟩ := Attempt.bind_ok h
      obtain ⟨rfl, rfl⟩ := Prod.mk.inj (Except.ok.inj h)
      exact congrArg (x :: ·) (ih hrun)
    · obtain ⟨rfl, rfl⟩ := Prod.mk.inj (Except.ok.inj h)
      rfl

/-- A row of at least two items begins with a run of at least two. -/
theorem firstRun_cons_cons {y : α} (h : firstRun less (x :: y :: xs) = .ok (run, rest)) :
    ∃ falling run', less y x = .ok falling ∧ runBehind falling less y xs = .ok (run', rest) ∧
      run = if falling then (x :: y :: run').reverse else x :: y :: run' := by
  obtain ⟨falling, hfalling, h⟩ := Attempt.bind_ok h
  obtain ⟨⟨run', rest'⟩, hrun, h⟩ := Attempt.bind_ok h
  obtain ⟨rfl, rfl⟩ := Prod.mk.inj (Except.ok.inj h)
  exact ⟨falling, run', hfalling, hrun, rfl⟩

theorem ite_reverse_perm (falling : Bool) (xs : List α) :
    (if falling then xs.reverse else xs).Perm xs := by
  cases falling with
  | true => exact List.reverse_perm xs
  | false => exact .refl xs

theorem firstRun_perm (h : firstRun less xs = .ok (run, rest)) : (run ++ rest).Perm xs := by
  match xs with
  | [] => cases h; rfl
  | [x] => cases h; rfl
  | x :: y :: xs =>
    obtain ⟨falling, run', -, hrun, rfl⟩ := firstRun_cons_cons h
    rw [← runBehind_append hrun]
    exact (ite_reverse_perm falling _).append_right rest

/-! ## The whole row -/

theorem foldlM_insertBinary_perm
    (h : rest.foldlM (fun sorted x => insertBinary less x sorted) run = .ok ys) :
    ys.Perm (run ++ rest) := by
  induction rest generalizing run with
  | nil =>
    obtain rfl := Except.ok.inj h
    simp
  | cons x rest ih =>
    rw [List.foldlM_cons] at h
    obtain ⟨run', hrun, h⟩ := Attempt.bind_ok h
    exact (ih h).trans (((insertBinary_perm hrun).append_right rest).trans List.perm_middle.symm)

/-- **A sort rearranges the items.** -/
theorem sort_perm (h : sort less xs = .ok ys) : ys.Perm xs := by
  obtain ⟨⟨run, rest⟩, hrun, h⟩ := Attempt.bind_ok h
  exact (foldlM_insertBinary_perm h).trans (firstRun_perm hrun)

section Succeeds

variable (comparable : ∀ a ∈ xs, ∀ b ∈ xs, ∃ before, less a b = .ok before)
include comparable

theorem runBehind_succeeds (falling : Bool) (hlast : last ∈ xs) (hys : ys ⊆ xs) :
    ∃ runs, runBehind falling less last ys = .ok runs := by
  induction ys generalizing last with
  | nil => exact ⟨_, rfl⟩
  | cons y ys ih =>
    have hy := hys List.mem_cons_self
    obtain ⟨falls, hfalls⟩ := comparable y hy last hlast
    obtain ⟨runs, hruns⟩ := ih hy fun z hz => hys (List.mem_cons_of_mem _ hz)
    rw [runBehind, hfalls, Attempt.ok_bind, hruns]
    split
    · exact ⟨_, rfl⟩
    · exact ⟨_, rfl⟩

theorem firstRun_succeeds : ∃ runs, firstRun less xs = .ok runs := by
  match xs with
  | [] => exact ⟨_, rfl⟩
  | [x] => exact ⟨_, rfl⟩
  | x :: y :: rest =>
    have hrest : rest ⊆ x :: y :: rest := fun z hz => by simp [hz]
    obtain ⟨falling, hfalling⟩ := comparable y (by simp) x (by simp)
    obtain ⟨runs, hruns⟩ :=
      runBehind_succeeds comparable falling (show y ∈ x :: y :: rest by simp) hrest
    rw [firstRun, hfalling, Attempt.ok_bind, hruns]
    exact ⟨_, rfl⟩

theorem foldlM_insertBinary_succeeds (hrun : run ⊆ xs) (hrest : rest ⊆ xs) :
    ∃ ys, rest.foldlM (fun sorted x => insertBinary less x sorted) run = .ok ys := by
  induction rest generalizing run with
  | nil => exact ⟨_, rfl⟩
  | cons x rest ih =>
    have hx := hrest List.mem_cons_self
    obtain ⟨run', hinserted⟩ := insertBinary_succeeds fun y hy => comparable x hx y (hrun hy)
    have hrun' : run' ⊆ xs := by
      intro y hy
      rcases List.mem_cons.1 ((insertBinary_perm hinserted).subset hy) with rfl | hy
      · exact hx
      · exact hrun hy
    rw [List.foldlM_cons, hinserted]
    exact ih hrun' fun y hy => hrest (List.mem_cons_of_mem _ hy)

/-- **A sort succeeds if every two items can be compared.** -/
theorem sort_succeeds : ∃ ys, sort less xs = .ok ys := by
  obtain ⟨⟨run, rest⟩, hrun⟩ := firstRun_succeeds comparable
  have hsubset := (firstRun_perm hrun).subset
  rw [sort, hrun]
  exact foldlM_insertBinary_succeeds comparable (fun x hx => hsubset (List.mem_append_left _ hx))
    fun x hx => hsubset (List.mem_append_right _ hx)

end Succeeds

/-! ## Kinds that are kept apart -/

section Kind

variable {κ : Type} {kind : α → κ}
variable (apart : ∀ a b before, less a b = .ok before → kind a = kind b)
include apart

theorem runBehind_kind {falling : Bool} (h : runBehind falling less last xs = .ok (run, rest)) :
    ∀ y ∈ run, kind y = kind last := by
  induction xs generalizing last run with
  | nil => cases h; simp
  | cons x xs ih =>
    obtain ⟨falls, hfalls, h⟩ := Attempt.bind_ok h
    split at h
    · obtain ⟨⟨run', rest'⟩, hrun, h⟩ := Attempt.bind_ok h
      obtain ⟨rfl, rfl⟩ := Prod.mk.inj (Except.ok.inj h)
      have hx := apart x last falls hfalls
      intro y hy
      rcases List.mem_cons.1 hy with rfl | hy
      · exact hx
      · exact (ih hrun y hy).trans hx
    · obtain ⟨rfl, rfl⟩ := Prod.mk.inj (Except.ok.inj h)
      simp

/-- The run in front of a row of at least two items is of the kind of the first. -/
theorem firstRun_kind {y : α} (h : firstRun less (x :: y :: xs) = .ok (run, rest)) :
    run ≠ [] ∧ ∀ z ∈ run, kind z = kind x := by
  obtain ⟨falling, run', hfalling, hrun, rfl⟩ := firstRun_cons_cons h
  have hyx := apart y x falling hfalling
  have hperm := ite_reverse_perm falling (x :: y :: run')
  refine ⟨fun hnil => List.cons_ne_nil _ _ (hnil ▸ hperm).nil_eq.symm, fun z hz => ?_⟩
  have hz := hperm.subset hz
  simp only [List.mem_cons] at hz
  rcases hz with rfl | rfl | hz
  · rfl
  · exact hyx
  · exact (runBehind_kind apart hrun z hz).trans hyx

theorem foldlM_insertBinary_kind {k : κ} (hrun : run ≠ [] ∧ ∀ z ∈ run, kind z = k)
    (h : rest.foldlM (fun sorted x => insertBinary less x sorted) run = .ok ys) :
    ∀ z ∈ rest, kind z = k := by
  induction rest generalizing run with
  | nil => simp
  | cons x rest ih =>
    rw [List.foldlM_cons] at h
    obtain ⟨run', hinserted, h⟩ := Attempt.bind_ok h
    obtain ⟨y, hy, before, hbefore⟩ := insertBinary_meets hinserted hrun.1
    have hx : kind x = k := (apart x y before hbefore).trans (hrun.2 y hy)
    have hperm := insertBinary_perm hinserted
    have hrun' : run' ≠ [] ∧ ∀ z ∈ run', kind z = k := by
      refine ⟨fun hnil => by simp [hnil] at hperm, fun z hz => ?_⟩
      rcases List.mem_cons.1 (hperm.subset hz) with rfl | hz
      · exact hx
      · exact hrun.2 z hz
    intro z hz
    rcases List.mem_cons.1 hz with rfl | hz
    · exact hx
    · exact ih hrun' h z hz

/-- **A sort of at least two items compares the first two, and succeeds only if all items are of one
kind.** -/
theorem sort_kind {y : α} (h : sort less (x :: y :: xs) = .ok ys) :
    (∃ before, less y x = .ok before) ∧ ∀ z ∈ x :: y :: xs, kind z = kind x := by
  obtain ⟨⟨run, rest⟩, hrun, h⟩ := Attempt.bind_ok h
  obtain ⟨before, hbefore, -⟩ := Attempt.bind_ok hrun
  refine ⟨⟨before, hbefore⟩, fun z hz => ?_⟩
  have hfirst := firstRun_kind apart hrun
  rcases List.mem_append.1 ((firstRun_perm hrun).symm.subset hz) with hz | hz
  · exact hfirst.2 z hz
  · exact foldlM_insertBinary_kind apart hfirst h z hz

end Kind

/-! ## Keys that are linearly ordered -/

/-- The second row holds the items of the first in the order of their keys, and those with equal keys
as they came. -/
structure Ordered {β : Type} [LinearOrder β] (key : α → β) (xs ys : List α) : Prop where
  perm : ys.Perm xs
  rising : ys.Pairwise fun a b => key a ≤ key b
  stable : ∀ k, ys.filter (key · = k) = xs.filter (key · = k)

section Ordered

variable {β : Type} [LinearOrder β] {key : α → β}

/-- An item is put behind the items that do not come after it. -/
theorem insertBinary_ordered
    (hless : ∀ y ∈ ys, less x y = .ok (decide (key x < key y)))
    (rising : ys.Pairwise fun a b => key a ≤ key b) :
    insertBinary less x ys =
      .ok (ys.filter (key · ≤ key x) ++ x :: ys.filter (key x < key ·)) := by
  induction ys using insertBinary_rec less x with
  | empty hempty => exact hempty
  | split ys front middle back hys ihfront ihback hstep =>
    subst hys
    obtain ⟨hfront, hback, hacross⟩ := List.pairwise_append.1 rising
    have hbefore : ∀ y ∈ front, key y ≤ key middle := fun y hy => hacross y hy middle (by simp)
    have hbehind := (List.pairwise_cons.1 hback).1
    rw [hstep, hless middle (by simp), Attempt.ok_bind]
    by_cases hlt : key x < key middle
    · have hall : ∀ y ∈ middle :: back, key x < key y := by
        intro y hy
        rcases List.mem_cons.1 hy with rfl | hy
        · exact hlt
        · exact hlt.trans_le (hbehind y hy)
      have hkept : (middle :: back).filter (key x < key ·) = middle :: back :=
        List.filter_eq_self.2 fun y hy => decide_eq_true (hall y hy)
      have hleft : (middle :: back).filter (key · ≤ key x) = [] :=
        List.filter_eq_nil_iff.2 fun y hy => by simpa using hall y hy
      rw [if_pos (decide_eq_true hlt),
        ihfront (fun y hy => hless y (by simp [hy])) hfront, Attempt.ok_bind, List.filter_append,
        List.filter_append, hkept, hleft]
      simp [pure, Except.pure]
    · have hall : ∀ y ∈ front ++ [middle], key y ≤ key x := by
        intro y hy
        have hle : key y ≤ key middle := by
          rcases List.mem_append.1 hy with hy | hy
          · exact hbefore y hy
          · exact le_of_eq (congrArg key (List.mem_singleton.1 hy))
        exact hle.trans (not_lt.1 hlt)
      have hkept : (front ++ [middle]).filter (key · ≤ key x) = front ++ [middle] :=
        List.filter_eq_self.2 fun y hy => decide_eq_true (hall y hy)
      have hleft : (front ++ [middle]).filter (key x < key ·) = [] :=
        List.filter_eq_nil_iff.2 fun y hy => by simpa using hall y hy
      rw [if_neg (by simpa using hlt),
        ihback (fun y hy => hless y (by simp [hy])) (List.pairwise_cons.1 hback).2,
        Attempt.ok_bind, List.append_cons front middle back, List.filter_append (front ++ [middle]),
        List.filter_append (front ++ [middle]), hkept, hleft]
      simp [pure, Except.pure]

/-- Of the items on one side of a key, those with a key are all or none of those with it. -/
theorem filter_side {p : α → Bool} {q : β → Prop} [DecidablePred q] (hp : ∀ y, p y = decide (q (key y)))
    (k : β) : (ys.filter p).filter (key · = k) = if q k then ys.filter (key · = k) else [] := by
  rw [List.filter_filter]
  split
  · next hk =>
    refine List.filter_congr fun y _ => ?_
    by_cases hy : key y = k
    · simp [hp, hy, hk]
    · simp [hy]
  · next hk =>
    refine List.filter_eq_nil_iff.2 fun y _ => ?_
    by_cases hy : key y = k
    · simp [hp, hy, hk]
    · simp [hy]

/-- To put an item into an ordered row keeps the order. -/
theorem Ordered.insert (h : Ordered key xs ys)
    (hless : ∀ y ∈ xs, less x y = .ok (decide (key x < key y))) :
    ∃ zs, insertBinary less x ys = .ok zs ∧ Ordered key (xs ++ [x]) zs := by
  have hinserted := insertBinary_ordered (fun y hy => hless y (h.perm.subset hy)) h.rising
  refine ⟨_, hinserted, ?_, ?_, fun k => ?_⟩
  · exact (insertBinary_perm hinserted).trans
      ((h.perm.cons x).trans (List.perm_append_singleton x xs).symm)
  · have hfront := h.rising.sublist (List.filter_sublist (p := (key · ≤ key x)))
    have hback := h.rising.sublist (List.filter_sublist (p := (key x < key ·)))
    refine List.pairwise_append.2 ⟨hfront, List.pairwise_cons.2 ⟨fun y hy => ?_, hback⟩, ?_⟩
    · exact (of_decide_eq_true (List.mem_filter.1 hy).2).le
    · intro a ha b hb
      have ha : key a ≤ key x := of_decide_eq_true (List.mem_filter.1 ha).2
      rcases List.mem_cons.1 hb with rfl | hb
      · exact ha
      · exact ha.trans (of_decide_eq_true (List.mem_filter.1 hb).2).le
  · rw [List.filter_append, List.filter_cons, filter_side (q := (· ≤ key x)) (fun _ => rfl),
      filter_side (q := (key x < ·)) (fun _ => rfl), h.stable k, List.filter_append,
      List.filter_cons, List.filter_nil]
    rcases lt_trichotomy (key x) k with hk | hk | hk
    · simp [hk.not_ge, hk, hk.ne]
    · simp [hk]
    · simp [hk.le, hk.not_gt, hk.ne']

theorem foldlM_insertBinary_ordered (h : Ordered key xs run)
    (hless : ∀ a ∈ xs ++ rest, ∀ b ∈ xs ++ rest, less a b = .ok (decide (key a < key b))) :
    ∃ ys, rest.foldlM (fun sorted x => insertBinary less x sorted) run = .ok ys ∧
      Ordered key (xs ++ rest) ys := by
  induction rest generalizing xs run with
  | nil => exact ⟨run, rfl, by rwa [List.append_nil]⟩
  | cons x rest ih =>
    have hx : ∀ y ∈ xs, less x y = .ok (decide (key x < key y)) := fun y hy =>
      hless x (by simp) y (by simp [hy])
    obtain ⟨run', hinserted, hrun'⟩ := h.insert hx
    rw [List.foldlM_cons, hinserted, Attempt.ok_bind, List.append_cons]
    rw [List.append_cons] at hless
    exact ih hrun' hless

/-- The items behind another that are taken into a run fall, or do not fall, one behind the other. -/
theorem runBehind_chain {falling : Bool}
    (hless : ∀ a ∈ last :: xs, ∀ b ∈ last :: xs, less a b = .ok (decide (key a < key b)))
    (h : runBehind falling less last xs = .ok (run, rest)) :
    (last :: run).IsChain fun a b => decide (key b < key a) = falling := by
  induction xs generalizing last run with
  | nil => cases h; simp
  | cons x xs ih =>
    rw [runBehind, hless x (by simp) last (by simp), Attempt.ok_bind] at h
    split at h
    · next hfalls =>
      obtain ⟨⟨run', rest'⟩, hrun, h⟩ := Attempt.bind_ok h
      obtain ⟨rfl, rfl⟩ := Prod.mk.inj (Except.ok.inj h)
      refine List.isChain_cons_cons.2 ⟨eq_of_beq hfalls, ih (fun a ha b hb => ?_) hrun⟩
      exact hless a (List.mem_cons_of_mem _ ha) b (List.mem_cons_of_mem _ hb)
    · obtain ⟨rfl, rfl⟩ := Prod.mk.inj (Except.ok.inj h)
      simp

/-- A row that does not fall is in order as it is. -/
theorem Ordered.of_rising (h : xs.IsChain fun a b => key a ≤ key b) : Ordered key xs xs := by
  have : IsTrans α fun a b => key a ≤ key b := ⟨fun _ _ _ => le_trans⟩
  exact ⟨.refl _, List.isChain_iff_pairwise.1 h, fun _ => rfl⟩

/-- A row that falls is in order when it is turned round: no two of its items have the same key. -/
theorem Ordered.of_falling (h : xs.IsChain fun a b => key b < key a) :
    Ordered key xs xs.reverse := by
  have : IsTrans α fun a b => key b < key a := ⟨fun _ _ _ hab hbc => hbc.trans hab⟩
  have hfalls := List.isChain_iff_pairwise.1 h
  refine ⟨List.reverse_perm xs, List.pairwise_reverse.2 (hfalls.imp le_of_lt), fun k => ?_⟩
  have hone : (xs.filter (key · = k)).length ≤ 1 := by
    have hsub := hfalls.sublist (List.filter_sublist (p := (key · = k)))
    have hkey : ∀ y ∈ xs.filter (key · = k), key y = k :=
      fun y hy => of_decide_eq_true (List.mem_filter.1 hy).2
    match xs.filter (key · = k), hsub, hkey with
    | [], _, _ => simp
    | [a], _, _ => simp
    | a :: b :: _, hsub, hkey =>
      have hba := List.rel_of_pairwise_cons hsub List.mem_cons_self
      rw [hkey a (by simp), hkey b (by simp)] at hba
      exact absurd hba (lt_irrefl k)
  rw [List.filter_reverse]
  match xs.filter (key · = k), hone with
  | [], _ => rfl
  | [a], _ => rfl

theorem firstRun_ordered
    (hless : ∀ a ∈ xs, ∀ b ∈ xs, less a b = .ok (decide (key a < key b))) :
    ∃ run rest front, firstRun less xs = .ok (run, rest) ∧ xs = front ++ rest ∧
      Ordered key front run := by
  match xs with
  | [] => exact ⟨[], [], [], rfl, rfl, .of_rising .nil⟩
  | [x] => exact ⟨[x], [], [x], rfl, rfl, .of_rising (.singleton x)⟩
  | x :: y :: xs =>
    have hyx := hless y (by simp) x (by simp)
    obtain ⟨⟨run, rest⟩, hrun⟩ := firstRun_succeeds fun a ha b hb => ⟨_, hless a ha b hb⟩
    obtain ⟨falling, run', hfalling, hbehind, rfl⟩ := firstRun_cons_cons hrun
    obtain rfl := Except.ok.inj (hyx.symm.trans hfalling)
    refine ⟨_, rest, x :: y :: run', hrun, ?_, ?_⟩
    · rw [← runBehind_append hbehind]
      rfl
    have hchain : (x :: y :: run').IsChain fun a b =>
        decide (key b < key a) = decide (key y < key x) :=
      List.isChain_cons_cons.2 ⟨rfl, runBehind_chain (fun a ha b hb =>
        hless a (List.mem_cons_of_mem _ ha) b (List.mem_cons_of_mem _ hb)) hbehind⟩
    by_cases hlt : key y < key x
    · rw [if_pos (decide_eq_true hlt)]
      exact .of_falling (hchain.imp fun a b hab => of_decide_eq_true (hab.trans (decide_eq_true hlt)))
    · rw [if_neg (by simpa using hlt)]
      exact .of_rising (hchain.imp fun a b hab =>
        not_lt.1 (of_decide_eq_false (hab.trans (decide_eq_false hlt))))

/-- **By keys that are linearly ordered a sort puts the items in order.** -/
theorem sort_ordered (hless : ∀ a ∈ xs, ∀ b ∈ xs, less a b = .ok (decide (key a < key b))) :
    ∃ ys, sort less xs = .ok ys ∧ Ordered key xs ys := by
  obtain ⟨run, rest, front, hrun, rfl, hordered⟩ := firstRun_ordered hless
  rw [sort, hrun, Attempt.ok_bind]
  exact foldlM_insertBinary_ordered hordered hless

end Ordered

/-! ## Both directions -/

/-- To sort into falling order is to sort the row from its end. -/
theorem sortIn_falling : sortIn true less xs = .ok ys ↔ sort less xs.reverse = .ok ys.reverse := by
  rw [sortIn, if_pos rfl]
  cases sort less xs.reverse with
  | error f => exact ⟨nofun, nofun⟩
  | ok zs =>
    constructor
    · intro h
      rw [← Except.ok.inj h, List.reverse_reverse]
    · intro h
      rw [Except.ok.inj h]
      exact congrArg Except.ok (List.reverse_reverse ys)

section Arranged

variable {β γ : Type} [LinearOrder β] {descending : Bool} {key : α → β}

/-- The second row holds the items of the first in the rising or falling order of their keys, and in
both directions those with equal keys as they came. -/
structure Arranged (descending : Bool) (key : α → β) (xs ys : List α) : Prop where
  perm : ys.Perm xs
  ordered : ys.Pairwise fun a b => if descending then key b ≤ key a else key a ≤ key b
  stable : ∀ k, ys.filter (key · = k) = xs.filter (key · = k)

/-- A row that is in order from its end is in falling order. -/
theorem Ordered.arranged_reverse (h : Ordered key xs.reverse ys) :
    Arranged true key xs ys.reverse where
  perm := (List.reverse_perm ys).trans (h.perm.trans (List.reverse_perm xs))
  ordered := List.pairwise_reverse.2 h.rising
  stable k := by
    have hstable := congrArg List.reverse (h.stable k)
    rwa [← List.filter_reverse, ← List.filter_reverse, List.reverse_reverse] at hstable

/-- What the keys are read off can be put in the place of the items. -/
theorem Arranged.map {f : α → γ} {key : γ → β} (h : Arranged descending (fun x => key (f x)) xs ys) :
    Arranged descending key (xs.map f) (ys.map f) where
  perm := h.perm.map f
  ordered := List.pairwise_map.2 h.ordered
  stable k := by
    rw [List.filter_map, List.filter_map]
    exact congrArg (List.map f) (h.stable k)

/-- **In either direction a sort keeps items with equal keys as they came.** -/
theorem sortIn_arranged (descending : Bool)
    (hless : ∀ a ∈ xs, ∀ b ∈ xs, less a b = .ok (decide (key a < key b))) :
    ∃ ys, sortIn descending less xs = .ok ys ∧ Arranged descending key xs ys := by
  cases descending with
  | false =>
    obtain ⟨ys, hsort, hordered⟩ := sort_ordered hless
    exact ⟨ys, hsort, hordered.perm, hordered.rising, hordered.stable⟩
  | true =>
    have hreverse : ∀ a ∈ xs.reverse, ∀ b ∈ xs.reverse, less a b = .ok (decide (key a < key b)) :=
      fun a ha b hb => hless a (List.mem_reverse.1 ha) b (List.mem_reverse.1 hb)
    obtain ⟨ys, hsort, hordered⟩ := sort_ordered hreverse
    refine ⟨ys.reverse, sortIn_falling.2 ?_, hordered.arranged_reverse⟩
    rw [hsort, List.reverse_reverse]

end Arranged

/-! ## Comparisons that are total preorders -/

section Preordered

variable {before : α → α → Bool} {a b : α}

/-- On some items a comparison is a total preorder: of two at most one comes before the other, and
not to come after is transitive. -/
structure Preorders (before : α → α → Bool) (xs : List α) : Prop where
  asymm : ∀ a ∈ xs, ∀ b ∈ xs, before a b → ¬ before b a
  trans : ∀ a ∈ xs, ∀ b ∈ xs, ∀ c ∈ xs, ¬ before b a → ¬ before c b → ¬ before c a

/-- How many of some items come before an item. -/
def placeAmong (before : α → α → Bool) (xs : List α) (x : α) : Nat := xs.countP (before · x)

/-- What comes before an item comes before those that do not come before the item. -/
theorem Preorders.before_of_not (h : Preorders before xs) (ha : a ∈ xs) (hb : b ∈ xs)
    (hab : ¬ before a b) : ∀ x ∈ xs, before x b → before x a := by
  intro x hx hxb
  by_contra hxa
  exact h.trans b hb a ha x hx hab hxa hxb

/-- **A comparison that is a total preorder compares the places.** -/
theorem Preorders.placeAmong_lt_iff (h : Preorders before xs) (ha : a ∈ xs) (hb : b ∈ xs) :
    placeAmong before xs a < placeAmong before xs b ↔ before a b := by
  constructor
  · intro hlt
    by_contra hab
    exact absurd (List.countP_mono_left (h.before_of_not ha hb hab)) (Nat.not_le.2 hlt)
  · intro hab
    have hle := h.before_of_not hb ha (h.asymm a ha b hb hab)
    have hself : ¬ before a a := fun haa => h.asymm a ha a ha haa haa
    -- The item itself comes before the other and not before itself, the items around it count alike.
    obtain ⟨front, back, rfl⟩ := List.append_of_mem ha
    have hfront : front.countP (before · a) ≤ front.countP (before · b) :=
      List.countP_mono_left fun x hx => hle x (by simp [hx])
    have hback : back.countP (before · a) ≤ back.countP (before · b) :=
      List.countP_mono_left fun x hx => hle x (by simp [hx])
    simp only [placeAmong, List.countP_append, List.countP_cons, if_pos hab, if_neg hself]
    omega

/-- **By a total preorder a sort puts the items in order**, whatever their order was. -/
theorem sortIn_rising (h : Preorders before xs)
    (hless : ∀ a ∈ xs, ∀ b ∈ xs, less a b = .ok (before a b)) :
    ∃ ys, sortIn false less xs = .ok ys ∧ ys.Perm xs ∧ ys.Pairwise fun a b => ¬ before b a := by
  have hplaces : ∀ a ∈ xs, ∀ b ∈ xs,
      less a b = .ok (decide (placeAmong before xs a < placeAmong before xs b)) := by
    intro a ha b hb
    rw [hless a ha b hb]
    exact congrArg Except.ok
      (Bool.eq_iff_iff.2 ((h.placeAmong_lt_iff ha hb).symm.trans decide_eq_true_iff.symm))
  obtain ⟨ys, hsort, harranged⟩ := sortIn_arranged false hplaces
  refine ⟨ys, hsort, harranged.perm, harranged.ordered.imp_of_mem fun {a b} ha hb hab => ?_⟩
  have hmem := harranged.perm.subset
  exact fun hba => absurd ((h.placeAmong_lt_iff (hmem hb) (hmem ha)).2 hba) (Nat.not_lt.2 hab)

end Preordered

end WorkflowEngine.Sorting
