import WorkflowEngine.Proofs.Node.Sorting

/-!
# Keys of several sorts

Two integers compare by their size, and where a truth value or a text takes part the texts of both
keys are compared. So the comparison of two such keys is the opposite of that the other way round
(`compareKeys_swap`), but it need not be transitive. It is a total preorder exactly if no integer is
too long to be written where a text is needed, and no truth value or text lies between two integers
that stand the other way round as texts (`preordered_iff`). A list with such keys a sorting node puts
in order, whatever its order was (`execute_sorts_mixed`); another one it may leave as it is
(`crossedKeys_unordered`).
-/

namespace WorkflowEngine.Node

open Number

variable {node : Node} {scopes : Scopes} {field u v w x : Value} {keys items : List Value}

/-! ## Keys that mix -/

/-- The keys that are integers, truth values or texts. -/
inductive Simple : Value → Prop where
  | int (n : Int) (mark : Option Stamp) : Simple (.int n mark)
  | bool (b : Bool) : Simple (.bool b)
  | text (s : String) (mark : Option Stamp) : Simple (.text s mark)

/-- The text that a simple key is compared by. -/
def shown : Value → String
  | .int n _ => intText n
  | .bool b => if b then "true" else "false"
  | .text s _ => s
  | _ => ""

/-- Whether a key is an integer. -/
def isInteger (v : Value) : Bool := v.integer?.isSome

/-- Whether a key has a text: all have but integers that are too long. -/
def isShort : Value → Bool
  | .int n _ => n.natAbs < longIntegerBound
  | _ => true

/-- Whether two keys can be compared: by their sizes or by their texts. -/
def areComparable (v w : Value) : Bool := isInteger v && isInteger w || isShort v && isShort w

/-- The order of two simple keys. -/
def orderOf (v w : Value) : Ordering :=
  match v.integer?, w.integer? with
  | some m, some n => compare m n
  | _, _ => compare (shown v) (shown w)

theorem toText_simple (h : Simple v) :
    v.toText scopes = if isShort v then .ok (shown v) else .fault .malformed := by
  cases h with
  | int n mark =>
    show integerText n = _
    rw [integerText]
    by_cases hlong : longIntegerBound ≤ n.natAbs
    · simp [hlong, isShort]
    · simp [hlong, isShort, shown, Nat.lt_of_not_le hlong]
  | bool b => rfl
  | text s mark => rfl

theorem compareKeys_simple (hv : Simple v) (hw : Simple w) :
    compareKeys scopes v w =
      if areComparable v w then .ok (orderOf v w) else .fault .malformed := by
  have htexts : (do
      let s ← v.toText scopes
      let t ← w.toText scopes
      pure (compare s t) : Attempt Ordering) =
        if isShort v && isShort w then .ok (compare (shown v) (shown w)) else .fault .malformed := by
    rw [toText_simple hv, toText_simple hw]
    cases isShort v <;> cases isShort w <;> rfl
  cases hv <;> cases hw
  case int.int => rfl
  all_goals
    simp only [areComparable, isInteger, Value.integer?, Option.isSome_some, Option.isSome_none,
      Bool.and_false, Bool.false_and, Bool.false_or]
    exact htexts

theorem areComparable_symm (v w : Value) : areComparable w v = areComparable v w := by
  rw [areComparable, areComparable, Bool.and_comm, Bool.and_comm (isShort w)]

theorem orderOf_swap (v w : Value) : orderOf w v = (orderOf v w).swap := by
  have hints : ∀ m n : Int, compare n m = (compare m n).swap := fun _ _ =>
    Std.OrientedCmp.eq_swap
  have htexts : compare (shown w) (shown v) = (compare (shown v) (shown w)).swap :=
    Std.OrientedCmp.eq_swap
  unfold orderOf
  cases v.integer? <;> cases w.integer? <;> first | exact htexts | exact hints _ _

/-- **The comparison of two simple keys is the opposite of that the other way round**, and fails if
that fails. -/
theorem compareKeys_swap (hv : Simple v) (hw : Simple w) :
    compareKeys scopes w v = (compareKeys scopes v w).map Ordering.swap := by
  rw [compareKeys_simple hv hw, compareKeys_simple hw hv, areComparable_symm, orderOf_swap]
  cases areComparable v w <;> rfl

/-! ## When the order is transitive -/

/-- The first key is compared with the second and does not come after it. -/
def NotAfter (scopes : Scopes) (v w : Value) : Prop :=
  ∃ o, compareKeys scopes v w = .ok o ∧ o ≠ .gt

/-- On some keys the comparison is a total preorder: any two can be compared, with opposite answers
in the two directions, and not to come after is transitive. -/
structure Preordered (scopes : Scopes) (keys : List Value) : Prop where
  compares : ∀ v ∈ keys, ∀ w ∈ keys,
    ∃ o, compareKeys scopes v w = .ok o ∧ compareKeys scopes w v = .ok o.swap
  trans : ∀ u ∈ keys, ∀ v ∈ keys, ∀ w ∈ keys,
    NotAfter scopes u v → NotAfter scopes v w → NotAfter scopes u w

/-- All keys are integers, or none is an integer that is too long to be written. -/
def Manageable (keys : List Value) : Prop :=
  (∀ v ∈ keys, isInteger v = true) ∨ ∀ v ∈ keys, isShort v = true

/-- Of two integers the first is the smaller one, but as texts they stand the other way round, and a
key that is no integer lies between them. -/
def crosses (v w x : Value) : Bool :=
  match v.integer?, w.integer?, x.integer? with
  | some m, some n, none => m < n && shown w ≤ shown x && shown x ≤ shown v
  | _, _, _ => false

/-- Some of the keys cross. -/
def Crossed (keys : List Value) : Prop := ∃ v ∈ keys, ∃ w ∈ keys, ∃ x ∈ keys, crosses v w x = true

theorem crosses_iff : crosses v w x = true ↔ ∃ m n, v.integer? = some m ∧ w.integer? = some n ∧
    x.integer? = none ∧ m < n ∧ shown w ≤ shown x ∧ shown x ≤ shown v := by
  unfold crosses
  cases v.integer? <;> cases w.integer? <;> cases x.integer? <;> simp [and_assoc]

theorem shown_of_integer? {n : Int} (h : v.integer? = some n) : shown v = intText n := by
  obtain ⟨n, mark, rfl⟩ := eq_int_of_integer? (Option.isSome_of_mem h)
  obtain rfl := Option.some.inj h
  rfl

theorem orderOf_ne_gt_integers {m n : Int} (hv : v.integer? = some m) (hw : w.integer? = some n) :
    orderOf v w ≠ .gt ↔ m ≤ n := by
  rw [orderOf, hv, hw]
  exact compare_le_iff_le

/-- Where one of two keys is no integer they are compared by their texts. -/
theorem orderOf_ne_gt_texts (h : v.integer? = none ∨ w.integer? = none) :
    orderOf v w ≠ .gt ↔ shown v ≤ shown w := by
  have htexts : orderOf v w = compare (shown v) (shown w) := by
    unfold orderOf
    rcases h with h | h
    · rw [h]
    · rw [h]
      cases v.integer? <;> rfl
  rw [htexts]
  exact compare_le_iff_le

/-- Keys of which no two are integers are ordered transitively, as their texts are. -/
theorem orderOf_trans_texts (hkuv : u.integer? = none ∨ v.integer? = none)
    (hkvw : v.integer? = none ∨ w.integer? = none) (hkuw : u.integer? = none ∨ w.integer? = none)
    (huv : orderOf u v ≠ .gt) (hvw : orderOf v w ≠ .gt) : orderOf u w ≠ .gt := by
  rw [orderOf_ne_gt_texts hkuv] at huv
  rw [orderOf_ne_gt_texts hkvw] at hvw
  rw [orderOf_ne_gt_texts hkuw]
  exact huv.trans hvw

/-- **Keys that do not cross are ordered transitively.** Only two integers and a third key can fail
to be: all other triples are compared by sizes alone or by texts alone. -/
theorem orderOf_trans (h : ¬ Crossed keys) (hu : u ∈ keys) (hv : v ∈ keys) (hw : w ∈ keys)
    (huv : orderOf u v ≠ .gt) (hvw : orderOf v w ≠ .gt) : orderOf u w ≠ .gt := by
  have huncrossed : ∀ a ∈ keys, ∀ b ∈ keys, ∀ c ∈ keys, ∀ m n, a.integer? = some m →
      b.integer? = some n → c.integer? = none → m < n → shown b ≤ shown c → ¬ shown c ≤ shown a :=
    fun a ha b hb c hc m n hm hn hnone hlt hbc hca =>
      h ⟨a, ha, b, hb, c, hc, crosses_iff.2 ⟨m, n, hm, hn, hnone, hlt, hbc, hca⟩⟩
  match hku : u.integer?, hkv : v.integer?, hkw : w.integer? with
  | some l, some m, some n =>
    rw [orderOf_ne_gt_integers hku hkv] at huv
    rw [orderOf_ne_gt_integers hkv hkw] at hvw
    exact (orderOf_ne_gt_integers hku hkw).2 (huv.trans hvw)
  | none, some m, some n =>
    rw [orderOf_ne_gt_texts (.inl hku)] at huv ⊢
    rw [orderOf_ne_gt_integers hkv hkw] at hvw
    by_contra hwu
    have hmn : m ≠ n := by
      rintro rfl
      rw [shown_of_integer? hkv, ← shown_of_integer? hkw] at huv
      exact hwu huv
    exact huncrossed v hv w hw u hu m n hkv hkw hku (lt_of_le_of_ne hvw hmn) (le_of_not_ge hwu) huv
  | some l, some m, none =>
    rw [orderOf_ne_gt_integers hku hkv] at huv
    rw [orderOf_ne_gt_texts (.inr hkw)] at hvw ⊢
    by_contra hwu
    have hlm : l ≠ m := by
      rintro rfl
      rw [shown_of_integer? hkv, ← shown_of_integer? hku] at hvw
      exact hwu hvw
    exact huncrossed u hu v hv w hw l m hku hkv hkw (lt_of_le_of_ne huv hlm) hvw (le_of_not_ge hwu)
  | some l, none, some n =>
    rw [orderOf_ne_gt_texts (.inr hkv)] at huv
    rw [orderOf_ne_gt_texts (.inl hkv)] at hvw
    rw [orderOf_ne_gt_integers hku hkw]
    by_contra hln
    exact huncrossed w hw u hu v hv n l hkw hku hkv (lt_of_not_ge hln) huv hvw
  | none, none, _ => exact orderOf_trans_texts (.inl hku) (.inl hkv) (.inl hku) huv hvw
  | none, some m, none => exact orderOf_trans_texts (.inl hku) (.inr hkw) (.inl hku) huv hvw
  | some l, none, none => exact orderOf_trans_texts (.inr hkv) (.inl hkv) (.inr hkw) huv hvw

theorem Manageable.areComparable (h : Manageable keys) (hv : v ∈ keys) (hw : w ∈ keys) :
    areComparable v w = true := by
  rcases h with h | h
  · simp [Node.areComparable, h v hv, h w hw]
  · simp [Node.areComparable, h v hv, h w hw]

theorem manageable_of_areComparable
    (h : ∀ v ∈ keys, ∀ w ∈ keys, areComparable v w = true) : Manageable keys := by
  by_contra hneither
  obtain ⟨hinteger, hshort⟩ := not_or.1 hneither
  push Not at hinteger hshort
  obtain ⟨v, hv, hkv⟩ := hinteger
  obtain ⟨w, hw, hkw⟩ := hshort
  have hvw := h v hv w hw
  simp [areComparable, hkv, hkw] at hvw

section Simple

variable (simple : ∀ v ∈ keys, Simple v)
include simple

theorem notAfter_iff (h : Manageable keys) (hv : v ∈ keys) (hw : w ∈ keys) :
    NotAfter scopes v w ↔ orderOf v w ≠ .gt := by
  rw [NotAfter, compareKeys_simple (simple v hv) (simple w hw), if_pos (h.areComparable hv hw)]
  simp

/-- Keys that cross are not ordered transitively: the greater integer does not come after the third
key, nor that after the smaller integer. -/
theorem uncrossed_of_preordered (hlengths : Manageable keys) (h : Preordered scopes keys) :
    ¬ Crossed keys := by
  rintro ⟨v, hv, w, hw, x, hx, hcross⟩
  obtain ⟨m, n, hm, hn, hnone, hlt, hwx, hxv⟩ := crosses_iff.1 hcross
  have hbefore : NotAfter scopes w x :=
    (notAfter_iff simple hlengths hw hx).2 ((orderOf_ne_gt_texts (.inr hnone)).2 hwx)
  have hbehind : NotAfter scopes x v :=
    (notAfter_iff simple hlengths hx hv).2 ((orderOf_ne_gt_texts (.inl hnone)).2 hxv)
  have hwv := (notAfter_iff simple hlengths hw hv).1 (h.trans w hw x hx v hv hbefore hbehind)
  exact absurd ((orderOf_ne_gt_integers hn hm).1 hwv) (not_le.2 hlt)

/-- **The comparison is a total preorder on simple keys exactly if they can be written where they have
to be and do not cross.** -/
theorem preordered_iff : Preordered scopes keys ↔ Manageable keys ∧ ¬ Crossed keys := by
  constructor
  · intro h
    have hlengths : Manageable keys := manageable_of_areComparable fun v hv w hw => by
      obtain ⟨o, ho, -⟩ := h.compares v hv w hw
      rw [compareKeys_simple (simple v hv) (simple w hw)] at ho
      by_contra hvw
      rw [if_neg hvw] at ho
      cases ho
    exact ⟨hlengths, uncrossed_of_preordered simple hlengths h⟩
  · rintro ⟨hlengths, huncrossed⟩
    refine ⟨fun v hv w hw => ⟨orderOf v w, ?_, ?_⟩, fun u hu v hv w hw huv hvw => ?_⟩
    · rw [compareKeys_simple (simple v hv) (simple w hw), if_pos (hlengths.areComparable hv hw)]
    · rw [compareKeys_simple (simple w hw) (simple v hv), if_pos (hlengths.areComparable hw hv),
        orderOf_swap]
    · rw [notAfter_iff simple hlengths hu hv] at huv
      rw [notAfter_iff simple hlengths hv hw] at hvw
      exact (notAfter_iff simple hlengths hu hw).2 (orderOf_trans huncrossed hu hv hw huv hvw)

end Simple

/-! ## Lists with such keys -/

/-- What a path leads to in some items, without those in which it leads to nothing. -/
def keysIn (scopes : Scopes) (field : Value) (items : List Value) : List Value :=
  (items.map (keyIn scopes field)).filter (!·.isNull)

/-- The second list holds the items of the first: in front those with a key, none of which comes
after a later one. -/
structure Rising (scopes : Scopes) (field : Value) (items sorted : List Value) : Prop where
  perm : sorted.Perm items
  ordered : sorted.Pairwise fun a b => (keyIn scopes field b).isNull = false →
    (keyIn scopes field a).isNull = false ∧
      NotAfter scopes (keyIn scopes field a) (keyIn scopes field b)

/-- Whether the key of one pair comes before that of another. -/
def precedes (scopes : Scopes) (p q : Value × Value) : Bool :=
  (comesBefore scopes p.1 q.1).toOption.getD false

theorem Preordered.total (h : Preordered scopes keys) (hv : v ∈ keys) (hw : w ∈ keys)
    (hvw : ¬ NotAfter scopes v w) : NotAfter scopes w v := by
  obtain ⟨o, hforth, hback⟩ := h.compares v hv w hw
  refine ⟨o.swap, hback, fun hgt => hvw ⟨o, hforth, ?_⟩⟩
  rw [Ordering.swap_eq_gt.1 hgt]
  nofun

theorem Preordered.precedes_iff (h : Preordered scopes keys) (hv : v ∈ keys) (hw : w ∈ keys)
    (a b : Value) : precedes scopes (v, a) (w, b) ↔ ¬ NotAfter scopes w v := by
  obtain ⟨o, hvw, hwv⟩ := h.compares v hv w hw
  rw [precedes, comesBefore, NotAfter, hvw, hwv]
  cases o <;> simp [Except.map, Except.toOption]

/-- The items that have a key, with it. -/
def keyed (scopes : Scopes) (field : Value) (items : List Value) : List (Value × Value) :=
  paired scopes field (items.filter fun x => !(keyIn scopes field x).isNull)

theorem mem_keyed {p : Value × Value} (h : p ∈ keyed scopes field items) :
    p.1 ∈ keysIn scopes field items ∧ p.1 = keyIn scopes field p.2 ∧ p.1.isNull = false := by
  obtain ⟨item, hitem, rfl⟩ := List.mem_map.1 h
  obtain ⟨hmem, hnull⟩ := List.mem_filter.1 hitem
  exact ⟨List.mem_filter.2 ⟨List.mem_map_of_mem hmem, hnull⟩, rfl, by simpa using hnull⟩

theorem map_snd_keyed : (keyed scopes field items).map Prod.snd =
    items.filter fun x => !(keyIn scopes field x).isNull := by
  rw [keyed, paired, List.map_map]
  exact List.map_id _

/-- The keys of the items that have one are totally preordered by the comparison. -/
theorem Preordered.preorders (h : Preordered scopes (keysIn scopes field items)) :
    Sorting.Preorders (precedes scopes) (keyed scopes field items) := by
  have hprecedes : ∀ p ∈ keyed scopes field items, ∀ q ∈ keyed scopes field items,
      (precedes scopes p q ↔ ¬ NotAfter scopes q.1 p.1) := fun p hp q hq =>
    h.precedes_iff (mem_keyed hp).1 (mem_keyed hq).1 _ _
  constructor
  · intro p hp q hq hpq hqp
    exact (hprecedes q hq p hp).1 hqp
      (h.total (mem_keyed hq).1 (mem_keyed hp).1 ((hprecedes p hp q hq).1 hpq))
  · intro p hp q hq r hr hqp hrq hrp
    have hpq := not_not.1 (mt (hprecedes q hq p hp).2 hqp)
    have hqr := not_not.1 (mt (hprecedes r hr q hq).2 hrq)
    exact (hprecedes r hr p hp).1 hrp
      (h.trans p.1 (mem_keyed hp).1 q.1 (mem_keyed hq).1 r.1 (mem_keyed hr).1 hpq hqr)

theorem Preordered.comesBefore_eq (h : Preordered scopes (keysIn scopes field items)) :
    ∀ p ∈ keyed scopes field items, ∀ q ∈ keyed scopes field items,
      comesBefore scopes p.1 q.1 = .ok (precedes scopes p q) := by
  intro p hp q hq
  obtain ⟨o, ho, -⟩ := h.compares p.1 (mem_keyed hp).1 q.1 (mem_keyed hq).1
  rw [precedes, comesBefore, ho]
  rfl

/-- **A list whose keys are totally preordered is put in order.** -/
theorem sortItems_rising {settings : Fields} {mark : Option Stamp}
    (hsettings : node.settings = .dict settings mark)
    (hfield : settings.lookup (.text "field") = some field)
    (hrising : (Value.ofField settings "direction").isText "desc" = false)
    (hfound : ∀ item ∈ items, ∃ v, item.nestedBy scopes field = .ok v)
    (h : Preordered scopes (keysIn scopes field items)) :
    ∃ sorted, sortItems node scopes items = .ok sorted ∧ Rising scopes field items sorted := by
  obtain ⟨pairs, hsort, hperm, hordered⟩ := Sorting.sortIn_rising h.preorders h.comesBefore_eq
  have hfront := hperm.map Prod.snd
  rw [map_snd_keyed] at hfront
  have hback : ∀ b ∈ items.filter fun x => (keyIn scopes field x).isNull,
      (keyIn scopes field b).isNull = true := fun b hb => (List.mem_filter.1 hb).2
  refine ⟨pairs.map Prod.snd ++ items.filter fun x => (keyIn scopes field x).isNull, ?_, ?_,
    List.pairwise_append.2 ⟨?_, ?_, ?_⟩⟩
  · rw [sortItems_eq hsettings hfield hfound, hrising]
    exact congrArg (Except.map _) hsort
  · have hparts := List.filter_append_perm (fun x => !(keyIn scopes field x).isNull) items
    simp only [Bool.not_not] at hparts
    exact (hfront.append_right _).trans hparts
  · refine List.pairwise_map.2 (hordered.imp_of_mem fun {p q} hp hq hpq _ => ?_)
    obtain ⟨hp, hpkey, hpnull⟩ := mem_keyed (hperm.subset hp)
    obtain ⟨hq, hqkey, -⟩ := mem_keyed (hperm.subset hq)
    rw [← hpkey, ← hqkey]
    exact ⟨hpnull, not_not.1 (mt (h.precedes_iff hq hp _ _).2 hpq)⟩
  · refine List.pairwise_of_forall_mem_list fun a _ b hb hkey => ?_
    rw [hback b hb] at hkey
    cases hkey
  · intro a _ b hb hkey
    rw [hback b hb] at hkey
    cases hkey

/-! ## The node -/

/-- The path leads to nothing or to a simple key in each of the items, and the keys can be written
where they have to be and do not cross. -/
structure Orderly (scopes : Scopes) (field : Value) (items : List Value) : Prop where
  found : ∀ item ∈ items, ∃ v, item.nestedBy scopes field = .ok v ∧ (v = .null ∨ Simple v)
  manageable : Manageable (keysIn scopes field items)
  uncrossed : ¬ Crossed (keysIn scopes field items)

theorem Orderly.preordered (h : Orderly scopes field items) :
    Preordered scopes (keysIn scopes field items) := by
  refine (preordered_iff fun v hv => ?_).2 ⟨h.manageable, h.uncrossed⟩
  obtain ⟨hmem, hnull⟩ := List.mem_filter.1 hv
  obtain ⟨item, hitem, rfl⟩ := List.mem_map.1 hmem
  obtain ⟨v, hv, hkey⟩ := h.found item hitem
  have hin : keyIn scopes field item = v := by
    rw [keyIn, hv]
    rfl
  rw [hin] at hnull ⊢
  rcases hkey with rfl | hsimple
  · cases hnull
  · exact hsimple

/-- **A sorting node puts a list with keys of several sorts in rising order** where the comparison of
the keys is a total preorder, and this it is exactly for the keys that can be written where they have
to be and do not cross. -/
theorem execute_sorts_mixed (node : Node) (settings : Fields) (mark : Option Stamp) (field : Value)
    (bench : Bench) (hkind : node.cls.kind = .sort) (hsettings : node.settings = .dict settings mark)
    (hfield : settings.lookup (.text "field") = some field)
    (hrising : (Value.ofField settings "direction").isText "desc" = false) :
    (∀ scopes v w, Simple v → Simple w →
      compareKeys scopes w v = (compareKeys scopes v w).map Ordering.swap) ∧
    (∀ scopes keys, (∀ v ∈ keys, Simple v) →
      (Preordered scopes keys ↔ Manageable keys ∧ ¬ Crossed keys)) ∧
    (∀ items mark, bench.state.previous = .list items mark →
      Orderly bench.state.toScopes field items →
      ∃ sorted, node.execute.runOn bench = (.ok (.plain (.object [("sorted", .bool true),
          ("direction", (settings.lookup (.text "direction")).getD (.text "asc")),
          ("items", .list sorted)])), bench) ∧
        Rising bench.state.toScopes field items sorted) ∧
    ∀ entries, bench.state.previous.entries? bench.state.toScopes = some entries →
      (∀ e ∈ entries, ∀ items mark, e.2 = .list items mark →
        Orderly bench.state.toScopes field items) →
      ∃ entries', node.execute.runOn bench = (.ok (.plain (.dict entries')), bench) ∧
        List.Forall₂ (MapsList (Rising bench.state.toScopes field)) entries entries' := by
  have hexecute : node.execute = runSort node := by
    rw [execute, hkind]
  have hsorts : ∀ items, Orderly bench.state.toScopes field items →
      ∃ sorted, sortItems node bench.state.toScopes items = .ok sorted ∧
        Rising bench.state.toScopes field items sorted := fun items h =>
    sortItems_rising hsettings hfield hrising
      (fun item hitem => (h.found item hitem).imp fun _ h => h.1) h.preordered
  rw [hexecute]
  refine ⟨fun _ _ _ hv hw => compareKeys_swap hv hw, fun _ _ simple => preordered_iff simple,
    fun items mark' hprevious h => ?_, fun entries hprevious h => ?_⟩
  · obtain ⟨sorted, hsorted, hrising⟩ := hsorts items h
    exact ⟨sorted, runSort_list hsettings hprevious hsorted, hrising⟩
  · obtain ⟨entries', hsorted, hmaps⟩ := mapLists_succeeds fun e he items mark' hlist =>
      hsorts items (h e he items mark' hlist)
    exact ⟨entries', runSort_object hprevious hsorted, hmaps⟩

/-- A node that sorts by `k`. -/
def byKey : Node where
  id := .text "s"
  type := .text "sort"
  label := .text "s"
  settings := .object [("field", .text "k")]
  cls := { name := "SortNode", kind := .sort }

/-- Items with keys of every sort that do not cross, and one without a key. -/
def mixedItems : List Value :=
  [.object [("k", .text "b")], .object [("k", .int 9)], .object [], .object [("k", .bool true)],
    .object [("k", .int 5)]]

theorem mixedItems_orderly : Orderly {} (.text "k") mixedItems := by
  have hkeys : keysIn {} (.text "k") mixedItems = [.text "b", .int 9, .bool true, .int 5] := by rfl
  refine ⟨?_, ?_, ?_⟩
  · intro item hitem
    simp only [mixedItems, List.mem_cons, List.not_mem_nil, or_false] at hitem
    rcases hitem with rfl | rfl | rfl | rfl | rfl
    · exact ⟨.text "b", by rfl, .inr (.text _ _)⟩
    · exact ⟨.int 9, by rfl, .inr (.int _ _)⟩
    · exact ⟨.null, by rfl, .inl rfl⟩
    · exact ⟨.bool true, by rfl, .inr (.bool _)⟩
    · exact ⟨.int 5, by rfl, .inr (.int _ _)⟩
  · rw [hkeys]
    exact .inr (by decide +kernel)
  · rw [hkeys]
    unfold Crossed
    decide +kernel

theorem execute_sorts_mixed_byKey :
    (∃ sorted, byKey.execute.runOn (benchBefore (.list mixedItems)) =
        (.ok (.plain (.object [("sorted", .bool true), ("direction", .text "asc"),
          ("items", .list sorted)])), benchBefore (.list mixedItems)) ∧
      Rising {} (.text "k") mixedItems sorted) := by
  obtain ⟨-, -, hlist, -⟩ := execute_sorts_mixed byKey _ none (.text "k")
    (benchBefore (.list mixedItems)) rfl rfl rfl rfl
  exact hlist mixedItems none rfl mixedItems_orderly

/-- Items with the keys 10, "9" and 9. -/
def crossedItems : List Value :=
  [.object [("k", .int 10)], .object [("k", .text "9")], .object [("k", .int 9)]]

/-- What `byKey` finds in the crossed items. -/
theorem keyed_crossedItems : keyed {} (.text "k") crossedItems =
    [(.int 10, .object [("k", .int 10)]), (.text "9", .object [("k", .text "9")]),
      (.int 9, .object [("k", .int 9)])] := by
  rfl

theorem compareKeys_short (hv : Simple v) (hw : Simple w) (hshort : (isShort v && isShort w) = true) :
    compareKeys scopes v w = .ok (orderOf v w) := by
  rw [compareKeys_simple hv hw, areComparable, hshort, Bool.or_true, if_pos rfl]

theorem isShort_long {n : Int} (h : longIntegerBound ≤ n.natAbs) : isShort (.int n) = false := by
  simp [isShort, h]

/-- **Keys that cross are not ordered transitively, and a sort leaves them as they are**: 10 does not
come after "9", nor "9" after 9. And an integer that is too long cannot be compared with a text. -/
theorem crossedKeys_unordered :
    NotAfter {} (.int 10) (.text "9") ∧ NotAfter {} (.text "9") (.int 9) ∧
    ¬ NotAfter {} (.int 10) (.int 9) ∧
    byKey.execute.runOn (benchBefore (.list crossedItems)) =
      (.ok (.plain (.object [("sorted", .bool true), ("direction", .text "asc"),
        ("items", .list crossedItems)])), benchBefore (.list crossedItems)) ∧
    compareKeys {} (.int longIntegerBound) (.text "a") = .fault .malformed := by
  have hsmall : compareKeys {} (.int 10) (.text "9") = .ok .lt :=
    (compareKeys_short (.int _ _) (.text _ _) (by decide +kernel)).trans
      (congrArg Except.ok (by decide +kernel))
  have htie : compareKeys {} (.text "9") (.int 9) = .ok .eq :=
    (compareKeys_short (.text _ _) (.int _ _) (by decide +kernel)).trans
      (congrArg Except.ok (by decide +kernel))
  have hsorted : sortItems byKey (benchBefore (.list crossedItems)).state.toScopes crossedItems =
      .ok crossedItems := by
    have hfirst : comesBefore {} (.text "9") (.int 10) = .ok false := by
      rw [comesBefore, compareKeys_swap (.int _ _) (.text _ _), hsmall]
      rfl
    have hsecond : comesBefore {} (.int 9) (.text "9") = .ok false := by
      rw [comesBefore, compareKeys_swap (.text _ _) (.int _ _), htie]
      rfl
    have hfound : ∀ item ∈ crossedItems, ∃ v, item.nestedBy {} (.text "k") = .ok v :=
      fun item _ => ⟨_, rfl⟩
    refine (sortItems_eq rfl rfl hfound).trans ?_
    change (Sorting.sortIn false (fun a b => comesBefore {} a.1 b.1)
      (keyed {} (.text "k") crossedItems)).map _ = _
    rw [keyed_crossedItems]
    simp only [Sorting.sortIn, Sorting.sort, Sorting.firstRun, Sorting.runBehind, hfirst, hsecond,
      Attempt.ok_bind, Bool.false_eq_true, if_false, beq_self_eq_true, if_true, pure_bind]
    rfl
  have hexecute : byKey.execute = runSort byKey := rfl
  rw [hexecute, runSort_list rfl rfl hsorted]
  refine ⟨⟨.lt, hsmall, by decide⟩, ⟨.eq, htie, by decide⟩, ?_, rfl, ?_⟩
  · rintro ⟨o, ho, hne⟩
    exact hne (Except.ok.inj ho).symm
  · have hlong : isShort (.int longIntegerBound) = false := isShort_long (Int.natAbs_natCast _).ge
    have hapart : areComparable (.int longIntegerBound) (.text "a") = false := by
      rw [areComparable, hlong]
      rfl
    rw [compareKeys_simple (.int _ _) (.text _ _), hapart]
    exact if_neg Bool.false_ne_true

end WorkflowEngine.Node
