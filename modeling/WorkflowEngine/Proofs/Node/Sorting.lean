import Mathlib.Data.String.Basic
import Mathlib.Order.WithBot
import WorkflowEngine.Node.Dispatch
import WorkflowEngine.Proofs.Node.Modesty
import WorkflowEngine.Proofs.Value.Sorting

/-!
# What a sorting node does

A sorting node orders items by the keys that a path leads to in them. Between integers the order is
that of their sizes and between texts that of their code points, so the items of a list that has only
keys of one of these sorts come out in the order of their keys, in either direction, with equal keys
in the order in which they came (`sortItems_keyedFirst`). Items without a key come last. A node treats
the list before it so, or every list of the object before it (`execute_sorts`).
-/

namespace WorkflowEngine

/-- The integer that a value is. -/
def Value.integer? : Value → Option Int
  | .int n _ => some n
  | _ => none

/-- The text that a value is. -/
def Value.text? : Value → Option String
  | .text s _ => some s
  | _ => none

namespace Node

variable {β : Type} {node : Node} {scopes : Scopes} {field : Value} {read : Value → Option β}
variable {items : List Value}

/-- What the path leads to in an item, null if it leads nowhere. -/
def keyIn (scopes : Scopes) (field item : Value) : Value :=
  (item.nestedBy scopes field).toOption.getD .null

/-- The path leads to nothing or to a key in each of the items. -/
def HasKeys (scopes : Scopes) (field : Value) (read : Value → Option β) (items : List Value) : Prop :=
  ∀ item ∈ items, ∃ v, item.nestedBy scopes field = .ok v ∧ (v = .null ∨ (read v).isSome)

/-- The second list holds the items of the first, those with a key in front and in the order of their
keys. Those with equal keys stay as they came, and so do those without. -/
structure KeyedFirst [LinearOrder β] (descending : Bool) (key : Value → Option β)
    (items sorted : List Value) : Prop where
  perm : sorted.Perm items
  ordered : sorted.Pairwise fun a b =>
    ∀ l, key b = some l → ∃ k, key a = some k ∧ if descending then l ≤ k else k ≤ l
  stable : ∀ k, sorted.filter (key · = k) = items.filter (key · = k)

/-! ## Comparing keys -/

/-- Values of which something can be read compare as what is read of them. -/
def Weighs [LinearOrder β] (scopes : Scopes) (read : Value → Option β) : Prop :=
  ∀ v w k l, read v = some k → read w = some l →
    comesBefore scopes v w = .ok (decide (k < l))

/-- Keys whose order is known are compared by it. -/
theorem comesBefore_eq [LinearOrder β] {v w : Value} {k l : β}
    (h : compareKeys scopes v w = .ok (compare k l)) :
    comesBefore scopes v w = .ok (decide (k < l)) := by
  rw [comesBefore, h]
  exact congrArg Except.ok
    (Bool.eq_iff_iff.2 (beq_iff_eq.trans (compare_lt_iff_lt.trans decide_eq_true_iff.symm)))

theorem eq_int_of_integer? {v : Value} (h : (v.integer?).isSome) : ∃ n mark, v = .int n mark := by
  cases v with
  | int n mark => exact ⟨n, mark, rfl⟩
  | _ => cases h

theorem eq_text_of_text? {v : Value} (h : (v.text?).isSome) : ∃ s mark, v = .text s mark := by
  cases v with
  | text s mark => exact ⟨s, mark, rfl⟩
  | _ => cases h

/-- Integers compare by their size. -/
theorem weighs_integer : Weighs scopes Value.integer? := by
  intro v w k l hk hl
  obtain ⟨m, mark, rfl⟩ := eq_int_of_integer? (Option.isSome_of_mem hk)
  obtain ⟨n, mark', rfl⟩ := eq_int_of_integer? (Option.isSome_of_mem hl)
  obtain rfl := Option.some.inj hk
  obtain rfl := Option.some.inj hl
  exact comesBefore_eq rfl

/-- Texts compare as such. -/
theorem weighs_text : Weighs scopes Value.text? := by
  intro v w k l hk hl
  obtain ⟨s, mark, rfl⟩ := eq_text_of_text? (Option.isSome_of_mem hk)
  obtain ⟨t, mark', rfl⟩ := eq_text_of_text? (Option.isSome_of_mem hl)
  obtain rfl := Option.some.inj hk
  obtain rfl := Option.some.inj hl
  exact comesBefore_eq rfl

/-! ## One list -/

/-- The key of an item. -/
def keyBy (scopes : Scopes) (field : Value) (read : Value → Option β) (item : Value) : Option β :=
  read (keyIn scopes field item)

theorem HasKeys.nestedBy (h : HasKeys scopes field read items) :
    ∀ item ∈ items, item.nestedBy scopes field = .ok (keyIn scopes field item) := by
  intro item hitem
  obtain ⟨v, hv, -⟩ := h item hitem
  rw [keyIn, hv]
  rfl

/-- The items of which nothing can be read are those in which the path leads to nothing. -/
theorem HasKeys.isNull_eq (h : HasKeys scopes field read items) (null : read .null = none) :
    ∀ item ∈ items, (keyIn scopes field item).isNull = (keyBy scopes field read item).isNone := by
  intro item hitem
  obtain ⟨v, hv, hkey⟩ := h item hitem
  have hin : keyIn scopes field item = v := by
    rw [keyIn, hv]
    rfl
  rw [keyBy, hin]
  cases v with
  | null => rw [null]; rfl
  | _ =>
    rcases hkey with hnull | hsome
    · cases hnull
    · rw [Option.isSome_iff_ne_none] at hsome
      exact (Option.isNone_eq_false_iff.2 (Option.isSome_iff_ne_none.2 hsome)).symm

/-- Items with what the path leads to in them. -/
def paired (scopes : Scopes) (field : Value) (items : List Value) : List (Value × Value) :=
  items.map fun item => (keyIn scopes field item, item)

/-- **To sort a list** is to sort the items in which the path leads to something by what it leads to,
and to put the others behind them. -/
theorem sortItems_eq {settings : Fields} {mark : Option Stamp}
    (hsettings : node.settings = .dict settings mark)
    (hfield : settings.lookup (.text "field") = some field)
    (h : ∀ item ∈ items, ∃ v, item.nestedBy scopes field = .ok v) :
    sortItems node scopes items =
      (Sorting.sortIn ((Value.ofField settings "direction").isText "desc")
        (fun a b => comesBefore scopes a.1 b.1)
        (paired scopes field (items.filter fun x => !(keyIn scopes field x).isNull))).map
          fun ordered => ordered.map Prod.snd ++
            items.filter fun x => (keyIn scopes field x).isNull := by
  have hpaired : (items.mapM fun item => do pure (← item.nestedBy scopes field, item) :
      Attempt (List (Value × Value))) = .ok (paired scopes field items) := by
    refine Attempt.mapM_eq_map fun item hitem => ?_
    obtain ⟨v, hv⟩ := h item hitem
    rw [keyIn, hv]
    rfl
  have hpresent : (paired scopes field items).filter (fun p => !p.1.isNull) =
      paired scopes field (items.filter fun x => !(keyIn scopes field x).isNull) := by
    rw [paired, List.filter_map]
    rfl
  have hmissing : ((paired scopes field items).filter fun p => p.1.isNull).map Prod.snd =
      items.filter fun x => (keyIn scopes field x).isNull := by
    rw [paired, List.filter_map, List.map_map]
    exact List.map_id _
  have hentry : node.settings.entry "field" = .ok field := by
    rw [hsettings, Value.entry]
    simp only [hfield]
  have hdirection : node.setting "direction" = .ok (Value.ofField settings "direction") := by
    rw [setting, hsettings]
    rfl
  rw [sortItems, hentry, Attempt.ok_bind, hdirection, Attempt.ok_bind, hpaired, Attempt.ok_bind]
  simp only [hpresent, hmissing]
  cases Sorting.sortIn ((Value.ofField settings "direction").isText "desc")
    (fun a b => comesBefore scopes a.1 b.1)
    (paired scopes field (items.filter fun x => !(keyIn scopes field x).isNull)) <;> rfl

/-- The keys in one order with their absence. -/
def rank (key : Value → Option β) (item : Value) : WithBot β := key item

theorem rank_of_key {key : Value → Option β} {item : Value} {k : β} (h : key item = some k) : rank key item = k := by
  rw [rank, h]
  rfl

section Sorted

variable [LinearOrder β] {descending : Bool} {key : Value → Option β} {front : List Value}

/-- Items with keys that are in order and behind them those without keys are a whole list. -/
theorem KeyedFirst.of_arranged (h : Sorting.Arranged descending (rank key)
    (items.filter fun x => (key x).isSome) front) :
    KeyedFirst descending key items (front ++ items.filter fun x => (key x).isNone) := by
  have hfront : ∀ x ∈ front, ∃ k, key x = some k := fun x hx =>
    Option.isSome_iff_exists.1 (List.mem_filter.1 (h.perm.subset hx)).2
  have hback : ∀ x ∈ items.filter fun x => (key x).isNone, key x = none := fun x hx =>
    Option.isNone_iff_eq_none.1 (List.mem_filter.1 hx).2
  refine ⟨?_, List.pairwise_append.2 ⟨?_, ?_, ?_⟩, fun k => ?_⟩
  · have hparts := List.filter_append_perm (fun x => (key x).isSome) items
    simp only [Option.not_isSome] at hparts
    exact (h.perm.append_right _).trans hparts
  · refine h.ordered.imp_of_mem fun {a b} ha hb hab l hl => ?_
    obtain ⟨k, hk⟩ := hfront a ha
    refine ⟨k, hk, ?_⟩
    rw [rank_of_key hk, rank_of_key hl] at hab
    cases descending with
    | true => exact WithBot.coe_le_coe.1 hab
    | false => exact WithBot.coe_le_coe.1 hab
  · refine List.pairwise_of_forall_mem_list fun a _ b hb l hl => ?_
    rw [hback b hb] at hl
    cases hl
  · intro a _ b hb l hl
    rw [hback b hb] at hl
    cases hl
  · have hstable : front.filter (key · = k) =
        (items.filter fun x => (key x).isSome).filter (key · = k) := h.stable k
    rw [List.filter_append, hstable, List.filter_filter, List.filter_filter]
    cases k with
    | none =>
      have hleft : items.filter (fun x => decide (key x = none) && (key x).isSome) = [] := by
        refine List.filter_eq_nil_iff.2 fun x _ => ?_
        cases key x <;> simp
      rw [hleft, List.nil_append]
      exact List.filter_congr fun x _ => by cases key x <;> simp
    | some k =>
      have hright : items.filter (fun x => decide (key x = some k) && (key x).isNone) = [] := by
        refine List.filter_eq_nil_iff.2 fun x _ => ?_
        cases key x <;> simp
      rw [hright, List.append_nil]
      exact List.filter_congr fun x _ => by cases key x <;> simp

/-- **A list is sorted by its keys**, if these are of a sort. -/
theorem sortItems_keyedFirst {settings : Fields} {mark : Option Stamp}
    (hsettings : node.settings = .dict settings mark)
    (hfield : settings.lookup (.text "field") = some field)
    (weighs : Weighs scopes read) (null : read .null = none)
    (h : HasKeys scopes field read items) :
    ∃ sorted, sortItems node scopes items = .ok sorted ∧
      KeyedFirst ((Value.ofField settings "direction").isText "desc") (keyBy scopes field read)
        items sorted := by
  let key := keyBy scopes field read
  let kept := items.filter fun x => (key x).isSome
  have hkept : ∀ p ∈ paired scopes field kept, (read p.1).isSome := by
    intro p hp
    obtain ⟨item, hitem, rfl⟩ := List.mem_map.1 hp
    exact (List.mem_filter.1 hitem).2
  have hless : ∀ a ∈ paired scopes field kept, ∀ b ∈ paired scopes field kept,
      comesBefore scopes a.1 b.1 = .ok (decide (rank key a.2 < rank key b.2)) := by
    intro p hp q hq
    obtain ⟨x, -, rfl⟩ := List.mem_map.1 hp
    obtain ⟨y, -, rfl⟩ := List.mem_map.1 hq
    obtain ⟨k, hk⟩ := Option.isSome_iff_exists.1 (hkept _ hp)
    obtain ⟨l, hl⟩ := Option.isSome_iff_exists.1 (hkept _ hq)
    have hx : rank key x = k := rank_of_key hk
    have hy : rank key y = l := rank_of_key hl
    simp only [weighs _ _ k l hk hl, hx, hy, WithBot.coe_lt_coe]
  obtain ⟨ordered, hordered, harranged⟩ :=
    Sorting.sortIn_arranged ((Value.ofField settings "direction").isText "desc") hless
  have hfront := harranged.map
  have hitems : (paired scopes field kept).map Prod.snd = kept := by
    rw [paired, List.map_map]
    exact List.map_id kept
  rw [hitems] at hfront
  have hpresent : (items.filter fun x => !(keyIn scopes field x).isNull) = kept :=
    List.filter_congr fun x hx =>
      (congrArg (!·) (h.isNull_eq null x hx)).trans (Option.not_isNone _)
  have hmissing : (items.filter fun x => (keyIn scopes field x).isNull) =
      items.filter fun x => (key x).isNone :=
    List.filter_congr fun x hx => h.isNull_eq null x hx
  refine ⟨_, ?_, KeyedFirst.of_arranged hfront⟩
  rw [sortItems_eq hsettings hfield fun item hitem => ⟨_, h.nestedBy item hitem⟩, hpresent, hmissing,
    hordered]
  rfl

end Sorted

/-! ## The node -/

/-- The keys that the items have are all integers, or all texts. -/
def Uniform (scopes : Scopes) (field : Value) (items : List Value) : Prop :=
  HasKeys scopes field Value.integer? items ∨ HasKeys scopes field Value.text? items

/-- The second list is the first in the order that the settings ask for, be the keys integers or
texts. -/
structure SortedFor (settings : Fields) (scopes : Scopes) (field : Value)
    (items sorted : List Value) : Prop where
  integers : HasKeys scopes field Value.integer? items →
    KeyedFirst ((Value.ofField settings "direction").isText "desc")
      (keyBy scopes field Value.integer?) items sorted
  texts : HasKeys scopes field Value.text? items →
    KeyedFirst ((Value.ofField settings "direction").isText "desc")
      (keyBy scopes field Value.text?) items sorted

/-- Of two entries under one name the second holds what is made of the list of the first, or the same
if the first holds no list. -/
def MapsList (made : List Value → List Value → Prop) (e e' : Key × Value) : Prop :=
  e'.1 = e.1 ∧ match e.2 with
    | .list items _ => ∃ items', e'.2 = .list items' ∧ made items items'
    | v => e'.2 = v

theorem mapLists_succeeds {f : List Value → Attempt (List Value)}
    {made : List Value → List Value → Prop} {entries : Fields}
    (h : ∀ e ∈ entries, ∀ items mark, e.2 = .list items mark →
      ∃ items', f items = .ok items' ∧ made items items') :
    ∃ entries', mapLists f entries = .ok entries' ∧ List.Forall₂ (MapsList made) entries entries' := by
  induction entries with
  | nil => exact ⟨[], rfl, .nil⟩
  | cons e rest ih =>
    obtain ⟨others, hothers, hrest⟩ := ih fun e' he' => h e' (List.mem_cons_of_mem _ he')
    obtain ⟨k, v⟩ := e
    cases v with
    | list items mark =>
      obtain ⟨items', hitems', hmade⟩ := h _ List.mem_cons_self items mark rfl
      refine ⟨(k, .list items') :: others, ?_, .cons ⟨rfl, items', rfl, hmade⟩ hrest⟩
      simp only [mapLists, hitems', hothers]
      rfl
    | _ =>
      refine ⟨_, ?_, .cons ⟨rfl, rfl⟩ hrest⟩
      simp only [mapLists, hothers]
      rfl

section Execute

variable {settings : Fields} {mark : Option Stamp} {bench : Bench}

theorem sortItems_sortedFor (hsettings : node.settings = .dict settings mark)
    (hfield : settings.lookup (.text "field") = some field) (h : Uniform scopes field items) :
    ∃ sorted, sortItems node scopes items = .ok sorted ∧
      SortedFor settings scopes field items sorted := by
  suffices hsucceeds : ∃ sorted, sortItems node scopes items = .ok sorted by
    obtain ⟨sorted, hsorted⟩ := hsucceeds
    refine ⟨sorted, hsorted, fun hkeys => ?_, fun hkeys => ?_⟩
    · obtain ⟨sorted', hsorted', hfirst⟩ :=
        sortItems_keyedFirst hsettings hfield weighs_integer rfl hkeys
      rwa [Except.ok.inj (hsorted.symm.trans hsorted')]
    · obtain ⟨sorted', hsorted', hfirst⟩ :=
        sortItems_keyedFirst hsettings hfield weighs_text rfl hkeys
      rwa [Except.ok.inj (hsorted.symm.trans hsorted')]
  rcases h with hkeys | hkeys
  · exact (sortItems_keyedFirst hsettings hfield weighs_integer rfl hkeys).imp fun _ h => h.1
  · exact (sortItems_keyedFirst hsettings hfield weighs_text rfl hkeys).imp fun _ h => h.1

theorem runSort_list {sorted : List Value} {mark' : Option Stamp}
    (hsettings : node.settings = .dict settings mark)
    (hprevious : bench.state.previous = .list items mark')
    (hsorted : sortItems node bench.state.toScopes items = .ok sorted) :
    (runSort node).runOn bench = (.ok (.plain (.object [("sorted", .bool true),
      ("direction", (settings.lookup (.text "direction")).getD (.text "asc")),
      ("items", .list sorted)])), bench) := by
  have hdirection : node.settings.find? "direction" = .ok (settings.lookup (.text "direction")) := by
    rw [hsettings]
    rfl
  unfold runSort
  rw [Act.runOn_state_bind]
  simp only [hprevious, hdirection, hsorted]
  rw [Act.runOn_ofAttempt_bind, Act.runOn_ofAttempt_bind]
  rfl

theorem runSort_object {entries entries' : Fields}
    (hprevious : bench.state.previous.entries? bench.state.toScopes = some entries)
    (hsorted : mapLists (sortItems node bench.state.toScopes) entries = .ok entries') :
    (runSort node).runOn bench = (.ok (.plain (.dict entries')), bench) := by
  unfold runSort
  rw [Act.runOn_state_bind]
  cases hdata : bench.state.previous with
  | dict fields mark' =>
    rw [hdata] at hprevious
    simp only [hprevious, hsorted]
    rw [Act.runOn_ofAttempt_bind]
    rfl
  | live scope =>
    rw [hdata] at hprevious
    simp only [hprevious, hsorted]
    rw [Act.runOn_ofAttempt_bind]
    rfl
  | _ =>
    rw [hdata] at hprevious
    cases hprevious

/-- **A sorting node puts the list before it in the order of its keys**, and every list of the object
before it, whose other entries it leaves as they are. -/
theorem execute_sorts (node : Node) (settings : Fields) (mark : Option Stamp) (field : Value)
    (bench : Bench) (hkind : node.cls.kind = .sort) (hsettings : node.settings = .dict settings mark)
    (hfield : settings.lookup (.text "field") = some field) :
    (∀ items mark, bench.state.previous = .list items mark →
      Uniform bench.state.toScopes field items →
      ∃ sorted, node.execute.runOn bench = (.ok (.plain (.object [("sorted", .bool true),
          ("direction", (settings.lookup (.text "direction")).getD (.text "asc")),
          ("items", .list sorted)])), bench) ∧
        SortedFor settings bench.state.toScopes field items sorted) ∧
    ∀ entries, bench.state.previous.entries? bench.state.toScopes = some entries →
      (∀ e ∈ entries, ∀ items mark, e.2 = .list items mark →
        Uniform bench.state.toScopes field items) →
      ∃ entries', node.execute.runOn bench = (.ok (.plain (.dict entries')), bench) ∧
        List.Forall₂ (MapsList (SortedFor settings bench.state.toScopes field)) entries entries' := by
  have hexecute : node.execute = runSort node := by
    rw [execute, hkind]
  rw [hexecute]
  constructor
  · intro items mark' hprevious huniform
    obtain ⟨sorted, hsorted, hfor⟩ := sortItems_sortedFor hsettings hfield huniform
    exact ⟨sorted, runSort_list hsettings hprevious hsorted, hfor⟩
  · intro entries hprevious huniform
    obtain ⟨entries', hsorted, hmaps⟩ := mapLists_succeeds fun e he items mark' hlist =>
      sortItems_sortedFor hsettings hfield (huniform e he items mark' hlist)
    exact ⟨entries', runSort_object hprevious hsorted, hmaps⟩

end Execute

/-- A node that sorts by names, the last in front. -/
def byNameDescending : Node where
  id := .text "s"
  type := .text "sort"
  label := .text "s"
  settings := .object [("field", .text "name"), ("direction", .text "desc")]
  cls := { name := "SortNode", kind := .sort }

/-- Two items under one name, one under another, and one without. -/
def tiedItems : List Value :=
  [.object [("name", .text "b"), ("n", .int 1)], .object [], .object [("name", .text "c")],
    .object [("name", .text "b"), ("n", .int 2)]]

theorem tiedItems_hasKeys : HasKeys {} (.text "name") Value.text? tiedItems := by
  intro item hitem
  simp only [tiedItems, List.mem_cons, List.not_mem_nil, or_false] at hitem
  rcases hitem with rfl | rfl | rfl | rfl
  · exact ⟨.text "b", by rfl, .inr rfl⟩
  · exact ⟨.null, by rfl, .inl rfl⟩
  · exact ⟨.text "c", by rfl, .inr rfl⟩
  · exact ⟨.text "b", by rfl, .inr rfl⟩

/-- Where the items lie before the node, as they are or in an object. -/
def benchBefore (previous : Value) : Bench where
  world := default
  state := { previous := previous }

theorem execute_sorts_byNameDescending :
    (∃ sorted, byNameDescending.execute.runOn (benchBefore (.list tiedItems)) =
        (.ok (.plain (.object [("sorted", .bool true), ("direction", .text "desc"),
          ("items", .list sorted)])), benchBefore (.list tiedItems)) ∧
      KeyedFirst true (keyBy {} (.text "name") Value.text?) tiedItems sorted) ∧
    ∃ sorted, byNameDescending.execute.runOn
        (benchBefore (.object [("b", .text "x"), ("a", .list tiedItems)])) =
        (.ok (.plain (.object [("b", .text "x"), ("a", .list sorted)])),
          benchBefore (.object [("b", .text "x"), ("a", .list tiedItems)])) ∧
      KeyedFirst true (keyBy {} (.text "name") Value.text?) tiedItems sorted := by
  constructor
  · obtain ⟨sorted, hrun, hfor⟩ := (execute_sorts byNameDescending _ none (.text "name")
      (benchBefore (.list tiedItems)) rfl rfl rfl).1 tiedItems none rfl (.inr tiedItems_hasKeys)
    exact ⟨sorted, hrun, hfor.texts tiedItems_hasKeys⟩
  · have huniform : ∀ e ∈ [(Key.text "b", Value.text "x"), (.text "a", .list tiedItems)],
        ∀ items mark, e.2 = .list items mark → Uniform {} (.text "name") items := by
      intro e he items mark hlist
      simp only [List.mem_cons, List.not_mem_nil, or_false] at he
      rcases he with rfl | rfl
      · cases hlist
      · obtain ⟨rfl, -⟩ := Value.list.inj hlist
        exact .inr tiedItems_hasKeys
    obtain ⟨entries, hrun, hmaps⟩ := (execute_sorts byNameDescending _ none (.text "name")
      (benchBefore (.object [("b", .text "x"), ("a", .list tiedItems)])) rfl rfl rfl).2 _ rfl huniform
    obtain _ | @⟨_, ⟨k, v⟩, _, _, ⟨hk, hv⟩, hrest⟩ := hmaps
    obtain _ | @⟨_, ⟨k', v'⟩, _, _, ⟨hk', sorted, hv', hfor⟩, hrest⟩ := hrest
    obtain _ | _ := hrest
    refine ⟨sorted, ?_, hfor.texts tiedItems_hasKeys⟩
    cases hk
    cases hv
    cases hk'
    cases hv'
    exact hrun

end Node

end WorkflowEngine
