import WorkflowEngine.Proofs.Expression.Comparisons
import WorkflowEngine.Proofs.Node.Sorting

/-!
# Filtering and sorting commute

A list that is in the order of its keys, equal ones as they came, is determined by the list that it
was made from (`KeyedFirst.unique`), and what is left of it by a filter is in order as well
(`KeyedFirst.filter`). So it makes no difference whether a list is filtered first or sorted first. A
node that filters the output of one that sorts also filters the direction that stands beside the
items, if that is a list: with this the two nodes commute (`execute_filter_sort`), unless the
condition cannot be told for what the direction holds (`listedDirection_fails`).
-/

namespace WorkflowEngine.Node

variable {β : Type} {node sieve sorter : Node} {scopes : Scopes} {field : Value}
variable {read key : Value → Option β} {items sorted sorted' : List Value}

/-! ## Lists in order -/

/-- Rows that hold the items of each key in the same order, and whose keys are in order, are the
same. -/
theorem eq_of_stable {r : Value → Value → Prop} (anti : ∀ a b, r a b → r b a → key a = key b)
    [DecidableEq β] (hperm : sorted.Perm sorted')
    (hstable : ∀ k, sorted.filter (key · = k) = sorted'.filter (key · = k))
    (hr : sorted.Pairwise r) (hr' : sorted'.Pairwise r) : sorted = sorted' := by
  induction sorted generalizing sorted' with
  | nil => exact hperm.nil_eq
  | cons a rest ih =>
    obtain _ | ⟨b, rest'⟩ := sorted'
    · exact absurd hperm.eq_nil (List.cons_ne_nil a rest)
    obtain ⟨ha, hrest⟩ := List.pairwise_cons.1 hr
    obtain ⟨hb, hrest'⟩ := List.pairwise_cons.1 hr'
    -- Each of the two heads stands somewhere in the other row, so neither key comes first.
    have hkey : key a = key b := by
      rcases List.mem_cons.1 (hperm.subset List.mem_cons_self) with rfl | hab
      · rfl
      rcases List.mem_cons.1 (hperm.symm.subset List.mem_cons_self) with rfl | hba
      · rfl
      exact anti a b (ha b hba) (hb a hab)
    have hheads := hstable (key a)
    rw [List.filter_cons_of_pos (by simp), List.filter_cons_of_pos (by simp [hkey])] at hheads
    obtain ⟨rfl, htail⟩ := List.cons.inj hheads
    refine congrArg (a :: ·) (ih ((List.perm_cons a).1 hperm) (fun k => ?_) hrest hrest')
    by_cases hk : key a = k
    · exact hk ▸ htail
    · have hothers := hstable k
      rwa [List.filter_cons_of_neg (by simpa using hk),
        List.filter_cons_of_neg (by simpa using hk)] at hothers

section Ordered

variable [LinearOrder β] {descending : Bool}

/-- **The order is determined by the items.** -/
theorem KeyedFirst.unique (h : KeyedFirst descending key items sorted)
    (h' : KeyedFirst descending key items sorted') : sorted = sorted' := by
  refine eq_of_stable (fun a b hab hba => ?_) (h.perm.trans h'.perm.symm)
    (fun k => (h.stable k).trans (h'.stable k).symm) h.ordered h'.ordered
  cases hkey : key b with
  | none =>
    cases hkey' : key a with
    | none => rfl
    | some k =>
      obtain ⟨l, hl, -⟩ := hba k hkey'
      rw [hkey] at hl
      cases hl
  | some l =>
    obtain ⟨k, hk, hle⟩ := hab l hkey
    obtain ⟨l', hl', hge⟩ := hba k hk
    obtain rfl := Option.some.inj (hkey.symm.trans hl')
    rw [hk]
    cases descending with
    | true => exact congrArg some (le_antisymm hge hle)
    | false => exact congrArg some (le_antisymm hle hge)

/-- What a filter leaves of a list in order is in order. -/
theorem KeyedFirst.filter (h : KeyedFirst descending key items sorted) (p : Value → Bool) :
    KeyedFirst descending key (items.filter p) (sorted.filter p) where
  perm := h.perm.filter p
  ordered := h.ordered.filter p
  stable k := by
    rw [List.filter_comm, h.stable k, List.filter_comm]

end Ordered

/-! ## One list -/

/-- The condition of a filter can be told for each of the items. -/
def Tells (sieve : Node) (scopes : Scopes) (items : List Value) : Prop :=
  ∀ item ∈ items, ∃ pass, passes sieve scopes item = .ok pass

/-- Whether a filter keeps an item. -/
def isKept (sieve : Node) (scopes : Scopes) (item : Value) : Bool :=
  (passes sieve scopes item).toOption.getD false

theorem keepPassing_eq (h : Tells sieve scopes items) :
    keepPassing sieve scopes items = .ok (items.filter (isKept sieve scopes)) := by
  induction items with
  | nil => rfl
  | cons item rest ih =>
    obtain ⟨pass, hpass⟩ := h item List.mem_cons_self
    have hkept : isKept sieve scopes item = pass := by
      rw [isKept, hpass]
      rfl
    rw [keepPassing, hpass, Attempt.ok_bind, ih fun x hx => h x (List.mem_cons_of_mem _ hx),
      Attempt.ok_bind, List.filter_cons, hkept]
    cases pass <;> rfl

theorem HasKeys.filter (h : HasKeys scopes field read items) (p : Value → Bool) :
    HasKeys scopes field read (items.filter p) :=
  fun item hitem => h item (List.mem_filter.1 hitem).1

theorem Uniform.filter (h : Uniform scopes field items) (p : Value → Bool) :
    Uniform scopes field (items.filter p) :=
  h.imp (·.filter p) (·.filter p)

section Settings

variable {settings : Fields} {mark : Option Stamp}
variable (hsettings : sorter.settings = .dict settings mark)
variable (hfield : settings.lookup (.text "field") = some field)
include hsettings hfield

theorem sortItems_filter_of_hasKeys [LinearOrder β] (weighs : Weighs scopes read)
    (null : read .null = none) (h : HasKeys scopes field read items) (p : Value → Bool) :
    ∃ sorted, sortItems sorter scopes items = .ok sorted ∧
      sortItems sorter scopes (items.filter p) = .ok (sorted.filter p) := by
  obtain ⟨sorted, hsorted, hfirst⟩ := sortItems_keyedFirst hsettings hfield weighs null h
  obtain ⟨left, hleft, hfirst'⟩ :=
    sortItems_keyedFirst hsettings hfield weighs null (h.filter p)
  exact ⟨sorted, hsorted, by rw [hleft, hfirst'.unique (hfirst.filter p)]⟩

/-- **To sort what a filter leaves is to filter what is sorted.** -/
theorem sortItems_filter (h : Uniform scopes field items) (p : Value → Bool) :
    ∃ sorted, sortItems sorter scopes items = .ok sorted ∧
      sortItems sorter scopes (items.filter p) = .ok (sorted.filter p) := by
  rcases h with h | h
  · exact sortItems_filter_of_hasKeys hsettings hfield weighs_integer rfl h p
  · exact sortItems_filter_of_hasKeys hsettings hfield weighs_text rfl h p

end Settings

theorem SortedFor.perm {settings : Fields} (h : SortedFor settings scopes field items sorted)
    (huniform : Uniform scopes field items) : sorted.Perm items := by
  rcases huniform with hkeys | hkeys
  · exact (h.integers hkeys).perm
  · exact (h.texts hkeys).perm

theorem Tells.perm (h : Tells sieve scopes items) (hperm : sorted.Perm items) :
    Tells sieve scopes sorted :=
  fun item hitem => h item (hperm.subset hitem)

/-! ## The two nodes -/

/-- The items of an output. -/
def itemsOf? : Value → Option (List Value)
  | .dict entries _ =>
    match entries.lookup (.text "items") with
    | some (.list items _) => some items
    | _ => none
  | _ => none

/-- The bench with an output as the one before. -/
def afterOutput (bench : Bench) (output : Value) : Bench :=
  { bench with state := bench.state.setPrevious output }

/-- What is made of a list stands under the name of the list. -/
theorem lookup_mapsList {made : List Value → List Value → Prop} {entries entries' : Fields} {k : Key}
    {mark : Option Stamp} (h : List.Forall₂ (MapsList made) entries entries')
    (hlookup : entries.lookup k = some (.list items mark)) :
    ∃ items', entries'.lookup k = some (.list items') ∧ made items items' := by
  induction h with
  | nil => cases hlookup
  | @cons e e' rest rest' he _ ih =>
    obtain ⟨k₁, v⟩ := e
    obtain ⟨k₂, v'⟩ := e'
    obtain ⟨hk, hv⟩ := he
    obtain rfl : k₂ = k₁ := hk
    rw [List.lookup_cons] at hlookup ⊢
    cases hkey : k == k₂ with
    | true =>
      rw [hkey] at hlookup
      obtain rfl := Option.some.inj hlookup
      obtain ⟨items', rfl, hmade⟩ := hv
      exact ⟨items', rfl, hmade⟩
    | false =>
      rw [hkey] at hlookup
      exact ih hlookup

/-- If something can be made of each list among some entries, it stands under the name of the list
that it was made of. -/
theorem mapLists_lookup {f : List Value → Attempt (List Value)} {entries : Fields} {k : Key}
    {mark : Option Stamp} (hf : ∀ e ∈ entries, ∀ xs mark, e.2 = .list xs mark → ∃ xs', f xs = .ok xs')
    (hlookup : entries.lookup k = some (.list items mark)) (hitems : f items = .ok sorted) :
    ∃ entries', mapLists f entries = .ok entries' ∧ entries'.lookup k = some (.list sorted) := by
  obtain ⟨entries', hentries, hmaps⟩ : ∃ entries', mapLists f entries = .ok entries' ∧
      List.Forall₂ (MapsList fun xs xs' => f xs = .ok xs') entries entries' :=
    mapLists_succeeds fun e he xs mark hlist => (hf e he xs mark hlist).imp fun _ h => ⟨h, h⟩
  obtain ⟨items', hitems', hmade⟩ := lookup_mapsList hmaps hlookup
  obtain rfl := Except.ok.inj (hmade.symm.trans hitems)
  exact ⟨entries', hentries, hitems'⟩

section Execute

variable {bench : Bench}

theorem runFilter_list {kept : List Value} {mark : Option Stamp}
    (hprevious : bench.state.previous = .list items mark)
    (hkept : keepPassing sieve bench.state.toScopes items = .ok kept) :
    (runFilter sieve).runOn bench = (.ok (.plain (.object [("filtered", .bool true),
      ("originalCount", .int items.length), ("filteredCount", .int kept.length),
      ("items", .list kept)])), bench) := by
  unfold runFilter
  rw [Act.runOn_state_bind]
  simp only [hprevious, hkept]
  rw [Act.runOn_ofAttempt_bind]
  rfl

theorem runFilter_object {entries entries' : Fields} {mark : Option Stamp}
    (hprevious : bench.state.previous = .dict entries mark)
    (hkept : mapLists (keepPassing sieve bench.state.toScopes) entries = .ok entries') :
    (runFilter sieve).runOn bench = (.ok (.plain (.dict entries')), bench) := by
  unfold runFilter
  rw [Act.runOn_state_bind]
  simp only [hprevious, Value.entries?, hkept]
  rw [Act.runOn_ofAttempt_bind]
  rfl

theorem runFilter_fails {entries : Fields} {mark : Option Stamp} {failure : Failure}
    (hprevious : bench.state.previous = .dict entries mark)
    (hfails : mapLists (keepPassing sieve bench.state.toScopes) entries = .error failure) :
    (runFilter sieve).runOn bench = (.error failure, bench) := by
  unfold runFilter
  rw [Act.runOn_state_bind]
  simp only [hprevious, Value.entries?, hfails]
  rfl

/-- A sort of what a filter puts out sorts the items. -/
theorem runSort_filtered (bench : Bench) {kept both : List Value} {count : Nat}
    (hprevious : bench.state.previous = .object [("filtered", .bool true),
      ("originalCount", .int count), ("filteredCount", .int kept.length), ("items", .list kept)])
    (hboth : sortItems sorter bench.state.toScopes kept = .ok both) :
    ∃ output, (runSort sorter).runOn bench = (.ok (.plain output), bench) ∧
      itemsOf? output = some both := by
  obtain ⟨entries, hdict, hitems, hlists⟩ : ∃ entries, bench.state.previous = .dict entries ∧
      entries.lookup (.text "items") = some (.list kept) ∧
      ∀ e ∈ entries, ∀ xs mark, e.2 = .list xs mark → xs = kept := by
    refine ⟨_, hprevious, rfl, fun e he xs mark hlist => ?_⟩
    simp only [List.map_cons, List.map_nil, List.mem_cons, List.not_mem_nil, or_false] at he
    rcases he with rfl | rfl | rfl | rfl <;> cases hlist
    rfl
  obtain ⟨entries', hmapped, hitems'⟩ := mapLists_lookup
    (fun e he xs mark hlist => ⟨both, hlists e he xs mark hlist ▸ hboth⟩) hitems hboth
  refine ⟨.dict entries', runSort_object ?_ hmapped, ?_⟩
  · rw [hdict]
    rfl
  · rw [itemsOf?, hitems']

/-- A filter of what a sort puts out filters the items, and the direction if that is a list. -/
theorem runFilter_sorted (bench : Bench) {direction : Value}
    (hprevious : bench.state.previous = .object [("sorted", .bool true), ("direction", direction),
      ("items", .list sorted)])
    (hsorted : Tells sieve bench.state.toScopes sorted)
    (hdirection : ∀ others mark, direction = .list others mark →
      Tells sieve bench.state.toScopes others) :
    ∃ output, (runFilter sieve).runOn bench = (.ok (.plain output), bench) ∧
      itemsOf? output = some (sorted.filter (isKept sieve bench.state.toScopes)) := by
  obtain ⟨entries, hdict, hitems, hlists⟩ : ∃ entries, bench.state.previous = .dict entries ∧
      entries.lookup (.text "items") = some (.list sorted) ∧
      ∀ e ∈ entries, ∀ xs mark, e.2 = .list xs mark → Tells sieve bench.state.toScopes xs := by
    refine ⟨_, hprevious, rfl, fun e he xs mark hlist => ?_⟩
    simp only [List.map_cons, List.map_nil, List.mem_cons, List.not_mem_nil, or_false] at he
    rcases he with rfl | rfl | rfl
    · cases hlist
    · exact hdirection xs mark hlist
    · obtain ⟨rfl, -⟩ := Value.list.inj hlist
      exact hsorted
  obtain ⟨entries', hmapped, hitems'⟩ := mapLists_lookup
    (fun e he xs mark hlist => ⟨_, keepPassing_eq (hlists e he xs mark hlist)⟩) hitems
    (keepPassing_eq hsorted)
  exact ⟨.dict entries', runFilter_object hdict hmapped, by rw [itemsOf?, hitems']⟩

/-- **A filtering and a sorting node commute on a list**: each applied to the output of the other
gives the same items, if the filter can tell its condition for the items and, where the direction of
the sort is a list, for what that holds. -/
theorem execute_filter_sort (sieve sorter : Node) (settings : Fields) (mark mark' : Option Stamp)
    (field : Value) (bench : Bench) (items : List Value) (hsieve : sieve.cls.kind = .filter)
    (hsorter : sorter.cls.kind = .sort) (hsettings : sorter.settings = .dict settings mark)
    (hfield : settings.lookup (.text "field") = some field)
    (hprevious : bench.state.previous = .list items mark')
    (huniform : Uniform bench.state.toScopes field items)
    (htells : Tells sieve bench.state.toScopes items)
    (hdirection : ∀ others mark, settings.lookup (.text "direction") = some (.list others mark) →
      Tells sieve bench.state.toScopes others) :
    ∃ filtered sorted filteredSorted sortedFiltered both,
      sieve.execute.runOn bench = (.ok (.plain filtered), bench) ∧
      sorter.execute.runOn (afterOutput bench filtered) =
        (.ok (.plain filteredSorted), afterOutput bench filtered) ∧
      sorter.execute.runOn bench = (.ok (.plain sorted), bench) ∧
      sieve.execute.runOn (afterOutput bench sorted) =
        (.ok (.plain sortedFiltered), afterOutput bench sorted) ∧
      itemsOf? filteredSorted = some both ∧ itemsOf? sortedFiltered = some both ∧
      SortedFor settings bench.state.toScopes field
        (items.filter (isKept sieve bench.state.toScopes)) both := by
  have hsieve' : sieve.execute = runFilter sieve := by
    rw [execute, hsieve]
  have hsorter' : sorter.execute = runSort sorter := by
    rw [execute, hsorter]
  obtain ⟨sorted, hsorted, hboth⟩ :=
    sortItems_filter hsettings hfield huniform (isKept sieve bench.state.toScopes)
  obtain ⟨sorted', hsorted', hfor⟩ := sortItems_sortedFor hsettings hfield huniform
  obtain rfl := Except.ok.inj (hsorted'.symm.trans hsorted)
  obtain ⟨both, hboth', hforBoth⟩ := sortItems_sortedFor hsettings hfield
    (huniform.filter (isKept sieve bench.state.toScopes))
  obtain rfl := Except.ok.inj (hboth'.symm.trans hboth)
  have hlisted : ∀ others mark, (settings.lookup (.text "direction")).getD (.text "asc") =
      .list others mark → Tells sieve bench.state.toScopes others := by
    intro others mark hd
    cases hlookup : settings.lookup (.text "direction") with
    | none =>
      rw [hlookup] at hd
      cases hd
    | some d =>
      rw [hlookup] at hd
      exact hdirection others mark (hlookup.trans (congrArg some hd))
  rw [hsieve', hsorter']
  have hfiltered := runFilter_list hprevious (keepPassing_eq htells)
  have hordered := runSort_list hsettings hprevious hsorted
  obtain ⟨filteredSorted, hrunSort, hitemsSort⟩ := runSort_filtered (afterOutput bench _) rfl hboth
  obtain ⟨sortedFiltered, hrunFilter, hitemsFilter⟩ := runFilter_sorted (afterOutput bench _) rfl
    (htells.perm (hfor.perm huniform)) hlisted
  exact ⟨_, _, filteredSorted, sortedFiltered, _, hfiltered, hrunSort, hordered, hrunFilter,
    hitemsSort, hitemsFilter, hforBoth⟩

end Execute

/-- A filter that keeps the items whose name is not c. -/
def unlessC : Node where
  id := .text "f"
  type := .text "filter"
  label := .text "f"
  settings := .object [("field", .text "name"), ("operator", .text "not_equals"),
    ("value", .text "c")]
  cls := { name := "FilterNode", kind := .filter }

theorem unlessC_tells : Tells unlessC {} tiedItems := by
  intro item hitem
  simp only [tiedItems, List.mem_cons, List.not_mem_nil, or_false] at hitem
  rcases hitem with rfl | rfl | rfl | rfl
  · exact ⟨true, by rfl⟩
  · exact ⟨true, by rfl⟩
  · exact ⟨false, by rfl⟩
  · exact ⟨true, by rfl⟩

theorem execute_filter_sort_byNameDescending :
    ∃ filtered sorted filteredSorted sortedFiltered both,
      unlessC.execute.runOn (benchBefore (.list tiedItems)) =
        (.ok (.plain filtered), benchBefore (.list tiedItems)) ∧
      byNameDescending.execute.runOn (afterOutput (benchBefore (.list tiedItems)) filtered) =
        (.ok (.plain filteredSorted), afterOutput (benchBefore (.list tiedItems)) filtered) ∧
      byNameDescending.execute.runOn (benchBefore (.list tiedItems)) =
        (.ok (.plain sorted), benchBefore (.list tiedItems)) ∧
      unlessC.execute.runOn (afterOutput (benchBefore (.list tiedItems)) sorted) =
        (.ok (.plain sortedFiltered), afterOutput (benchBefore (.list tiedItems)) sorted) ∧
      itemsOf? filteredSorted = some both ∧ itemsOf? sortedFiltered = some both ∧
      KeyedFirst true (keyBy {} (.text "name") Value.text?) (tiedItems.filter (isKept unlessC {}))
        both := by
  obtain ⟨filtered, sorted, filteredSorted, sortedFiltered, both, hfilter, hfilterSort, hsort,
      hsortFilter, hboth, hboth', hfor⟩ :=
    execute_filter_sort unlessC byNameDescending _ none none (.text "name")
      (benchBefore (.list tiedItems)) tiedItems rfl rfl rfl rfl rfl (.inr tiedItems_hasKeys)
      unlessC_tells (fun _ _ h => nomatch Option.some.inj h)
  exact ⟨filtered, sorted, filteredSorted, sortedFiltered, both, hfilter, hfilterSort, hsort,
    hsortFilter, hboth, hboth', hfor.texts (tiedItems_hasKeys.filter _)⟩

/-- A sort by `n` whose direction is a list that holds a number too large to be compared. -/
def withListedDirection : Node where
  id := .text "s"
  type := .text "sort"
  label := .text "s"
  settings := .object [("field", .text "n"),
    ("direction", .list [.object [("n", .int Number.overflowBound)]])]
  cls := { name := "SortNode", kind := .sort }

/-- A filter that keeps the items whose `n` is greater than 1. -/
def aboveOne : Node where
  id := .text "f"
  type := .text "filter"
  label := .text "f"
  settings := .object [("field", .text "n"), ("operator", .text "greater_than"), ("value", .int 1)]
  cls := { name := "FilterNode", kind := .filter }

/-- Three items with numbers. -/
def numberedItems : List Value :=
  [.object [("n", .int 2)], .object [("n", .int 1)], .object [("n", .int 3)]]

theorem numberedItems_hasKeys : HasKeys {} (.text "n") Value.integer? numberedItems := by
  intro item hitem
  simp only [numberedItems, List.mem_cons, List.not_mem_nil, or_false] at hitem
  rcases hitem with rfl | rfl | rfl
  · exact ⟨.int 2, by rfl, .inr rfl⟩
  · exact ⟨.int 1, by rfl, .inr rfl⟩
  · exact ⟨.int 3, by rfl, .inr rfl⟩

section Large

-- The bounds on integers are no terms to compute with.
attribute [local irreducible] Number.ofInt? longIntegerBound

theorem passes_aboveOne (n : Int) : passes aboveOne {} (.object [("n", .int n)]) =
    integerText n >>= fun _ => (Value.int n).toNumber >>= fun x =>
      (Value.int 1).toNumber >>= fun y => .ok (decide (y < x)) := by
  rfl

end Large

theorem numberedItems_tells : Tells aboveOne {} numberedItems := by
  have htold : ∀ n : Int, (Value.int n).isOutsized = false → n.natAbs < longIntegerBound →
      ∃ pass, passes aboveOne {} (.object [("n", .int n)]) = .ok pass := by
    intro n hfits hshort
    rw [passes_aboveOne, integerText_short hshort, Value.toNumber_of_fits hfits,
      Value.toNumber_of_fits (by decide +kernel)]
    exact ⟨_, rfl⟩
  intro item hitem
  simp only [numberedItems, List.mem_cons, List.not_mem_nil, or_false] at hitem
  rcases hitem with rfl | rfl | rfl
  · exact htold 2 (by decide +kernel) (by decide +kernel)
  · exact htold 1 (by decide +kernel) (by decide +kernel)
  · exact htold 3 (by decide +kernel) (by decide +kernel)

theorem aboveOne_overflows :
    passes aboveOne {} (.object [("n", .int Number.overflowBound)]) = .fault .tooLarge := by
  rw [passes_aboveOne, integerText_short (by decide +kernel),
    Value.toNumber_of_outsized (Value.isOutsized_int.2 (Int.natAbs_natCast _).ge)]
  rfl

/-- **Where the direction of a sort is a list the two nodes need not commute**: a filter that can
tell its condition for all items cannot for what the direction holds, and fails behind the sort,
but not in front of it. -/
theorem listedDirection_fails :
    Uniform {} (.text "n") numberedItems ∧ Tells aboveOne {} numberedItems ∧
    (∃ filtered filteredSorted both,
      aboveOne.execute.runOn (benchBefore (.list numberedItems)) =
        (.ok (.plain filtered), benchBefore (.list numberedItems)) ∧
      withListedDirection.execute.runOn (afterOutput (benchBefore (.list numberedItems)) filtered) =
        (.ok (.plain filteredSorted), afterOutput (benchBefore (.list numberedItems)) filtered) ∧
      itemsOf? filteredSorted = some both) ∧
    ∃ sorted, withListedDirection.execute.runOn (benchBefore (.list numberedItems)) =
        (.ok (.plain sorted), benchBefore (.list numberedItems)) ∧
      aboveOne.execute.runOn (afterOutput (benchBefore (.list numberedItems)) sorted) =
        (.error (.data .tooLarge), afterOutput (benchBefore (.list numberedItems)) sorted) := by
  have huniform : Uniform {} (.text "n") numberedItems := .inl numberedItems_hasKeys
  obtain ⟨sorted, hsorted, hboth⟩ : ∃ sorted, sortItems withListedDirection {} numberedItems =
      .ok sorted ∧ sortItems withListedDirection {} (numberedItems.filter (isKept aboveOne {})) =
        .ok (sorted.filter (isKept aboveOne {})) :=
    sortItems_filter rfl rfl huniform (isKept aboveOne {})
  have hfilter : aboveOne.execute = runFilter aboveOne := rfl
  have hsort : withListedDirection.execute = runSort withListedDirection := rfl
  rw [hfilter, hsort]
  obtain ⟨filteredSorted, hrun, hitems⟩ := runSort_filtered
    (afterOutput (benchBefore (.list numberedItems)) _) rfl hboth
  refine ⟨huniform, numberedItems_tells,
    ⟨_, filteredSorted, _, runFilter_list rfl (keepPassing_eq numberedItems_tells), hrun, hitems⟩,
    _, runSort_list rfl rfl hsorted, ?_⟩
  have hfails : keepPassing aboveOne {} [.object [("n", .int Number.overflowBound)]] =
      .error (.data .tooLarge) := by
    rw [keepPassing, aboveOne_overflows]
    rfl
  have hmaps : mapLists (keepPassing aboveOne {}) [(.text "sorted", .bool true),
      (.text "direction", .list [.object [("n", .int Number.overflowBound)]]),
      (.text "items", .list sorted)] = .error (.data .tooLarge) := by
    simp only [mapLists, hfails]
    rfl
  exact runFilter_fails rfl hmaps

end WorkflowEngine.Node
