import Mathlib.Algebra.BigOperators.Intervals
import Mathlib.Algebra.Order.BigOperators.Group.Finset
import Mathlib.Algebra.Order.BigOperators.Group.List
import Mathlib.Data.List.Chain
import Mathlib.Logic.Relation
import WorkflowEngine.Graph

/-!
# The body of a node

The body of a node is what edges lead to from it, itself apart (`mem_body_iff`): the search for it
follows each edge at most once, so its steps are enough. A node of the body may be led to on several
ways. Where no way from the node leads in a circle there are only finitely many of them, each no
longer than the body (`ways_eq_zero`), and `arrivals` counts them.
-/

namespace WorkflowEngine.Graph

variable {graph : Graph}

/-- An edge leads from one node to another, a known one. -/
def Leads (graph : Graph) (id target : Key) : Prop := target ∈ graph.targets id

/-- Whatever branch is chosen, only edges of the node are followed. -/
theorem targets_subset (graph : Graph) (id : Key) (branch : Value) :
    graph.targets id branch ⊆ graph.targets id := by
  intro target htarget
  obtain ⟨e, he, rfl⟩ := List.mem_map.1 htarget
  obtain ⟨hmem, htakes⟩ := List.mem_filter.1 he
  simp only [Bool.and_eq_true] at htakes
  have hany : takes .null e = true := rfl
  exact List.mem_map_of_mem (List.mem_filter.2 ⟨hmem, by simp only [htakes, hany, Bool.and_self]⟩)

/-! ## The search -/

/-- How many edges do not begin at one of some nodes. -/
def unfollowed (graph : Graph) (done : List Key) : Nat :=
  graph.edges.countP fun e => decide (e.source ∉ done)

/-- A node that is done takes its edges from those that are left. -/
theorem length_targets_add_unfollowed (graph : Graph) {id : Key} {done : List Key}
    (hnew : id ∉ done) :
    (graph.targets id).length + graph.unfollowed (id :: done) ≤ graph.unfollowed done := by
  have hlength : (graph.targets id).length =
      graph.edges.countP fun e => e.source == id && takes .null e && graph.contains e.target := by
    rw [targets, List.length_map, List.countP_eq_length_filter]
  rw [hlength, unfollowed, unfollowed]
  generalize graph.contains = known
  induction graph.edges with
  | nil => exact Nat.le_refl 0
  | cons e rest ih =>
    rw [List.countP_cons, List.countP_cons, List.countP_cons]
    by_cases hsource : e.source = id
    · have hleft : decide (e.source ∉ done) = true := decide_eq_true (hsource ▸ hnew)
      have htaken : decide (e.source ∉ id :: done) = false := by simp [hsource]
      rw [hleft, htaken]
      split <;> simp only [if_true, Bool.false_eq_true, if_false] <;> omega
    · have hsame : decide (e.source ∉ id :: done) = decide (e.source ∉ done) := by simp [hsource]
      rw [hsame, beq_false_of_ne hsource]
      simp only [Bool.false_and, Bool.false_eq_true, if_false]
      omega

/-- At the start of a search there are enough steps for what is left to it. -/
theorem length_targets_add_unfollowed_le (graph : Graph) (id : Key) :
    (graph.targets id).length + graph.unfollowed [id] ≤ graph.edges.length := by
  have hcost := length_targets_add_unfollowed graph (List.not_mem_nil (a := id))
  have hall : graph.unfollowed [] ≤ graph.edges.length := List.countP_le_length
  exact hcost.trans hall

/-- What a search has found and what it has still to look at. Nothing is found twice, everything is
reached from where the search began, and what edges lead to from what is found is found or to be
looked at. -/
structure Searching (graph : Graph) (start : Key) (found queue : List Key) : Prop where
  once : (found ++ [start]).Nodup
  reached : ∀ id ∈ found ++ queue, Relation.TransGen graph.Leads start id
  followed : ∀ id ∈ found ++ [start], ∀ target, graph.Leads id target →
    target ∈ found ++ [start] ∨ target ∈ queue

/-- A node that is found already, or began the search, is passed over. -/
theorem Searching.pass {start id : Key} {found queue : List Key}
    (h : graph.Searching start found (id :: queue)) (hold : id ∈ found ++ [start]) :
    graph.Searching start found queue where
  once := h.once
  reached x hx := h.reached x <|
    List.mem_append.2 ((List.mem_append.1 hx).imp_right (List.mem_cons_of_mem _))
  followed x hx target hleads := by
    rcases h.followed x hx target hleads with hfound | hqueue
    · exact .inl hfound
    · rcases List.mem_cons.1 hqueue with rfl | hqueue
      · exact .inl hold
      · exact .inr hqueue

/-- Any other is found, and what it leads to is looked at in its turn. -/
theorem Searching.find {start id : Key} {found queue : List Key}
    (h : graph.Searching start found (id :: queue)) (hnew : id ∉ found ++ [start]) :
    graph.Searching start (id :: found) (queue ++ graph.targets id) where
  once := List.nodup_cons.2 ⟨hnew, h.once⟩
  reached x hx := by
    have hid : Relation.TransGen graph.Leads start id := h.reached id (by simp)
    simp only [List.cons_append, List.mem_cons, List.mem_append] at hx
    rcases hx with rfl | hx | hx | hx
    · exact hid
    · exact h.reached x (by simp [hx])
    · exact h.reached x (by simp [hx])
    · exact hid.tail hx
  followed x hx target hleads := by
    rcases List.mem_cons.1 hx with rfl | hx
    · exact .inr (List.mem_append_right _ hleads)
    · rcases h.followed x hx target hleads with hfound | hqueue
      · exact .inl (List.mem_cons_of_mem _ hfound)
      · rcases List.mem_cons.1 hqueue with rfl | hqueue
        · exact .inl List.mem_cons_self
        · exact .inr (List.mem_append_left _ hqueue)

/-- A search with a step for each node to look at and for each edge that is left comes to its end.
-/
theorem search_searching {start : Key} (fuel : Nat) : ∀ (found queue : List Key),
    graph.Searching start found queue →
    queue.length + graph.unfollowed (found ++ [start]) ≤ fuel →
    graph.Searching start (graph.search start fuel found queue) [] := by
  induction fuel with
  | zero =>
    intro found queue h hfuel
    have hqueue : queue = [] := List.eq_nil_of_length_eq_zero (by omega)
    rw [hqueue] at h
    exact h
  | succ fuel ih =>
    intro found queue h hfuel
    cases queue with
    | nil => exact h
    | cons id queue =>
      rw [List.length_cons] at hfuel
      have hold : (found.contains id || id == start) = true ↔ id ∈ found ++ [start] := by simp
      unfold search
      split
      · rename_i hfound
        exact ih found queue (h.pass (hold.1 hfound)) (by omega)
      · rename_i hfound
        have hnew : id ∉ found ++ [start] := fun hid => hfound (hold.2 hid)
        -- the targets that are added are paid for by the edges that are no longer left
        have hcost := length_targets_add_unfollowed graph hnew
        refine ih (id :: found) _ (h.find hnew) ?_
        rw [List.length_append, List.cons_append]
        omega

theorem body_searching (graph : Graph) (id : Key) : graph.Searching id (graph.body id) [] := by
  refine search_searching graph.edges.length [] (graph.targets id) ⟨by simp, ?_, ?_⟩ ?_
  · exact fun target hleads => .single hleads
  · intro x hx target hleads
    rw [List.nil_append, List.mem_singleton] at hx
    exact .inr (hx ▸ hleads)
  · exact length_targets_add_unfollowed_le graph id

theorem body_nodup (graph : Graph) (id : Key) : (graph.body id).Nodup :=
  (List.nodup_append.1 (body_searching graph id).once).1

theorem not_mem_body (graph : Graph) (id : Key) : id ∉ graph.body id := by
  intro hid
  exact (List.nodup_append.1 (body_searching graph id).once).2.2 id hid id List.mem_cons_self rfl

/-- **The body of a node is what edges lead to from it, itself apart.** -/
theorem mem_body_iff {id target : Key} :
    target ∈ graph.body id ↔ Relation.TransGen graph.Leads id target ∧ target ≠ id := by
  have h := body_searching graph id
  constructor
  · intro htarget
    refine ⟨h.reached target (List.mem_append_left _ htarget), fun heq => ?_⟩
    exact not_mem_body graph id (heq ▸ htarget)
  · rintro ⟨hreached, hother⟩
    have hfound : target ∈ graph.body id ++ [id] := by
      clear hother
      induction hreached with
      | single hleads => exact (h.followed id (by simp) _ hleads).resolve_right (by simp)
      | tail _ hleads ih => exact (h.followed _ ih _ hleads).resolve_right (by simp)
    exact (List.mem_append.1 hfound).resolve_right fun hid => hother (List.mem_singleton.1 hid)

/-- The body of a node has no more nodes than there are edges. -/
theorem length_body_le (graph : Graph) (id : Key) :
    (graph.body id).length ≤ graph.edges.length := by
  have hsubset : graph.body id ⊆ graph.edges.map Edge.target := by
    intro target htarget
    obtain ⟨source, _, hleads⟩ := Relation.TransGen.tail'_iff.1 (mem_body_iff.1 htarget).1
    obtain ⟨e, he, rfl⟩ := List.mem_map.1 hleads
    exact List.mem_map_of_mem (List.mem_filter.1 he).1
  have hlength := ((body_nodup graph id).subperm hsubset).length_le
  rwa [List.length_map] at hlength

/-! ## Ways without circles -/

/-- No way from a node leads in a circle. -/
def Circleless (graph : Graph) (start : Key) : Prop :=
  ∀ id, Relation.ReflTransGen graph.Leads start id → ¬ Relation.TransGen graph.Leads id id

theorem Circleless.mem_body {start target : Key} (h : graph.Circleless start)
    (hreached : Relation.TransGen graph.Leads start target) : target ∈ graph.body start :=
  mem_body_iff.2 ⟨hreached, fun heq => h start .refl (heq ▸ hreached)⟩

theorem Circleless.tail {start id : Key} (h : graph.Circleless start)
    (hreached : Relation.ReflTransGen graph.Leads start id) : graph.Circleless id :=
  fun target htarget => h target (hreached.trans htarget)

/-- Without circles what an edge leads to has the smaller body. -/
theorem Circleless.length_body_lt {start target : Key} (h : graph.Circleless start)
    (hleads : graph.Leads start target) : (graph.body target).length < (graph.body start).length := by
  have hnodup : (target :: graph.body target).Nodup :=
    List.nodup_cons.2 ⟨not_mem_body graph target, body_nodup graph target⟩
  have hsubset : target :: graph.body target ⊆ graph.body start := by
    intro id hid
    rcases List.mem_cons.1 hid with rfl | hid
    · exact h.mem_body (.single hleads)
    · exact h.mem_body (.head hleads (mem_body_iff.1 hid).1)
  exact (hnodup.subperm hsubset).length_le

/-- Where all edges from a node and its body lead on in the order of the definitions, no way from
the node leads in a circle. -/
theorem circleless_of_forward_below {start : Key}
    (h : graph.edges.all fun e => !(start :: graph.body start).contains e.source ||
      decide (graph.nodes.findIdx (fun d => d.id == e.source) <
        graph.nodes.findIdx fun d => d.id == e.target)) : graph.Circleless start := by
  have hleads : ∀ id target, Relation.ReflTransGen graph.Leads start id → graph.Leads id target →
      graph.nodes.findIdx (fun d => d.id == id) < graph.nodes.findIdx fun d => d.id == target := by
    intro id target hreached htarget
    have hid : id ∈ start :: graph.body start := by
      by_cases hstart : id = start
      · exact hstart ▸ List.mem_cons_self
      · have hway := (Relation.reflTransGen_iff_eq_or_transGen.1 hreached).resolve_left hstart
        exact List.mem_cons_of_mem _ (mem_body_iff.2 ⟨hway, hstart⟩)
    obtain ⟨e, he, rfl⟩ := List.mem_map.1 htarget
    obtain ⟨hmem, htakes⟩ := List.mem_filter.1 he
    simp only [Bool.and_eq_true, beq_iff_eq] at htakes
    obtain ⟨⟨rfl, _⟩, _⟩ := htakes
    have hforward := List.all_eq_true.1 h e hmem
    rw [List.contains_iff_mem.2 hid] at hforward
    exact of_decide_eq_true hforward
  intro id hid hcircle
  have hlt : ∀ target, Relation.TransGen graph.Leads id target →
      graph.nodes.findIdx (fun d => d.id == id) < graph.nodes.findIdx fun d => d.id == target := by
    intro target hreached
    induction hreached with
    | single hstep => exact hleads _ _ hid hstep
    | tail hway hstep ih => exact ih.trans (hleads _ _ (hid.trans hway.to_reflTransGen) hstep)
  exact Nat.lt_irrefl _ (hlt id hcircle)

/-- Where all edges lead on in the order of the definitions there is no circle. -/
theorem circleless_of_forward
    (h : graph.edges.all fun e => decide (graph.nodes.findIdx (fun d => d.id == e.source) <
      graph.nodes.findIdx fun d => d.id == e.target)) (start : Key) : graph.Circleless start := by
  refine circleless_of_forward_below (List.all_eq_true.2 fun e he => ?_)
  rw [List.all_eq_true.1 h e he, Bool.or_true]

/-- On how many ways of so many edges one node is reached from another. -/
def ways (graph : Graph) : (length : Nat) → (source target : Key) → Nat
  | 0, source, target => if source = target then 1 else 0
  | length + 1, source, target =>
    ((graph.targets source).map fun next => graph.ways length next target).sum

/-- On how many ways one node is reached from another, as far as they are no longer than the body of
the other has nodes. -/
def arrivals (graph : Graph) (source target : Key) : Nat :=
  ∑ k ∈ Finset.range (graph.body source).length, graph.ways (k + 1) source target

/-- A way is a row of nodes. -/
theorem exists_chain_of_ways {length : Nat} {source target : Key}
    (h : graph.ways length source target ≠ 0) :
    ∃ row : List Key, row.length = length ∧ (source :: row).IsChain graph.Leads := by
  induction length generalizing source with
  | zero => exact ⟨[], rfl, List.isChain_singleton _⟩
  | succ length ih =>
    obtain ⟨ways, hways, hne⟩ : ∃ x ∈ (graph.targets source).map fun next =>
        graph.ways length next target, x ≠ 0 := by
      by_contra hall
      refine h (List.sum_eq_zero fun x hx => ?_)
      by_contra hne
      exact hall ⟨x, hx, hne⟩
    obtain ⟨next, hnext, rfl⟩ := List.mem_map.1 hways
    obtain ⟨row, hlength, hchain⟩ := ih hne
    exact ⟨next :: row, congrArg Nat.succ hlength, List.isChain_cons_cons.2 ⟨hnext, hchain⟩⟩

/-- **Without circles no way is longer than the body has nodes**, for it never comes to a node of
the body twice. -/
theorem Circleless.ways_eq_zero {start : Key} (h : graph.Circleless start) {length : Nat}
    (hlong : (graph.body start).length < length) (target : Key) :
    graph.ways length start target = 0 := by
  by_contra hne
  obtain ⟨row, hlength, hchain⟩ := exists_chain_of_ways hne
  -- every node of the row leads to all later ones, so one that came twice would lie on a circle
  have hpairs : (start :: row).Pairwise (Relation.TransGen graph.Leads) :=
    (hchain.imp fun _ _ => Relation.TransGen.single).pairwise
  obtain ⟨hreached, hrow⟩ := List.pairwise_cons.1 hpairs
  have hbody : row ⊆ graph.body start := fun id hid => h.mem_body (hreached id hid)
  have hnodup : row.Nodup := by
    refine (List.Pairwise.and_mem.1 hrow).imp fun {a b} hab heq => ?_
    obtain ⟨ha, _, hway⟩ := hab
    exact h a (hreached a ha).to_reflTransGen (heq ▸ hway)
  have := (hnodup.subperm hbody).length_le
  omega

/-- What is reached is reached on some way. -/
theorem exists_ways_of_reached {source target : Key}
    (h : Relation.TransGen graph.Leads source target) :
    ∃ k, graph.ways (k + 1) source target ≠ 0 := by
  induction h using Relation.TransGen.head_induction_on with
  | single hleads =>
    have hlast : graph.ways 0 target target ≠ 0 := by simp [ways]
    exact ⟨0, fun hzero => hlast (List.sum_eq_zero_iff.1 hzero _ (List.mem_map_of_mem hleads))⟩
  | head hleads _ ih =>
    obtain ⟨k, hk⟩ := ih
    exact ⟨k + 1, fun hzero => hk (List.sum_eq_zero_iff.1 hzero _ (List.mem_map_of_mem hleads))⟩

/-- Every node of the body is arrived at. -/
theorem Circleless.arrivals_pos {start target : Key} (h : graph.Circleless start)
    (htarget : target ∈ graph.body start) : 0 < graph.arrivals start target := by
  obtain ⟨k, hk⟩ := exists_ways_of_reached (mem_body_iff.1 htarget).1
  have hshort : k < (graph.body start).length := by
    by_contra hlong
    exact hk (h.ways_eq_zero (by omega) target)
  refine Nat.pos_of_ne_zero fun hzero => hk ?_
  exact Finset.sum_eq_zero_iff.1 hzero k (Finset.mem_range.2 hshort)

/-! ## Unfolding -/

/-- The nodes that are come to, in order, where all edges are followed from a row of nodes, depth
first and as often as they are come to. -/
inductive Unfolds (graph : Graph) : (stack trace : List Key) → Prop
  | nil : Unfolds graph [] []
  | cons {id : Key} {rest trace : List Key}
      (next : Unfolds graph (graph.targets id ++ rest) trace) :
      Unfolds graph (id :: rest) (id :: trace)

theorem Unfolds.append {stack stack' trace trace' : List Key} (h : graph.Unfolds stack trace)
    (h' : graph.Unfolds stack' trace') : graph.Unfolds (stack ++ stack') (trace ++ trace') := by
  induction h with
  | nil => exact h'
  | cons _ ih =>
    rw [List.append_assoc] at ih
    exact .cons ih

/-- On how many ways of less than so many edges one node is reached from another. -/
def waysBelow (graph : Graph) (bound : Nat) (source target : Key) : Nat :=
  ∑ k ∈ Finset.range bound, graph.ways k source target

theorem waysBelow_mono {bound bound' : Nat} (h : bound ≤ bound') (source target : Key) :
    graph.waysBelow bound source target ≤ graph.waysBelow bound' source target :=
  Finset.sum_le_sum_of_subset (Finset.range_mono h)

/-- A way begins with one of the edges. -/
theorem sum_ways_succ (bound : Nat) (source target : Key) :
    ∑ k ∈ Finset.range bound, graph.ways (k + 1) source target =
      ((graph.targets source).map fun next => graph.waysBelow bound next target).sum := by
  simp only [ways, waysBelow]
  induction graph.targets source with
  | nil => simp
  | cons next rest ih => simp only [List.map_cons, List.sum_cons, Finset.sum_add_distrib, ih]

theorem waysBelow_succ (bound : Nat) (source target : Key) :
    graph.waysBelow (bound + 1) source target =
      ((graph.targets source).map fun next => graph.waysBelow bound next target).sum +
        if source = target then 1 else 0 := by
  rw [waysBelow, Finset.sum_range_succ', sum_ways_succ, ways]

/-- A node is come to as often as there are ways to it. -/
theorem Unfolds.count {stack trace : List Key} (h : graph.Unfolds stack trace) (target : Key) :
    ∀ bound, trace.length ≤ bound →
      trace.count target = (stack.map fun id => graph.waysBelow bound id target).sum := by
  induction h with
  | nil => exact fun _ _ => rfl
  | @cons id rest trace _ ih =>
    intro bound hbound
    obtain ⟨bound, rfl⟩ : ∃ b, bound = b + 1 :=
      Nat.exists_eq_succ_of_ne_zero (Nat.ne_of_gt (Nat.lt_of_lt_of_le (Nat.succ_pos _) hbound))
    have hbound' : trace.length ≤ bound := Nat.le_of_succ_le_succ hbound
    have hbelow := ih bound hbound'
    have habove := ih (bound + 1) (Nat.le_succ_of_le hbound')
    rw [List.map_append, List.sum_append] at hbelow habove
    -- both bounds give the same sum, of which neither part shrinks with the bound, so neither grows
    have htargets : ((graph.targets id).map fun id => graph.waysBelow bound id target).sum ≤
        ((graph.targets id).map fun id => graph.waysBelow (bound + 1) id target).sum :=
      List.sum_le_sum fun x _ => waysBelow_mono (Nat.le_succ bound) x target
    have hrest : (rest.map fun id => graph.waysBelow bound id target).sum ≤
        (rest.map fun id => graph.waysBelow (bound + 1) id target).sum :=
      List.sum_le_sum fun x _ => waysBelow_mono (Nat.le_succ bound) x target
    rw [List.map_cons, List.sum_cons, waysBelow_succ, List.count_cons]
    simp only [beq_iff_eq]
    omega

/-- What is come to is reached from one of the nodes. -/
theorem Unfolds.reached {stack trace : List Key} (h : graph.Unfolds stack trace) :
    ∀ target ∈ trace, ∃ id ∈ stack, Relation.ReflTransGen graph.Leads id target := by
  induction h with
  | nil => simp
  | @cons id rest trace _ ih =>
    intro target htarget
    rcases List.mem_cons.1 htarget with rfl | htarget
    · exact ⟨target, List.mem_cons_self, .refl⟩
    · obtain ⟨next, hnext, hreached⟩ := ih target htarget
      rcases List.mem_append.1 hnext with hnext | hnext
      · exact ⟨id, List.mem_cons_self, hreached.head hnext⟩
      · exact ⟨next, List.mem_cons_of_mem _ hnext, hreached⟩

/-- **Without circles the unfolding of what a node leads to comes to the nodes of its body, to each
as often as there are ways to it.** -/
theorem Circleless.unfolds {start : Key} {trace : List Key} (h : graph.Circleless start)
    (hunfolds : graph.Unfolds (graph.targets start) trace) :
    trace ⊆ graph.body start ∧ ∀ target, trace.count target = graph.arrivals start target := by
  constructor
  · intro target htarget
    obtain ⟨id, hid, hreached⟩ := hunfolds.reached target htarget
    exact h.mem_body (Relation.TransGen.head' hid hreached)
  · intro target
    have hcount := hunfolds.count target (trace.length + (graph.body start).length) (by omega)
    rw [hcount, ← sum_ways_succ, arrivals]
    refine (Finset.sum_subset (Finset.range_mono (Nat.le_add_left _ _)) fun k _ hk => ?_).symm
    exact h.ways_eq_zero (by simpa [Nat.lt_succ_iff] using hk) target

/-- Where there is one way to each node of the body, the unfolding is the body in some order. -/
theorem Circleless.unfolds_perm {start : Key} {trace : List Key} (h : graph.Circleless start)
    (hunfolds : graph.Unfolds (graph.targets start) trace)
    (single : ∀ target ∈ graph.body start, graph.arrivals start target = 1) :
    trace.Perm (graph.body start) := by
  obtain ⟨hsubset, hcount⟩ := h.unfolds hunfolds
  refine List.perm_iff_count.2 fun target => ?_
  by_cases htarget : target ∈ graph.body start
  · rw [hcount, single target htarget, List.count_eq_one_of_mem (body_nodup graph start) htarget]
  · rw [List.count_eq_zero_of_not_mem htarget,
      List.count_eq_zero_of_not_mem fun hmem => htarget (hsubset hmem)]

end WorkflowEngine.Graph
