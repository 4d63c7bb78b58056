import Mathlib.Data.Finset.Union
import Mathlib.Data.Set.Card
import WorkflowEngine.Proofs.Graph.Body

/-!
# Ways as rows of edges

A way leads from a node to another along edges, each named by its place in the workflow, so that
edges between the same two nodes make different ways. `arrivals` counts them: without circles it is
the number of all ways of at least one edge (`Circleless.ncard_way`).
-/

namespace WorkflowEngine.Graph

variable {graph : Graph}

/-- The edges at some places lead, one after another, from one node to another, through known nodes
only. -/
inductive Way (graph : Graph) : (source : Key) → (places : List Nat) → (target : Key) → Prop
  | here (id : Key) : Way graph id [] id
  | along {source target : Key} {place : Nat} {e : Edge} {places : List Nat}
      (edge : graph.edges[place]? = some e) (begins : e.source = source)
      (known : graph.contains e.target = true) (rest : Way graph e.target places target) :
      Way graph source (place :: places) target

/-- The edges from a node to known nodes, with their places. -/
def edgesFrom (graph : Graph) (source : Key) : List (Edge × Nat) :=
  graph.edges.zipIdx.filter fun p => p.1.source == source && graph.contains p.1.target

theorem mem_edgesFrom {source : Key} {e : Edge} {place : Nat} :
    (e, place) ∈ graph.edgesFrom source ↔
      graph.edges[place]? = some e ∧ e.source = source ∧ graph.contains e.target = true := by
  rw [edgesFrom, List.mem_filter, List.mem_zipIdx_iff_getElem?]
  simp only [Bool.and_eq_true, beq_iff_eq]

theorem map_edgesFrom (graph : Graph) (source : Key) :
    (graph.edgesFrom source).map (fun p => p.1.target) = graph.targets source := by
  have hany : ∀ e : Edge, takes .null e = true := fun _ => rfl
  have hedges : graph.edges = graph.edges.zipIdx.map Prod.fst := (List.zipIdx_map_fst 0 _).symm
  rw [targets]
  conv_rhs => rw [hedges]
  rw [List.filter_map, List.map_map, edgesFrom]
  simp only [hany, Bool.and_true]
  rfl

/-- The ways of so many edges from one node to another. -/
def waysOf (graph : Graph) : (length : Nat) → (source target : Key) → List (List Nat)
  | 0, source, target => if source = target then [[]] else []
  | length + 1, source, target => (graph.edgesFrom source).flatMap fun p =>
      (graph.waysOf length p.1.target target).map (p.2 :: ·)

theorem length_waysOf (length : Nat) (source target : Key) :
    (graph.waysOf length source target).length = graph.ways length source target := by
  induction length generalizing source with
  | zero =>
    rw [waysOf, ways]
    split <;> rfl
  | succ length ih =>
    rw [waysOf, ways, List.length_flatMap, ← map_edgesFrom, List.map_map]
    refine congrArg List.sum (List.map_congr_left fun p _ => ?_)
    rw [List.length_map]
    exact ih p.1.target

theorem mem_waysOf {length : Nat} {source target : Key} {places : List Nat} :
    places ∈ graph.waysOf length source target ↔
      places.length = length ∧ graph.Way source places target := by
  induction length generalizing source places with
  | zero =>
    rw [waysOf]
    constructor
    · intro h
      split at h
      · rename_i hsame
        obtain rfl := List.mem_singleton.1 h
        exact ⟨rfl, hsame ▸ .here source⟩
      · cases h
    · rintro ⟨hlength, hway⟩
      obtain rfl := List.eq_nil_of_length_eq_zero hlength
      cases hway
      simp
  | succ length ih =>
    rw [waysOf, List.mem_flatMap]
    constructor
    · rintro ⟨⟨e, place⟩, hedge, hplaces⟩
      obtain ⟨rest, hrest, rfl⟩ := List.mem_map.1 hplaces
      obtain ⟨hplace, hbegins, hknown⟩ := mem_edgesFrom.1 hedge
      obtain ⟨hlength, hway⟩ := ih.1 hrest
      exact ⟨congrArg Nat.succ hlength, .along hplace hbegins hknown hway⟩
    · rintro ⟨hlength, hway⟩
      cases hway with
      | here => cases hlength
      | @along _ _ place e rest hplace hbegins hknown hway =>
        have hrest : rest ∈ graph.waysOf length e.target target :=
          ih.2 ⟨Nat.succ.inj hlength, hway⟩
        exact ⟨(e, place), mem_edgesFrom.2 ⟨hplace, hbegins, hknown⟩, List.mem_map_of_mem hrest⟩

theorem nodup_waysOf (length : Nat) (source target : Key) :
    (graph.waysOf length source target).Nodup := by
  induction length generalizing source with
  | zero =>
    rw [waysOf]
    split <;> simp
  | succ length ih =>
    rw [waysOf, List.nodup_flatMap]
    refine ⟨fun p _ => (ih p.1.target).map fun _ _ h => (List.cons.inj h).2, ?_⟩
    -- ways along edges at different places differ at their first place
    have hplaces : (graph.edgesFrom source).Pairwise fun p q => p.2 ≠ q.2 := by
      have hall : (graph.edges.zipIdx.map Prod.snd).Nodup := by
        rw [List.zipIdx_map_snd]
        exact List.nodup_range'
      exact (List.pairwise_map.1 hall).sublist List.filter_sublist
    refine hplaces.imp fun {p q} hother places hp hq => ?_
    obtain ⟨_, _, rfl⟩ := List.mem_map.1 hp
    obtain ⟨_, _, heq⟩ := List.mem_map.1 hq
    exact hother (List.cons.inj heq).1.symm

/-- A way of at least one edge that begins where no circle is reached is no longer than the body has
nodes. -/
theorem Circleless.length_way_le {start target : Key} (h : graph.Circleless start)
    {places : List Nat} (hway : graph.Way start places target) :
    places.length ≤ (graph.body start).length := by
  by_contra hlong
  have hnone := h.ways_eq_zero (by omega : (graph.body start).length < places.length) target
  rw [← length_waysOf] at hnone
  have hmem : places ∈ graph.waysOf places.length start target := mem_waysOf.2 ⟨rfl, hway⟩
  rw [List.eq_nil_of_length_eq_zero hnone] at hmem
  cases hmem

/-- **Without circles a node is arrived at on each way that leads to it, and on no other.** -/
theorem Circleless.ncard_way {start : Key} (h : graph.Circleless start) (target : Key) :
    {places | places ≠ [] ∧ graph.Way start places target}.ncard = graph.arrivals start target := by
  let found : Finset (List Nat) := (Finset.range (graph.body start).length).biUnion fun k =>
    (graph.waysOf (k + 1) start target).toFinset
  have hfound : {places | places ≠ [] ∧ graph.Way start places target} = (found : Set _) := by
    ext places
    simp only [found, Set.mem_ofPred_eq, Finset.coe_biUnion, Finset.coe_range, Set.mem_Iio,
      Set.mem_iUnion, Finset.mem_coe, List.mem_toFinset, mem_waysOf, exists_prop]
    constructor
    · rintro ⟨hne, hway⟩
      have hpos : 0 < places.length := List.length_pos_iff.2 hne
      have hshort := h.length_way_le hway
      exact ⟨places.length - 1, by omega, by omega, hway⟩
    · rintro ⟨k, _, hlength, hway⟩
      exact ⟨List.ne_nil_of_length_eq_add_one hlength, hway⟩
  rw [hfound, Set.ncard_coe_finset, Finset.card_biUnion, arrivals]
  · refine Finset.sum_congr rfl fun k _ => ?_
    rw [List.toFinset_card_of_nodup (nodup_waysOf _ _ _), length_waysOf]
  · intro k _ k' _ hother
    refine Finset.disjoint_left.2 fun places hplaces hplaces' => hother ?_
    obtain ⟨hlength, _⟩ := mem_waysOf.1 (List.mem_toFinset.1 hplaces)
    obtain ⟨hlength', _⟩ := mem_waysOf.1 (List.mem_toFinset.1 hplaces')
    omega

end WorkflowEngine.Graph
