import WorkflowEngine.Proofs.Graph.Ways

/-!
# The search for the body

The search keeps what it has found and a queue, in which a node may stand several times. `SearchStep`
is one turn of it, without a bound on the turns. Each turn shortens the queue or takes the edges of
one more node from those that are left, so no search goes on for ever (`searchStep_wellFounded`);
what it ends with is the body, and that is what non-empty ways lead to (`body_search`).
-/

namespace WorkflowEngine.Graph

variable {graph : Graph}

/-- One turn of the search from a node: the head of the queue is passed over if it was found before
or is the node itself, else it is found and what its edges lead to is put in the queue. -/
inductive SearchStep (graph : Graph) (start : Key) :
    (before after : List Key × List Key) → Prop
  | pass {id : Key} {found queue : List Key} (old : id ∈ found ++ [start]) :
      SearchStep graph start (found, id :: queue) (found, queue)
  | find {id : Key} {found queue : List Key} (new : id ∉ found ++ [start]) :
      SearchStep graph start (found, id :: queue) (id :: found, queue ++ graph.targets id)

/-- What is left to a search: the nodes in the queue, and the edges of nodes that are not found. -/
def searchLeft (graph : Graph) (start : Key) (s : List Key × List Key) : Nat :=
  s.2.length + graph.unfollowed (s.1 ++ [start])

theorem SearchStep.searchLeft_lt {start : Key} {before after : List Key × List Key}
    (h : graph.SearchStep start before after) :
    graph.searchLeft start after < graph.searchLeft start before := by
  cases h with
  | pass => exact Nat.add_lt_add_right (Nat.lt_succ_self _) _
  | @find id found queue new =>
    have hcost := length_targets_add_unfollowed graph new
    simp only [searchLeft, List.length_append, List.length_cons, List.cons_append]
    omega

/-- No search goes on for ever, wherever it begins. -/
theorem searchStep_wellFounded (graph : Graph) (start : Key) :
    WellFounded fun after before => graph.SearchStep start before after :=
  Subrelation.wf SearchStep.searchLeft_lt (measure (graph.searchLeft start)).wf

theorem searchStep_rightUnique (graph : Graph) (start : Key) :
    Relator.RightUnique (graph.SearchStep start) := by
  intro before after after' h h'
  cases h with
  | pass old =>
    cases h' with
    | pass => rfl
    | find new => exact absurd old new
  | find new =>
    cases h' with
    | pass old => exact absurd old new
    | find => rfl

/-- Only a search with an empty queue is at its end. -/
theorem exists_searchStep_iff {start : Key} {found queue : List Key} :
    (∃ after, graph.SearchStep start (found, queue) after) ↔ queue ≠ [] := by
  constructor
  · rintro ⟨_, h⟩
    cases h <;> exact List.cons_ne_nil _ _
  · intro hqueue
    obtain ⟨id, rest, rfl⟩ := List.exists_cons_of_ne_nil hqueue
    by_cases hold : id ∈ found ++ [start]
    · exact ⟨_, .pass hold⟩
    · exact ⟨_, .find hold⟩

/-- The bounded search takes these turns, until the queue is empty. -/
theorem searchStep_search {start : Key} (fuel : Nat) : ∀ (found queue : List Key),
    graph.searchLeft start (found, queue) ≤ fuel →
    Relation.ReflTransGen (graph.SearchStep start) (found, queue)
      (graph.search start fuel found queue, []) := by
  induction fuel with
  | zero =>
    intro found queue hfuel
    simp only [searchLeft] at hfuel
    obtain rfl : queue = [] := List.eq_nil_of_length_eq_zero (by omega)
    exact .refl
  | succ fuel ih =>
    intro found queue hfuel
    cases queue with
    | nil => exact .refl
    | cons id queue =>
      have hold : (found.contains id || id == start) = true ↔ id ∈ found ++ [start] := by simp
      unfold search
      split
      · rename_i hfound
        have hstep : graph.SearchStep start (found, id :: queue) (found, queue) :=
          .pass (hold.1 hfound)
        exact .head hstep (ih found queue (by have := hstep.searchLeft_lt; omega))
      · rename_i hfound
        have hstep : graph.SearchStep start (found, id :: queue)
            (id :: found, queue ++ graph.targets id) := .find fun hid => hfound (hold.2 hid)
        exact .head hstep (ih (id :: found) _ (by have := hstep.searchLeft_lt; omega))

theorem searchStep_body (graph : Graph) (id : Key) :
    Relation.ReflTransGen (graph.SearchStep id) ([], graph.targets id) (graph.body id, []) :=
  searchStep_search graph.edges.length [] (graph.targets id)
    (length_targets_add_unfollowed_le graph id)

/-! ## Ways and what they lead to -/

theorem leads_iff {source target : Key} :
    graph.Leads source target ↔
      ∃ (place : Nat) (e : Edge), graph.edges[place]? = some e ∧ e.source = source ∧
        e.target = target ∧ graph.contains target = true := by
  rw [Leads, ← map_edgesFrom, List.mem_map]
  constructor
  · rintro ⟨⟨e, place⟩, hedge, rfl⟩
    obtain ⟨hplace, hsource, hknown⟩ := mem_edgesFrom.1 hedge
    exact ⟨place, e, hplace, hsource, rfl, hknown⟩
  · rintro ⟨place, e, hplace, hsource, rfl, hknown⟩
    exact ⟨(e, place), mem_edgesFrom.2 ⟨hplace, hsource, hknown⟩, rfl⟩

theorem Way.reflTransGen {source target : Key} {places : List Nat}
    (h : graph.Way source places target) : Relation.ReflTransGen graph.Leads source target := by
  induction h with
  | here id => exact .refl
  | along edge begins known _ ih => exact .head (leads_iff.2 ⟨_, _, edge, begins, rfl, known⟩) ih

/-- Nodes are led to along non-empty ways. -/
theorem transGen_leads_iff {source target : Key} :
    Relation.TransGen graph.Leads source target ↔
      ∃ places, places ≠ [] ∧ graph.Way source places target := by
  constructor
  · intro h
    induction h using Relation.TransGen.head_induction_on with
    | single hleads =>
      obtain ⟨place, e, hplace, hsource, rfl, hknown⟩ := leads_iff.1 hleads
      exact ⟨[place], List.cons_ne_nil _ _, .along hplace hsource hknown (.here _)⟩
    | head hleads _ ih =>
      obtain ⟨place, e, hplace, hsource, rfl, hknown⟩ := leads_iff.1 hleads
      obtain ⟨places, _, hway⟩ := ih
      exact ⟨place :: places, List.cons_ne_nil _ _, .along hplace hsource hknown hway⟩
  · rintro ⟨places, hne, hway⟩
    cases hway with
    | here => exact absurd rfl hne
    | along edge begins known rest =>
      exact .head' (leads_iff.2 ⟨_, _, edge, begins, rfl, known⟩) rest.reflTransGen

theorem Way.contains {source target : Key} {places : List Nat}
    (h : graph.Way source places target) (hne : places ≠ []) : graph.contains target = true := by
  have htarget := transGen_leads_iff.2 ⟨places, hne, h⟩
  obtain ⟨_, _, hleads⟩ := Relation.TransGen.tail'_iff.1 htarget
  obtain ⟨_, _, _, _, _, hknown⟩ := leads_iff.1 hleads
  exact hknown

/-- **The search for the body of a node ends, and with the known nodes other than that node to which
a non-empty way leads through known nodes.** Every search ends, on any graph; this one, however far
it has come, goes on to the body with an empty queue; and no node of the body stands in it twice. -/
theorem body_search (graph : Graph) (id : Key) :
    WellFounded (fun after before => graph.SearchStep id before after) ∧
    (∀ found queue, Relation.ReflTransGen (graph.SearchStep id) ([], graph.targets id)
        (found, queue) →
      Relation.ReflTransGen (graph.SearchStep id) (found, queue) (graph.body id, []) ∧
        (queue = [] → found = graph.body id)) ∧
    (graph.body id).Nodup ∧
    ∀ target, target ∈ graph.body id ↔ graph.contains target = true ∧ target ≠ id ∧
      ∃ places, places ≠ [] ∧ graph.Way id places target := by
  refine ⟨searchStep_wellFounded graph id, fun found queue hsofar => ?_, body_nodup graph id,
    fun target => ?_⟩
  · have hstuck : ∀ ids s, Relation.ReflTransGen (graph.SearchStep id) (ids, []) s →
        s = (ids, []) := by
      intro ids s h
      rcases Relation.ReflTransGen.cases_head h with rfl | ⟨_, hstep, _⟩
      · rfl
      · exact absurd rfl (exists_searchStep_iff.1 ⟨_, hstep⟩)
    have hon : Relation.ReflTransGen (graph.SearchStep id) (found, queue) (graph.body id, []) := by
      rcases Relation.ReflTransGen.total_of_right_unique (searchStep_rightUnique graph id) hsofar
        (searchStep_body graph id) with hon | hback
      · exact hon
      · rw [hstuck _ _ hback]
    refine ⟨hon, ?_⟩
    rintro rfl
    exact (congrArg Prod.fst (hstuck _ _ hon)).symm
  · rw [mem_body_iff, transGen_leads_iff]
    constructor
    · rintro ⟨⟨places, hne, hway⟩, hother⟩
      exact ⟨hway.contains hne, hother, places, hne, hway⟩
    · rintro ⟨_, hother, hway⟩
      exact ⟨hway, hother⟩

end WorkflowEngine.Graph
