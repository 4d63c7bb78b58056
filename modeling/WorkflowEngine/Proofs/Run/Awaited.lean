import WorkflowEngine.Proofs.Run.Reach

/-!
# What becomes of merges that wait

A merge that waits is left when it is reached too early, and it is not taken up again by itself:
only a further edge that is followed to it, or a visit that is still to come, brings the walk back.
So without loops a merge whose sources all have outputs in the end has been executed if the last of
them to succeed leads to it; and if it has not been executed, the last source leads elsewhere, and
every visit of the merge came before that source succeeded (`courseOf_awaited`).
-/

namespace WorkflowEngine

open Walk

namespace Graph

variable {graph : Graph}

theorem mem_sources {source target : Key} : source ∈ graph.sources target ↔
    ∃ e ∈ graph.edges, e.target = target ∧ e.source = source ∧ graph.contains source = true := by
  simp only [sources, List.mem_map, List.mem_filter, Bool.and_eq_true, beq_iff_eq]
  constructor
  · rintro ⟨e, ⟨hmem, htarget, hknown⟩, rfl⟩
    exact ⟨e, hmem, htarget, rfl, hknown⟩
  · rintro ⟨e, hmem, htarget, rfl, hknown⟩
    exact ⟨e, ⟨hmem, htarget, hknown⟩, rfl⟩

/-- A known node that leads to another is one of its sources. -/
theorem Follows.mem_sources {chosen : List (Key × Value)} {id target : Key}
    (h : graph.Follows chosen id target) (known : graph.contains id = true) :
    id ∈ graph.sources target := by
  obtain ⟨_, _, e, hmem, hsource, htarget, _, _⟩ := h
  exact Graph.mem_sources.2 ⟨e, hmem, htarget, hsource, known⟩

/-- Of the nodes that chose branches, the last one that is a source of a node. -/
def LastSource (graph : Graph) (chosen : List (Key × Value)) (id source : Key) (branch : Value) :
    Prop :=
  ∃ early late, chosen = early ++ (source, branch) :: late ∧ source ∈ graph.sources id ∧
    ∀ s ∈ late.map Prod.fst, s ∉ graph.sources id

theorem exists_lastSource {chosen : List (Key × Value)} {id : Key}
    (h : ∃ s ∈ chosen.map Prod.fst, s ∈ graph.sources id) :
    ∃ source branch, graph.LastSource chosen id source branch := by
  induction chosen with
  | nil =>
    obtain ⟨s, hs, _⟩ := h
    cases hs
  | cons first rest ih =>
    by_cases hrest : ∃ s ∈ rest.map Prod.fst, s ∈ graph.sources id
    · obtain ⟨source, branch, early, late, hsplit, hsource, hlate⟩ := ih hrest
      exact ⟨source, branch, first :: early, late, congrArg (first :: ·) hsplit, hsource, hlate⟩
    · have hnone : ∀ s ∈ rest.map Prod.fst, s ∉ graph.sources id := fun s hs hsource =>
        hrest ⟨s, hs, hsource⟩
      obtain ⟨s, hs, hsource⟩ := h
      have hfirst : s = first.1 := (List.mem_cons.1 hs).resolve_right fun hs => hnone s hs hsource
      exact ⟨first.1, first.2, [], rest, rfl, hfirst ▸ hsource, hnone⟩

/-- As long as a source of a node has not succeeded, the last of its sources has not either. -/
theorem LastSource.not_mem {chosen earlier rest : List (Key × Value)} {id source s : Key}
    {branch : Value} (h : graph.LastSource chosen id source branch)
    (hsplit : chosen = earlier ++ rest) (once : (chosen.map Prod.fst).Nodup)
    (hsource : s ∈ graph.sources id) (hchosen : s ∈ chosen.map Prod.fst)
    (hmissing : s ∉ earlier.map Prod.fst) : source ∉ earlier.map Prod.fst := by
  obtain ⟨first, late, hlast, _, hnone⟩ := h
  intro hmem
  rcases split_append (hsplit.symm.trans hlast) with ⟨mid, _, hlate⟩ | ⟨mid, hfirst, _⟩
  · -- the source that is missing comes after the last one
    rw [hsplit, List.map_append, List.mem_append] at hchosen
    refine hnone s ?_ hsource
    rw [hlate, List.map_append, List.mem_append]
    exact .inr (hchosen.resolve_left hmissing)
  · rw [hlast, List.map_append, List.map_cons] at once
    have hdisjoint := (List.nodup_append.1 once).2.2 source ?_ source List.mem_cons_self
    · exact hdisjoint rfl
    · rw [hfirst, List.map_append, List.mem_append]
      exact .inl hmem

end Graph

/-- Entries that choose no branch are made of parts that choose none. -/
theorem choices_eq_nil_of_append {later earlier : List Entry}
    (h : choices (later ++ earlier) = []) : choices earlier = [] := by
  rw [choices_append] at h
  exact (List.append_eq_nil_iff.1 h).1

namespace Plan

variable {plan : Plan} {run between after : Run}

/-- What a visit does for the nodes that wait. -/
structure Attends (plan : Plan) (id : Key) (run between : Run) (next : List Key)
    (made : List NodeResult) (news : List Entry) : Prop where
  advance : Advance run between made news
  chosen : choices news = [] ∨ ∃ branch, choices news = [(id, branch)] ∧
    next = plan.graph.targets id branch ∧ ∃ node, plan.nodes.lookup id = some node
  settled : ∀ node, plan.nodes.lookup id = some node →
    id ∈ between.state.executed ∨ id ∈ deferrals news
  ready : ∀ node, plan.nodes.lookup id = some node →
    (∀ s ∈ plan.graph.sources id, Entries.contains s run.state.outputs = true) →
    id ∈ between.state.executed
  left : ∀ id' ∈ deferrals news, choices news = [] ∧
    (∃ node, plan.nodes.lookup id' = some node ∧ node.Waits) ∧
    ∃ s ∈ plan.graph.sources id', Entries.contains s run.state.outputs = false

theorem Visited.attends (sourced : plan.Sourced) {id : Key} {next : List Key}
    (h : plan.Visited id run between next) :
    ∃ made news, plan.Attends id run between next made news := by
  cases h with
  | @executed r news branch advance node known chosen undeferred targets =>
    have hdone : id ∈ between.state.executed := (advance.executed id).2 (.inr (by simp [node]))
    exact ⟨_, _, advance, .inr ⟨branch, chosen, targets, known⟩, fun _ _ => .inl hdone,
      fun _ _ _ => hdone, by simp [undeferred]⟩
  | @passed news advance nothing undeferred known last =>
    exact ⟨_, _, advance, .inl nothing, fun node hnode => .inl (known node hnode),
      fun node hnode _ => known node hnode, by simp [undeferred]⟩
  | @deferred news node advance nothing noted known waits missing last =>
    have hmissing : ∃ s ∈ plan.graph.sources id, Entries.contains s run.state.outputs = false := by
      have hsources := sourced id node known
      simpa [Node.missingSources, hsources] using missing
    refine ⟨_, _, advance, .inl nothing, fun _ _ => .inr (by simp [noted]), ?_, ?_⟩
    · intro _ _ hall
      obtain ⟨s, hs, hno⟩ := hmissing
      rw [hall s hs] at hno
      cases hno
    · rw [noted]
      intro id' hid'
      rw [List.mem_singleton.1 hid']
      exact ⟨nothing, ⟨node, known, waits⟩, hmissing⟩

/-- What has become of the nodes that a walk came to. -/
structure Attended (plan : Plan) (stack : List Key) (before after : Run) (news : List Entry) :
    Prop where
  /-- Only known nodes choose branches. -/
  known : ∀ id ∈ (choices news).map Prod.fst, ∃ node, plan.nodes.lookup id = some node
  /-- Whatever lies on the stack is executed in the end, or has been left. -/
  visited : ∀ id ∈ stack, ∀ node, plan.nodes.lookup id = some node →
    id ∈ after.state.executed ∨ id ∈ deferrals news
  /-- So is whatever an edge that is followed leads to. -/
  followed : ∀ id target, plan.graph.Follows (choices news) id target →
    target ∈ after.state.executed ∨ target ∈ deferrals news
  /-- What lies on the stack is executed if all its sources have outputs. -/
  ready : ∀ id ∈ stack, ∀ node, plan.nodes.lookup id = some node →
    (∀ s ∈ plan.graph.sources id, Entries.contains s before.state.outputs = true) →
    id ∈ after.state.executed
  /-- So is what a node leads to, if all its sources have outputs once that node has succeeded. -/
  woken : ∀ early late source branch target, choices news = early ++ (source, branch) :: late →
    plan.graph.Follows [(source, branch)] source target →
    (∀ s ∈ plan.graph.sources target, Entries.contains s before.state.outputs = true ∨
      s ∈ early.map Prod.fst ∨ s = source) →
    target ∈ after.state.executed
  /-- Only merges that wait are left. -/
  waits : ∀ id ∈ deferrals news, ∃ node, plan.nodes.lookup id = some node ∧ node.Waits
  /-- What is left lacks the output of a source. -/
  awaited : ∀ later e earlier id, news = later ++ e :: earlier → e.event.deferred? = some id →
    ∃ s ∈ plan.graph.sources id, Entries.contains s before.state.outputs = false ∧
      s ∉ (choices earlier).map Prod.fst

section Visit

variable {id : Key} {next rest : List Key} {made others : List NodeResult} {early news : List Entry}

theorem Attends.outputs (hvisit : plan.Attends id run between next made early) (s : Key) :
    Entries.contains s between.state.outputs = true ↔
      Entries.contains s run.state.outputs = true ∨ s ∈ (choices early).map Prod.fst := by
  rw [← hvisit.advance.answered]
  exact hvisit.advance.outputs s

/-- An edge that the visited node follows leads to what lies on the stack from then on. -/
theorem Attends.mem_next (complete : ∀ id, plan.graph.contains id = true →
      ∃ node, plan.nodes.lookup id = some node) {branch : Value} {target : Key}
    (htargets : next = plan.graph.targets id branch)
    (h : plan.graph.Follows [(id, branch)] id target) :
    target ∈ next ++ rest ∧ ∃ node, plan.nodes.lookup target = some node :=
  ⟨List.mem_append_left _ (htargets ▸ Graph.mem_targets.2 h), complete target h.known⟩

/-- Every edge that is followed leads to what is executed in the end or has been left. -/
theorem Attends.followed (complete : ∀ id, plan.graph.contains id = true →
      ∃ node, plan.nodes.lookup id = some node)
    (hvisit : plan.Attends id run between next made early)
    (h : plan.Attended (next ++ rest) between after news) (source target : Key)
    (hfollows : plan.graph.Follows (choices (news ++ early)) source target) :
    target ∈ after.state.executed ∨ target ∈ deferrals news := by
  rw [choices_append] at hfollows
  rcases Graph.follows_append.1 hfollows with hfirst | hlater
  · rcases hvisit.chosen with hnone | ⟨branch, hone, htargets, _⟩
    · rw [hnone] at hfirst
      cases hfirst.mem_chosen
    · rw [hone] at hfirst
      obtain rfl : source = id := by simpa using hfirst.mem_chosen
      obtain ⟨hnext, node, hnode⟩ := mem_next complete htargets hfirst
      exact h.visited target hnext node hnode
  · exact h.followed source target hlater

/-- A node with whose success the last of the sources has an output wakes what it leads to. -/
theorem Attends.woken (complete : ∀ id, plan.graph.contains id = true →
      ∃ node, plan.nodes.lookup id = some node)
    (hvisit : plan.Attends id run between next made early)
    (h : plan.Attended (next ++ rest) between after news)
    (first late : List (Key × Value)) (source : Key) (branch : Value) (target : Key)
    (hsplit : choices (news ++ early) = first ++ (source, branch) :: late)
    (hfollows : plan.graph.Follows [(source, branch)] source target)
    (hall : ∀ s ∈ plan.graph.sources target, Entries.contains s run.state.outputs = true ∨
      s ∈ first.map Prod.fst ∨ s = source) : target ∈ after.state.executed := by
  rw [choices_append] at hsplit
  rcases hvisit.chosen with hnone | ⟨branch', hone, htargets, _⟩
  · rw [hnone, List.nil_append] at hsplit
    refine h.woken first late source branch target hsplit hfollows fun s hs => ?_
    exact (hall s hs).imp_left fun hold => (hvisit.outputs s).2 (.inl hold)
  · rw [hone, List.singleton_append] at hsplit
    cases first with
    | nil =>
      -- the visited node is the one that leads to the target, which is ready from then on
      obtain ⟨⟨rfl, rfl⟩, rfl⟩ : (id = source ∧ branch' = branch) ∧ choices news = late := by
        simpa using hsplit
      obtain ⟨hnext, node, hnode⟩ := mem_next complete htargets hfollows
      refine h.ready target hnext node hnode fun s hs => ?_
      rw [hvisit.outputs, hone]
      simpa using hall s hs
    | cons pair first =>
      -- a later node does, and the visited one is among those that have succeeded before it
      obtain ⟨rfl, hrest⟩ := List.cons.inj hsplit
      refine h.woken first late source branch target hrest hfollows fun s hs => ?_
      rw [hvisit.outputs, hone]
      rcases hall s hs with hold | hfirst | hlast
      · exact .inl (.inl hold)
      · rcases List.mem_cons.1 hfirst with hid | hfirst
        · exact .inl (.inr (List.mem_singleton.2 hid))
        · exact .inr (.inl hfirst)
      · exact .inr (.inr hlast)

/-- What is left in a visit or after it lacks the output of a source. -/
theorem Attends.awaited (hvisit : plan.Attends id run between next made early)
    (h : plan.Attended (next ++ rest) between after news) (later : List Entry) (e : Entry)
    (earlier : List Entry) (target : Key) (hsplit : news ++ early = later ++ e :: earlier)
    (hleft : e.event.deferred? = some target) :
    ∃ s ∈ plan.graph.sources target, Entries.contains s run.state.outputs = false ∧
      s ∉ (choices earlier).map Prod.fst := by
  rcases split_append hsplit with ⟨rest, hnews, hearlier⟩ | ⟨rest, _, hearly⟩
  · obtain ⟨s, hs, hmissing, hno⟩ := h.awaited later e rest target hnews hleft
    have hnot : ¬ (Entries.contains s run.state.outputs = true ∨
        s ∈ (choices early).map Prod.fst) := by
      rw [← hvisit.outputs, hmissing]
      exact Bool.false_ne_true
    refine ⟨s, hs, by simpa using fun hold => hnot (.inl hold), ?_⟩
    rw [hearlier, choices_append, List.map_append, List.mem_append]
    exact fun hmem => hmem.elim (fun hold => hnot (.inr hold)) hno
  · -- a visit that leaves its node has executed nothing
    have hmem : target ∈ deferrals early := mem_deferrals.2 ⟨e, by simp [hearly], hleft⟩
    obtain ⟨hnone, _, s, hs, hmissing⟩ := hvisit.left target hmem
    rw [hearly, List.append_cons] at hnone
    refine ⟨s, hs, hmissing, ?_⟩
    rw [choices_eq_nil_of_append hnone]
    exact List.not_mem_nil

/-- **A walk goes on from a visit with what the node leads to on top of the stack**, and no node
that waits is lost from sight. -/
theorem Attends.attended (complete : ∀ id, plan.graph.contains id = true →
      ∃ node, plan.nodes.lookup id = some node)
    (hvisit : plan.Attends id run between next made early)
    (hadvance : Advance between after others news)
    (h : plan.Attended (next ++ rest) between after news) :
    plan.Attended (id :: rest) run after (news ++ early) where
  known id' hid' := by
    rw [choices_append, List.map_append, List.mem_append] at hid'
    rcases hid' with hid' | hid'
    · rcases hvisit.chosen with hnone | ⟨branch, hone, _, hknown⟩
      · rw [hnone] at hid'
        cases hid'
      · rw [hone] at hid'
        exact List.mem_singleton.1 hid' ▸ hknown
    · exact h.known id' hid'
  visited id' hid' node hnode := by
    rw [deferrals_append, List.mem_append]
    rcases List.mem_cons.1 hid' with rfl | hid'
    · rcases hvisit.settled node hnode with hdone | hleft
      · exact .inl (hadvance.executed_subset hdone)
      · exact .inr (.inl hleft)
    · exact (h.visited id' (List.mem_append_right _ hid') node hnode).imp_right .inr
  followed source target hfollows := by
    rw [deferrals_append, List.mem_append]
    exact (hvisit.followed complete h source target hfollows).imp_right .inr
  ready id' hid' node hnode hall := by
    rcases List.mem_cons.1 hid' with rfl | hid'
    · exact hadvance.executed_subset (hvisit.ready node hnode hall)
    · exact h.ready id' (List.mem_append_right _ hid') node hnode fun s hs =>
        (hvisit.outputs s).2 (.inl (hall s hs))
  woken := hvisit.woken complete h
  waits id' hid' := by
    rw [deferrals_append, List.mem_append] at hid'
    rcases hid' with hid' | hid'
    · exact (hvisit.left id' hid').2.1
    · exact h.waits id' hid'
  awaited := hvisit.awaited h

end Visit

/-- **A walk outside loops sees to every node that waits**: none is left but for want of an output
of its sources. -/
theorem walk_attended (named : plan.Named) (loopless : plan.Loopless) (books : plan.KeepsBooks)
    (sourced : plan.Sourced)
    (complete : ∀ id, plan.graph.contains id = true → ∃ node, plan.nodes.lookup id = some node)
    (fuel : Nat) : ∀ (stack : List Key) (run after : Run), run.state.frames = [] →
      (plan.walk fuel stack).run run = (some (.ok ()), after) →
      ∃ made news, Advance run after made news ∧ plan.Attended stack run after news := by
  induction fuel with
  | zero =>
    intro stack run after _ h
    cases h
  | succ fuel ih =>
    intro stack run after frames h
    cases stack with
    | nil =>
      cases h
      refine ⟨[], [], .of_remarks [] (by simp) rfl rfl ⟨rfl, rfl, rfl⟩, ?_⟩
      constructor
      · intro id hid
        cases hid
      · simp
      · rintro id target ⟨_, hchosen, _⟩
        cases hchosen
      · simp
      · intro early late source branch target hsplit
        simp [choices] at hsplit
      · simp [deferrals]
      · intro later e earlier id hsplit
        simp at hsplit
    | cons id rest =>
      obtain ⟨next, between, hvisit, hwalk⟩ := run_bind_ok h
      have hvisited := visit_ok named loopless books frames hvisit
      obtain ⟨made, early, hattends⟩ := hvisited.attends sourced
      obtain ⟨others, news, hadvance, hattended⟩ :=
        ih (next ++ rest) between after (hvisited.frames.trans frames) hwalk
      exact ⟨_, _, hattends.advance.trans hadvance,
        hattends.attended complete hadvance hattended⟩

/-- **A node that was reached, and all sources of which have succeeded, is executed if the last of
them leads to it.** If it is not executed it was only left before that one succeeded. -/
theorem Attended.lastSource {stack : List Key} {news : List Entry}
    (h : plan.Attended stack run after news) (once : ((choices news).map Prod.fst).Nodup)
    (contains : ∀ id node, plan.nodes.lookup id = some node → plan.graph.contains id = true)
    {id reached : Key} (hreached : plan.graph.Follows (choices news) reached id)
    (hchosen : ∀ s ∈ plan.graph.sources id, s ∈ (choices news).map Prod.fst) :
    ∃ source branch, plan.graph.LastSource (choices news) id source branch ∧
      (plan.graph.Follows [(source, branch)] source id → id ∈ after.state.executed) ∧
      (id ∉ after.state.executed →
        (∃ node, plan.nodes.lookup id = some node ∧ node.Waits) ∧ id ∈ deferrals news ∧
        ∀ later e earlier, news = later ++ e :: earlier → e.event.deferred? = some id →
          source ∉ (choices earlier).map Prod.fst) := by
  obtain ⟨node, hnode⟩ := h.known reached hreached.mem_chosen
  obtain ⟨source, branch, hlast⟩ := Graph.exists_lastSource
    ⟨reached, hreached.mem_chosen, hreached.mem_sources (contains reached node hnode)⟩
  refine ⟨source, branch, hlast, fun hleads => ?_, fun hnot => ?_⟩
  · obtain ⟨early, late, hsplit, _, hnone⟩ := hlast
    refine h.woken early late source branch id hsplit hleads fun s hs => .inr ?_
    have hs' := hchosen s hs
    rw [hsplit, List.map_append, List.map_cons, List.mem_append, List.mem_cons] at hs'
    exact hs'.imp_right fun hlate => hlate.resolve_right fun hlate => hnone s hlate hs
  · have hleft : id ∈ deferrals news := (h.followed reached id hreached).resolve_left hnot
    refine ⟨h.waits id hleft, hleft, fun later e earlier hsplit hdeferred => ?_⟩
    obtain ⟨s, hs, _, hmissing⟩ := h.awaited later e earlier id hsplit hdeferred
    have hparts : choices news = choices earlier ++ (choices [e] ++ choices later) := by
      rw [hsplit, choices_append, choices_cons, List.append_assoc]
    exact hlast.not_mem hparts once hs (hchosen s hs) hmissing

end Plan

/-! ## A whole run -/

theorem deferrals_between {closing opening : List Entry}
    (hclosing : ∀ e ∈ closing, e.event.isComment = true)
    (hopening : ∀ e ∈ opening, e.event.isComment = true) (news : List Entry) :
    deferrals (closing ++ (news ++ opening)) = deferrals news := by
  rw [deferrals_append, deferrals_append, deferrals_of_comments hclosing,
    deferrals_of_comments hopening, List.append_nil, List.nil_append]

/-- An entry that is no comment stands between the comments. -/
theorem split_between {closing opening news later earlier : List Entry} {e : Entry}
    (hclosing : ∀ e ∈ closing, e.event.isComment = true)
    (hopening : ∀ e ∈ opening, e.event.isComment = true) (he : e.event.isComment = false)
    (hsplit : closing ++ (news ++ opening) = later ++ e :: earlier) :
    ∃ later' earlier', news = later' ++ e :: earlier' ∧ earlier = earlier' ++ opening := by
  have hnot : ∀ entries : List Entry, (∀ e ∈ entries, e.event.isComment = true) → e ∉ entries :=
    fun entries hentries hmem => by
      rw [hentries e hmem] at he
      cases he
  rcases split_append hsplit with ⟨rest, hrest, _⟩ | ⟨later', _, hrest⟩
  · exact absurd (by simp [hrest]) (hnot closing hclosing)
  · rcases split_append hrest with ⟨earlier', hnews, hearlier⟩ | ⟨last, _, hlast⟩
    · exact ⟨later', earlier', hnews, hearlier⟩
    · exact absurd (by simp [hlast]) (hnot opening hopening)

/-- **Without loops no merge that waits is executed twice, and one that is reached and for which all
sources have outputs in the end is executed if the last of them to succeed leads to it.** If it has
not been executed, that source leads elsewhere, and the merge was only ever left before it
succeeded. -/
theorem courseOf_awaited {registry : Registry} (books : registry.KeepsBooks) (budget : Option Int)
    (fuel : Nat) {workflow : Value} {graph : Graph} {run : Run}
    (read : Graph.ofValue workflow = .ok graph) (loopless : ∀ id, ¬ graph.IsLoop registry id)
    (unexecuted : run.state.executed = []) (blank : run.state.outputs = [])
    (outside : run.state.frames = [])
    (ended : ((courseOf registry budget fuel workflow).run run).1.map Except.isOk = some true) :
    let run' := ((courseOf registry budget fuel workflow).run run).2
    ∃ made news, run'.results = run.results ++ made ∧
      run'.world.journal = news ++ run.world.journal ∧
      (made.map NodeResult.node).Nodup ∧
      made.map NodeResult.node = (choices news).map Prod.fst ∧
      (∀ id, Entries.contains id run'.state.outputs = true ↔ id ∈ made.map NodeResult.node) ∧
      (∀ id, id ∈ run'.state.executed ↔ id ∈ made.map NodeResult.node) ∧
      ∀ id, (∃ source, graph.Follows (choices news) source id) →
        (∀ source ∈ graph.sources id, Entries.contains source run'.state.outputs = true) →
        ∃ source branch, graph.LastSource (choices news) id source branch ∧
          (graph.Follows [(source, branch)] source id → id ∈ made.map NodeResult.node) ∧
          (id ∉ made.map NodeResult.node →
            graph.Waits registry id ∧ id ∈ deferrals news ∧
            ∀ later e earlier, news = later ++ e :: earlier → e.event.deferred? = some id →
              source ∉ (choices earlier).map Prod.fst) := by
  obtain ⟨run', hrun⟩ := run_ok_of_isOk ended
  obtain ⟨departure, ready, walked, closing, opening, hof, hbooks, hwalk, hclosing, hopening,
    hcourse⟩ := courseOf_ok hrun
  obtain rfl : departure.plan.graph = graph := Except.ok.inj (hof.graph.symm.trans read)
  obtain ⟨made, news, hadvance, hattended⟩ := Plan.walk_attended hof.named (hof.loopless loopless)
    (hof.keepsBooks books) hof.sourced hof.complete fuel [departure.start] ready walked
    (hbooks.frames.trans outside) hwalk
  have hall := hcourse made news hadvance
  have houtputs : ∀ id, Entries.contains id run'.state.outputs = true ↔
      id ∈ made.map NodeResult.node := fun id => by
    rw [hall.outputs, blank]
    simp [Entries.contains]
  have hexecuted : ∀ id, id ∈ run'.state.executed ↔ id ∈ made.map NodeResult.node := fun id => by
    rw [hall.executed, unexecuted]
    simp
  have hdone : ∀ id, id ∈ walked.state.executed ↔ id ∈ made.map NodeResult.node := fun id => by
    rw [hadvance.executed, hbooks.executed, unexecuted]
    simp
  rw [hrun]
  refine ⟨made, _, hall.results, hall.journal, hall.once, hall.answered, houtputs, hexecuted, ?_⟩
  rw [choices_between hclosing hopening news]
  rintro id ⟨reached, hreached⟩ hsources
  have hchosen : ∀ s ∈ departure.plan.graph.sources id, s ∈ (choices news).map Prod.fst :=
    fun s hs => hadvance.answered ▸ (houtputs s).1 (hsources s hs)
  obtain ⟨source, branch, hlast, hwoken, hmissed⟩ := hattended.lastSource
    (hadvance.answered ▸ hadvance.once) (fun _ _ => hof.contains) hreached hchosen
  rw [hdone] at hwoken hmissed
  refine ⟨source, branch, hlast, hwoken, fun hnot => ?_⟩
  obtain ⟨⟨node, hlookup, hwaits⟩, hleft, hbefore⟩ := hmissed hnot
  refine ⟨(hof.waits_iff hlookup).2 hwaits,
    (deferrals_between hclosing hopening news).symm ▸ hleft, ?_⟩
  -- the entries before and after those of the walk are comments, which neither leave nor choose
  intro later e earlier hsplit hdeferred
  have he : e.event.isComment = false := by
    obtain ⟨tag, event⟩ := e
    cases event <;> first | rfl | cases hdeferred
  obtain ⟨later', earlier', hnews, rfl⟩ := split_between hclosing hopening he hsplit
  have hearlier := choices_between (List.forall_mem_nil _) hopening earlier'
  rw [List.nil_append] at hearlier
  rw [hearlier]
  exact hbefore later' e earlier' hnews hdeferred

/-- A trigger that leads to a node that passes its input on and to a condition, and a merge that
waits for both. The condition holds, and leads to the merge on one branch. -/
def joinedOn (branch : String) : Graph where
  id := .text "unknown"
  name := .text "unknown"
  nodes := [
    ⟨.text "t", .object [("id", .text "t"), ("type", .text "manual-trigger")]⟩,
    ⟨.text "a", .object [("id", .text "a"), ("type", .text "pass")]⟩,
    ⟨.text "b", .object [("id", .text "b"), ("type", .text "condition"),
      ("data", .object [("config",
        .object [("field", .text "x"), ("operator", .text "is_empty")])])]⟩,
    ⟨.text "m", .object [("id", .text "m"), ("type", .text "merge"),
      ("data", .object [("config", .object [("waitForAll", .bool true)])])]⟩]
  edges := [⟨.text "t", .text "a", .null⟩, ⟨.text "t", .text "b", .null⟩,
    ⟨.text "a", .text "m", .null⟩, ⟨.text "b", .text "m", .text branch⟩]

theorem joinedOn_read (branch : String) :
    Graph.ofValue (joinedOn branch).toValue = .ok (joinedOn branch) := by rfl

/-- Definitions of which none is made a loop make no graph with one. -/
theorem Graph.loopless_of_nodes {registry : Registry} {graph : Graph}
    (h : graph.nodes.all fun d => (registry.makeNode d.body).toOption.all fun made =>
      match made.cls.kind with
      | .loop => false
      | _ => true) (id : Key) : ¬ graph.IsLoop registry id := by
  rintro ⟨node, ⟨_, d, made, settings, hd, hmade, rfl⟩, hkind⟩
  have hnode := List.all_eq_true.1 h d (Graph.node?_some hd).1
  change made.cls.kind = .loop at hkind
  simp [hmade, Except.toOption, hkind] at hnode

theorem joinedOn_loopless (branch : String) (id : Key) : ¬ (joinedOn branch).IsLoop .builtin id :=
  Graph.loopless_of_nodes rfl id

theorem joinedOn_waits (branch : String) : (joinedOn branch).Waits .builtin (.text "m") :=
  ⟨_, _, _, rfl, rfl, rfl, rfl, rfl⟩

/-- If the condition leads to the merge on the branch that it chooses, the merge is executed when it
is reached for the second time. -/
theorem courseOf_awaited_joined :
    let graph := joinedOn "true"
    let run : Run := { world := {}, state := {} }
    let run' := ((courseOf .builtin none 20 graph.toValue).run run).2
    Registry.builtin.KeepsBooks ∧ Graph.ofValue graph.toValue = .ok graph ∧
      (∀ id, ¬ graph.IsLoop .builtin id) ∧ run.state.executed = [] ∧ run.state.outputs = [] ∧
      run.state.frames = [] ∧
      ((courseOf .builtin none 20 graph.toValue).run run).1.map Except.isOk = some true ∧
      run'.results.map NodeResult.node = [.text "t", .text "a", .text "b", .text "m"] ∧
      ∃ made news, run'.results = run.results ++ made ∧
        run'.world.journal = news ++ run.world.journal ∧
        (made.map NodeResult.node).Nodup ∧
        made.map NodeResult.node = (choices news).map Prod.fst ∧
        (∀ id, Entries.contains id run'.state.outputs = true ↔ id ∈ made.map NodeResult.node) ∧
        (∀ id, id ∈ run'.state.executed ↔ id ∈ made.map NodeResult.node) ∧
        ∀ id, (∃ source, graph.Follows (choices news) source id) →
          (∀ source ∈ graph.sources id, Entries.contains source run'.state.outputs = true) →
          ∃ source branch, graph.LastSource (choices news) id source branch ∧
            (graph.Follows [(source, branch)] source id → id ∈ made.map NodeResult.node) ∧
            (id ∉ made.map NodeResult.node →
              graph.Waits .builtin id ∧ id ∈ deferrals news ∧
              ∀ later e earlier, news = later ++ e :: earlier → e.event.deferred? = some id →
                source ∉ (choices earlier).map Prod.fst) :=
  ⟨Registry.builtin_keepsBooks, joinedOn_read _, joinedOn_loopless _, rfl, rfl, rfl,
    by decide +kernel, by decide +kernel,
    courseOf_awaited Registry.builtin_keepsBooks none 20 (joinedOn_read _) (joinedOn_loopless _) rfl
      rfl rfl (by decide +kernel)⟩

/-- Some nodes that chose their branches lead to another if one of them does. -/
theorem Graph.follows_of_any {graph : Graph} {chosen : List (Key × Value)} {id target : Key}
    (h : (chosen.any fun c => c.1 == id && (graph.targets id c.2).contains target) = true) :
    graph.Follows chosen id target := by
  obtain ⟨⟨source, branch⟩, hchosen, h⟩ := List.any_eq_true.1 h
  obtain ⟨hsource, htarget⟩ := Bool.and_eq_true_iff.1 h
  obtain rfl := eq_of_beq hsource
  have hfollows := Graph.mem_targets.1 (List.contains_iff_mem.1 htarget)
  exact hfollows.mono (List.cons_subset.2 ⟨hchosen, List.nil_subset _⟩)

/-- If it leads there on the other branch, the merge is never executed, though it has been reached
and everything that it waits for has arrived. -/
theorem joinedOn_missed :
    let graph := joinedOn "false"
    let run' := ((courseOf .builtin none 20 graph.toValue).run { world := {}, state := {} }).2
    (∀ id, ¬ graph.IsLoop .builtin id) ∧
      ((courseOf .builtin none 20 graph.toValue).run
        { world := {}, state := {} }).1.map Except.isOk = some true ∧
      graph.Waits .builtin (.text "m") ∧
      graph.Follows (choices run'.world.journal) (.text "a") (.text "m") ∧
      (∀ source ∈ graph.sources (.text "m"),
        Entries.contains source run'.state.outputs = true) ∧
      .text "m" ∉ run'.state.executed ∧
      run'.results.map NodeResult.node = [.text "t", .text "a", .text "b"] :=
  ⟨joinedOn_loopless _, by decide +kernel, joinedOn_waits _,
    Graph.follows_of_any (by decide +kernel), by decide +kernel, by decide +kernel,
    by decide +kernel⟩

end WorkflowEngine
