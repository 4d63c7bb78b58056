import WorkflowEngine.Proofs.Graph.Body
import WorkflowEngine.Proofs.Run.Advance
import WorkflowEngine.Proofs.Run.Record
import WorkflowEngine.Proofs.Walk.Journal

/-!
# What a loop replays

While a loop is replayed no node counts as executed, so a node is invoked as often as the walk comes
to it. If the nodes of the body go on along all their edges (`Plan.Steady`), the walk of an item
unfolds the body (`Steady.replays_walk`): it invokes a node once for each way on which edges lead to
it. Each item is a round of its own (`Steady.replays_items`).
-/

namespace WorkflowEngine

open Walk

/-- The node that an event shows to be invoked. -/
def Event.invoked? : Event → Option Key
  | .invoked id _ _ _ => some id
  | _ => none

/-- The nodes that some entries show to be invoked, in order. -/
def invocations (entries : List Entry) : List Key :=
  entries.reverse.filterMap fun e => e.event.invoked?

theorem invocations_append (later earlier : List Entry) :
    invocations (later ++ earlier) = invocations earlier ++ invocations later := by
  rw [invocations, List.reverse_append, List.filterMap_append]
  rfl

theorem invocations_of_comments {entries : List Entry}
    (h : ∀ e ∈ entries, e.event.isComment = true) : invocations entries = [] := by
  refine List.filterMap_eq_nil_iff.2 fun e he => ?_
  have hcomment := h e (List.mem_reverse.1 he)
  obtain ⟨tag, event⟩ := e
  cases event <;> first | rfl | cases hcomment

/-- The node of whose invocation an event tells. -/
def Event.subject? : Event → Option Key
  | .invoked id _ _ _ | .failed id _ _ _ | .succeeded id _ _ _ _ _ | .loopBegan id _ _ => some id
  | _ => none

theorem Event.subject?_of_isRemark {event : Event} (h : event.isRemark = true) :
    event.subject? = none := by
  cases event <;> first | rfl | cases h

theorem Event.subject?_of_success? {event : Event} {id : Key} {output : Value}
    (h : event.success? = some (id, output)) : event.subject? = some id := by
  cases event <;> simp_all [success?, subject?]

theorem Event.subject?_of_invoked? {event : Event} {id : Key} (h : event.invoked? = some id) :
    event.subject? = some id := by
  cases event <;> simp_all [invoked?, subject?]

/-! ## Nodes that go on along all their edges -/

/-- A node that is ready whenever it is come to, and goes on along all its edges once it has
answered. It is no loop. -/
structure Node.Steady (node : Node) : Prop where
  kind : node.cls.kind ≠ .loop
  eager : ¬ node.Waits
  straight : ∀ bench reply, (node.execute.runOn bench).1 = .ok reply → reply.branch.holds = false

/-- The definition of a node makes it one that goes on along all its edges. -/
def Graph.Steady (registry : Registry) (graph : Graph) (id : Key) : Prop :=
  ∀ node, graph.Builds registry id node → node.Steady

/-- A branch that does not count as true is none. -/
theorem Graph.targets_of_not_holds {graph : Graph} {branch : Value} (h : branch.holds = false)
    (id : Key) : graph.targets id branch = graph.targets id := by
  have hnull : Value.null.holds = false := rfl
  simp only [targets, takes, h, hnull, Bool.not_false, Bool.true_or]

/-! ## What is noted of invocations -/

/-- Some entries show some nodes to be invoked, in order, each of which answers before the next. -/
structure Traces (entries : List Entry) (trace : List Key) : Prop where
  invoked : invocations entries = trace
  answered : (choices entries).map Prod.fst = trace

theorem Traces.of_comments {entries : List Entry} (h : ∀ e ∈ entries, e.event.isComment = true) :
    Traces entries [] where
  invoked := invocations_of_comments h
  answered := by
    rw [choices_of_remarks fun e he => Event.isRemark_of_isComment (h e he)]
    rfl

theorem Traces.append {earlier later : List Entry} {trace trace' : List Key}
    (h : Traces earlier trace) (h' : Traces later trace') :
    Traces (later ++ earlier) (trace ++ trace') where
  invoked := by rw [invocations_append, h.invoked, h'.invoked]
  answered := by rw [choices_append, List.map_append, h.answered, h'.answered]

/-- Some entries are about no invocations but of some nodes. -/
def About (ids : List Key) (entries : List Entry) : Prop :=
  ∀ e ∈ entries, ∀ id, e.event.subject? = some id → id ∈ ids

theorem About.lasting (ids : List Key) : Lasting (About ids) :=
  Lasting.of_forall fun e => ∀ id, e.event.subject? = some id → id ∈ ids

theorem About.of_remarks {ids : List Key} {entries : List Entry}
    (h : ∀ e ∈ entries, e.event.isRemark = true) : About ids entries := by
  intro e he id hid
  rw [Event.subject?_of_isRemark (h e he)] at hid
  cases hid

namespace Plan

variable {plan : Plan} {ids : List Key} {replay : Key → Walk Unit}

/-- What an execution notes last, by what the invocation and the execution have come to. -/
inductive Closing (node : Node) (time : Nat) :
    Option (Attempt Reply) → Option (Attempt Value) → List Entry → Prop where
  | stopped : Closing node time none none []
  | answered (reply : Reply) (tag : Tag) (milliseconds : Int) (state : RunState) :
      Closing node time (some (.ok reply)) (some (.ok reply.branch))
        [⟨tag, .succeeded node.id node.type milliseconds reply.branch
          (reply.output.madeBy (.visit time 0)) state⟩]
  | failed (f : Failure) (tag : Tag) (state : RunState) :
      Closing node time (some (.error f)) (some (.error f))
        [⟨tag, .failed node.id node.type f state⟩]
  | abandoned (f : Failure) : Closing node time (some (.error f)) (some (.error f)) []

variable (plan) in
/-- An execution notes that its node is invoked, what the invocation notes, and how that ends. -/
theorem execute_closing (replay : Key → Walk Unit) (node : Node) (run : Run) :
    ∃ tag closing, let invoked := (node.invoke plan replay).run (Invocation.begun node tag run)
      let executed := (plan.execute replay node).run run.visited
      Closing node (run.state.time + 1) invoked.1 executed.1 closing ∧
      executed.2.world.journal = closing ++ invoked.2.world.journal ∧
      executed.2.state.frames = invoked.2.state.frames := by
  have hcase := execute_cases plan replay node run
  generalize (plan.execute replay node).run run.visited = res at hcase ⊢
  cases hcase with
  | @stopped tag r invoked =>
    refine ⟨tag, ?_⟩
    rw [invoked]
    exact ⟨_, .stopped, rfl, rfl⟩
  | @answered tag r reply call output same invoked input kept =>
    subst same kept
    refine ⟨tag, ?_⟩
    rw [invoked]
    exact ⟨_, .answered reply r.world.tag _ _, rfl, RunState.record_frames _ _ _⟩
  | @failed tag r f call same invoked =>
    subst same
    refine ⟨tag, ?_⟩
    rw [invoked]
    exact ⟨_, .failed f r.world.tag r.state, rfl, rfl⟩
  | @abandoned tag r f invoked =>
    refine ⟨tag, ?_⟩
    rw [invoked]
    exact ⟨_, .abandoned f, rfl, rfl⟩

theorem Closing.subject {node : Node} {time : Nat} {o : Option (Attempt Reply)}
    {o' : Option (Attempt Value)} {closing : List Entry} (h : Closing node time o o' closing) :
    ∀ e ∈ closing, ∀ id, e.event.subject? = some id → id = node.id := by
  intro e he id hid
  cases h with
  | stopped | abandoned => cases he
  | answered | failed =>
    rw [List.mem_singleton.1 he] at hid
    exact (Option.some.inj hid).symm

variable (plan) in
/-- What the execution of a node that is no loop notes is about the node, and if the node answers it
was invoked and has answered once. -/
theorem execute_plain {node : Node} (kind : node.cls.kind ≠ .loop)
    (books : ∀ executor branching, node.cls.kind = .custom executor branching → executor.KeepsBooks)
    (replay : Key → Walk Unit) (run : Run) :
    let executed := (plan.execute replay node).run run.visited
    ∃ news, executed.2.world.journal = news ++ run.world.journal ∧
      (∀ e ∈ news, ∀ id, e.event.subject? = some id → id = node.id) ∧
      ∀ branch, executed.1 = some (.ok branch) → executed.2.state.frames = run.state.frames ∧
        Traces news [node.id] ∧
        ∃ bench reply, (node.execute.runOn bench).1 = .ok reply ∧ branch = reply.branch := by
  obtain ⟨tag, closing, hclosing, hjournal, hframes⟩ := execute_closing plan replay node run
  obtain ⟨o, bench, hinvoke, hbooks, ⟨entries, hentries, hcomments⟩, hreply⟩ :=
    invoke_plain plan kind books replay (Invocation.begun node tag run)
  rw [hinvoke] at hclosing hjournal hframes
  let began : Entry := ⟨tag, .invoked node.id node.label node.type
    { run.state with time := run.state.time + 1 }⟩
  refine ⟨closing ++ (entries ++ [began]), ?_, fun e he id hid => ?_, fun branch hbranch => ?_⟩
  · rw [hjournal, List.append_assoc, List.append_assoc]
    exact congrArg (closing ++ ·) hentries
  · rcases List.mem_append.1 he with he | he
    · exact hclosing.subject e he id hid
    rcases List.mem_append.1 he with he | he
    · rw [Event.subject?_of_isRemark (Event.isRemark_of_isComment (hcomments e he))] at hid
      cases hid
    · rw [List.mem_singleton.1 he] at hid
      exact (Option.some.inj hid).symm
  · rw [hbranch] at hclosing
    have hquiet : choices entries = [] :=
      choices_of_remarks fun e he => Event.isRemark_of_isComment (hcomments e he)
    refine ⟨hframes.trans hbooks.frames, ?_⟩
    cases hclosing with
    | answered reply =>
      refine ⟨⟨?_, ?_⟩, _, reply, hreply reply rfl, rfl⟩
      · rw [invocations_append, invocations_append, invocations_of_comments hcomments]
        rfl
      · rw [choices_append, choices_append, hquiet]
        rfl

/-- A visit notes remarks, and what the execution of its node notes if it comes to that. -/
theorem tells_visit {kind : RunState → Prop} {always : List Entry → Prop} {id : Key}
    {known : List Key → List Entry → Prop} (named : plan.Named) (lasting : Lasting always)
    (stays : ∀ s s' : RunState, s.SameBooks s' → kind s → kind s')
    (remarks : ∀ entries, (∀ e ∈ entries, e.event.isRemark = true) → always entries)
    (passed : ∀ s : RunState, kind s → (plan.nodes.lookup id = none ∨ s.shouldSkip id = true ∨
      ∃ node, plan.nodes.lookup id = some node ∧ node.Waits) → ∀ news, known [] news)
    (executed : ∀ node, plan.nodes.lookup id = some node → node.id = id →
      (∃ bench, (node.isReady.runOn bench).1 = .ok true) → ∀ run : Run, kind run.state →
      let res := (plan.execute replay node).run run.visited
      ∃ news, res.2.world.journal = news ++ run.world.journal ∧ always news ∧
        ∀ branch, res.1 = some (.ok branch) → kind res.2.state ∧
          ∀ entries, (∀ e ∈ entries, e.event.isComment = true) →
            known (plan.leadsTo node branch) (news ++ entries)) :
    Tells kind always (plan.visit replay id) known := by
  intro run hkind
  have hcase := visit_cases named replay id run
  generalize (plan.visit replay id).run run = res at hcase ⊢
  cases hcase with
  | unknown unknown =>
    exact ⟨[], rfl, lasting.nil, fun _ h => by
      cases h; exact ⟨hkind, passed _ hkind (.inl unknown) []⟩⟩
  | skipped known skipped =>
    refine ⟨[⟨run.world.tag, .skipped id⟩], rfl, remarks _ (List.forall_mem_singleton.2 rfl), ?_⟩
    intro next h
    cases h
    exact ⟨hkind, passed _ hkind (.inr (.inl skipped)) _⟩
  | unready => exact ⟨[], rfl, lasting.nil, fun _ h => by cases h⟩
  | @deferred node bench known due waits spares =>
    obtain ⟨entries, hjournal, hcomments⟩ := spares.world.journal
    have hwaits : node.Waits := (Node.isReady_false node (congrArg Prod.fst waits)).1
    refine ⟨⟨bench.world.tag, .deferred id node.type⟩ :: entries, congrArg (_ :: ·) hjournal,
      remarks _ (List.forall_mem_cons.2 ⟨rfl, fun e he => ?_⟩), fun next h => ?_⟩
    · exact Event.isRemark_of_isComment (hcomments e he)
    · cases h
      exact ⟨stays _ _ spares.state.sameBooks hkind,
        passed _ hkind (.inr (.inr ⟨node, known, hwaits⟩)) _⟩
  | exceeded spares =>
    obtain ⟨entries, hjournal, hcomments⟩ := spares.world.journal
    refine ⟨entries, hjournal, remarks _ fun e he => ?_, fun _ h => by cases h⟩
    exact Event.isRemark_of_isComment (hcomments e he)
  | @executed node bench known same due ready spares allowed =>
    obtain ⟨entries, hentries, hcomments⟩ := spares.world.journal
    have hasked : kind (run.onBench bench).state := stays _ _ spares.state.sameBooks hkind
    obtain ⟨news, hjournal, halways, hended⟩ :=
      executed node (same ▸ known) same ⟨run.toBench, congrArg Prod.fst ready⟩ (run.onBench bench)
        hasked
    have hremarks : always entries :=
      remarks _ fun e he => Event.isRemark_of_isComment (hcomments e he)
    rw [run_bind]
    generalize (plan.execute replay node).run (run.onBench bench).visited = res at hjournal hended ⊢
    have hall : res.2.world.journal = (news ++ entries) ++ run.world.journal := by
      rw [hjournal, List.append_assoc]
      exact congrArg (news ++ ·) hentries
    have hlasting : always (news ++ entries) := lasting.append hremarks halways
    obtain ⟨_ | f | branch, r⟩ := res
    · exact ⟨_, hall, hlasting, fun _ h => by cases h⟩
    · exact ⟨_, hall, hlasting, fun _ h => by cases h⟩
    · obtain ⟨hkind', hknown⟩ := hended branch rfl
      refine ⟨_, hall, hlasting, fun next h => ?_⟩
      cases h
      exact ⟨hkind', hknown entries hcomments⟩

/-! ## The walk of an item -/

/-- The body of a loop in a plan: it has whatever edges lead to from it, and each of its nodes goes
on along all its edges. -/
structure Steady (plan : Plan) (ids : List Key) : Prop where
  closed : ∀ id ∈ ids, ∀ target ∈ plan.graph.targets id, target ∈ ids
  steady : ∀ id ∈ ids, ∃ node, plan.nodes.lookup id = some node ∧ node.Steady

/-- A walk that stays in the body stays there with the targets of a node on its stack. -/
theorem Steady.targets_append_subset (h : plan.Steady ids) {id : Key} {rest : List Key}
    (hstack : id :: rest ⊆ ids) : plan.graph.targets id ++ rest ⊆ ids := by
  obtain ⟨hid, hrest⟩ := List.cons_subset.1 hstack
  exact List.append_subset.2 ⟨h.closed id hid, hrest⟩

/-- A part of a replay tells of the body only. -/
abbrev Replays {α : Type} (ids : List Key) (part : Walk α) (traces : α → List Key → Prop) : Prop :=
  Tells (fun s => s.inLoop = true) (About ids) part fun a news =>
    ∃ trace, Traces news trace ∧ traces a trace

/-- A node of the body is invoked and goes on along all its edges, unless the visit is given up. -/
theorem Steady.replays_visit (h : plan.Steady ids) (named : plan.Named) (books : plan.KeepsBooks)
    {id : Key} (hid : id ∈ ids) : Replays ids (plan.visit replay id) fun next trace =>
      next = plan.graph.targets id ∧ trace = [id] := by
  obtain ⟨node, hlookup, hsteady⟩ := h.steady id hid
  refine tells_visit named (About.lasting ids) (fun s s' hbooks hin => ?_)
    (fun _ => About.of_remarks) (fun s hin hpassed => ?_) fun node' hnode same _ run hin => ?_
  · rwa [RunState.inLoop, hbooks.frames]
  · -- a node of the body is known, it is not skipped in a replay, and it waits for nothing
    exfalso
    rcases hpassed with hunknown | hskipped | ⟨node', hnode, hwaits⟩
    · rw [hlookup] at hunknown
      cases hunknown
    · simp [RunState.shouldSkip, hin] at hskipped
    · obtain rfl : node = node' := Option.some.inj (hlookup.symm.trans hnode)
      exact hsteady.eager hwaits
  · obtain rfl : node = node' := Option.some.inj (hlookup.symm.trans hnode)
    subst same
    obtain ⟨news, hjournal, hsubject, hanswered⟩ := execute_plain plan hsteady.kind
      (fun executor branching => books node.id node executor branching hnode) replay run
    have habout : About ids news := fun e he id hid' => hsubject e he id hid' ▸ hid
    refine ⟨news, hjournal, habout, fun branch hbranch => ?_⟩
    obtain ⟨hframes, htraces, bench, reply, hreply, rfl⟩ := hanswered branch hbranch
    refine ⟨?_, fun entries hcomments => ⟨[node.id], ?_, ?_, rfl⟩⟩
    · rwa [RunState.inLoop, hframes]
    · exact (Traces.of_comments hcomments).append htraces
    · rw [leadsTo_of_kind hsteady.kind,
        Graph.targets_of_not_holds (hsteady.straight bench reply hreply)]

/-- **The walk from nodes of the body unfolds them**, unless it is given up. -/
theorem Steady.replays_walk (h : plan.Steady ids) (named : plan.Named) (books : plan.KeepsBooks)
    (fuel : Nat) : ∀ stack ⊆ ids, Replays ids (plan.walk fuel stack) fun _ trace =>
      plan.graph.Unfolds stack trace := by
  induction fuel with
  | zero => exact fun _ _ => Tells.exhausted (About.lasting ids)
  | succ fuel ih =>
    intro stack hstack
    cases stack with
    | nil => exact Tells.pure (About.lasting ids) ⟨[], .of_comments (by simp), .nil⟩
    | cons id rest =>
      have hid : id ∈ ids := hstack List.mem_cons_self
      refine (h.replays_visit named books hid).bind (About.lasting ids) ?_
      rintro next earlier ⟨_, hearlier, rfl, rfl⟩
      refine (ih _ (h.targets_append_subset hstack)).mono ?_
      rintro _ later ⟨trace, hlater, hunfolds⟩
      exact ⟨id :: trace, hearlier.append hlater, .cons hunfolds⟩

/-- The walks from some nodes of the body, one after another, unfold them. -/
theorem Steady.replays_forM (h : plan.Steady ids) (named : plan.Named) (books : plan.KeepsBooks)
    (fuel : Nat) : ∀ targets ⊆ ids, Replays ids (targets.forM fun id => plan.walk fuel [id])
      fun _ trace => plan.graph.Unfolds targets trace := by
  intro targets
  induction targets with
  | nil =>
    exact fun _ => Tells.pure (About.lasting ids) ⟨[], .of_comments (by simp), .nil⟩
  | cons id rest ih =>
    intro htargets
    have hid : [id] ⊆ ids := List.cons_subset.2 ⟨htargets List.mem_cons_self, List.nil_subset ids⟩
    have hrest : rest ⊆ ids := fun target htarget => htargets (List.mem_cons_of_mem _ htarget)
    refine (h.replays_walk named books fuel [id] hid).bind (About.lasting ids) ?_
    rintro _ earlier ⟨trace, hearlier, hunfolds⟩
    refine (ih hrest).mono ?_
    rintro _ later ⟨trace', hlater, hunfolds'⟩
    exact ⟨trace ++ trace', hearlier.append hlater, hunfolds.append hunfolds'⟩

/-- Turning to an item notes nothing. -/
theorem tells_beginItem {kind : RunState → Prop} {always : List Entry → Prop}
    (lasting : Lasting always) (turned : ∀ s index, kind s → kind (s.setIndex index))
    (bound : ∀ s name v, kind s → kind (s.setVariable name v))
    (offered : ∀ s item, kind s → kind (s.setPrevious item)) (itemName indexName : Value)
    (index : Nat) (item : Value) :
    Tells kind always (Node.beginItem itemName indexName index item) fun _ news => news = [] := by
  refine Tells.after lasting (.changeState lasting fun s => turned s index) fun _ => ?_
  refine Tells.after lasting (.ofAttempt lasting _) fun name => ?_
  refine Tells.after lasting (.changeState lasting fun s => bound s name item) fun _ => ?_
  have hlast : Tells kind always (changeState fun s => s.setPrevious item)
      fun _ news => news = [] := .changeState lasting fun s => offered s item
  split
  · refine Tells.after lasting (.ofAttempt lasting _) fun name => ?_
    exact Tells.after lasting (.changeState lasting fun s => bound s name _) fun _ => hlast
  · exact hlast

/-- **Each item is a round of its own, which unfolds what the loop leads to.** -/
theorem Steady.replays_items (h : plan.Steady ids) (named : plan.Named) (books : plan.KeepsBooks)
    (fuel : Nat) {targets : List Key} (htargets : targets ⊆ ids) (itemName indexName : Value)
    (items : List Value) : ∀ index, Replays ids
      (Node.replayItems (fun id => plan.walk fuel [id]) targets itemName indexName index items)
      fun _ trace => ∃ rounds : List (List Key), rounds.length = items.length ∧
        trace = rounds.flatten ∧ ∀ round ∈ rounds, plan.graph.Unfolds targets round := by
  have lasting := About.lasting ids
  induction items with
  | nil =>
    exact fun _ => Tells.pure lasting ⟨[], .of_comments (by simp), [], rfl, rfl, by simp⟩
  | cons item rest ih =>
    intro index
    have hturn : Tells (fun s => s.inLoop = true) (About ids)
        (Node.beginItem itemName indexName index item) fun _ news => news = [] := by
      refine tells_beginItem lasting (fun s index hin => ?_) (fun _ _ _ hin => hin)
        (fun _ _ hin => hin) itemName indexName index item
      rwa [RunState.setIndex_inLoop]
    refine Tells.after lasting hturn fun _ => ?_
    refine (h.replays_forM named books fuel targets htargets).bind lasting ?_
    rintro _ earlier ⟨round, hearlier, hround⟩
    refine (ih (index + 1)).bind lasting ?_
    rintro reports later ⟨_, hlater, rounds, hlength, rfl, hrounds⟩
    refine Tells.pure lasting ⟨_, hearlier.append hlater, round :: rounds, ?_, rfl, ?_⟩
    · exact congrArg Nat.succ hlength
    · exact List.forall_mem_cons.2 ⟨hround, hrounds⟩

end Plan

end WorkflowEngine
