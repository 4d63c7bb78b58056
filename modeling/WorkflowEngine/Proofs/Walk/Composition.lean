import WorkflowEngine.Proofs.Walk.Outcome

/-!
# How a visit is put together

A visit is put together of steps that come to an outcome whatever happens, of sequences, and of
parts whose failure is caught and passed on once something has been put right. A property of such
parts that passes through these three ways (`Closed`) holds of every visit, if it holds of the
replays that the visit can start and of the count of visits (`Closed.visit`). The property may be
one of several parts at once: what it speaks of is a family of parts, so that two walks with
different budgets, or all walks with more and more steps, are followed through a visit together.
-/

namespace WorkflowEngine

namespace Walk

variable {α β : Type}

/-- A step that is not given up and leaves the results and the visits. -/
def Aside (step : Walk Unit) : Prop :=
  ∀ r, ∃ bench, step.run r = (some (.ok ()), { r with toBench := bench })

theorem changeState_aside (g : RunState → RunState) : Aside (changeState g) :=
  fun r => ⟨{ r.toBench with state := g r.state }, rfl⟩

theorem changeWorld_aside (g : World → World) : Aside (changeWorld g) :=
  fun r => ⟨{ r.toBench with world := g r.world }, rfl⟩

/-- A part that comes to an outcome from every run. It only adds to the results, and counts no
visit. -/
def Sure (part : Walk α) : Prop :=
  ∀ r, ∃ o r', part.run r = (some o, r') ∧ r.results <+: r'.results ∧ r'.visits = r.visits

namespace Sure

theorem of_eq {part : Walk α} {o : Run → Attempt α} {g : Run → Run}
    (h : ∀ r, part.run r = (some (o r), g r)) (results : ∀ r, (g r).results = r.results)
    (visits : ∀ r, (g r).visits = r.visits) : Sure part :=
  fun r => ⟨o r, g r, h r, results r ▸ List.prefix_rfl, visits r⟩

theorem pure (a : α) : Sure (pure a : Walk α) :=
  of_eq (g := id) (fun _ => rfl) (fun _ => rfl) fun _ => rfl

theorem throw (f : Failure) : Sure (throw f : Walk α) :=
  of_eq (g := id) (fun _ => rfl) (fun _ => rfl) fun _ => rfl

theorem get : Sure get := of_eq (g := id) (fun _ => rfl) (fun _ => rfl) fun _ => rfl

theorem ofAttempt (a : Attempt α) : Sure (ofAttempt a) := by
  cases a with
  | ok a => exact pure a
  | error f => exact throw f

theorem ofAct (act : Act α) : Sure (ofAct act) :=
  of_eq (run_ofAct act) (fun _ => rfl) fun _ => rfl

theorem aside {step : Walk Unit} (h : Aside step) : Sure step := by
  intro r
  obtain ⟨bench, hrun⟩ := h r
  exact ⟨.ok (), _, hrun, List.prefix_rfl, rfl⟩

theorem changeState (g : RunState → RunState) : Sure (changeState g) := aside (changeState_aside g)

theorem note (event : Event) : Sure (note event) := aside (changeWorld_aside _)

theorem bind {part : Walk α} {next : α → Walk β} (h : Sure part) (hn : ∀ a, Sure (next a)) :
    Sure (part >>= next) := by
  intro r
  obtain ⟨o, r', hrun, hresults, hvisits⟩ := h r
  rw [run_bind, hrun]
  cases o with
  | error f => exact ⟨.error f, r', rfl, hresults, hvisits⟩
  | ok a =>
    obtain ⟨o', r'', hrun', hresults', hvisits'⟩ := hn a r'
    exact ⟨o', r'', hrun', hresults.trans hresults', hvisits'.trans hvisits⟩

end Sure

/-- A part that is given up for a failure from every run. Of the results it adds failures at most,
and it counts no visit. -/
def PassesOn (f : Failure) (part : Walk α) : Prop :=
  ∀ r, ∃ r' failed, part.run r = (some (.error f), r') ∧ r'.results = r.results ++ failed ∧
    (∀ result ∈ failed, result.succeeded = false) ∧ r'.visits = r.visits

/-- A property of families of parts that passes through the ways in which a visit is put
together. -/
structure Closed {ι : Type} (C : (α : Type) → (ι → Walk α) → Prop) : Prop where
  sure : ∀ {α : Type} {part : Walk α}, Sure part → C α fun _ => part
  bind : ∀ {α β : Type} {p : ι → Walk α} {next : ι → α → Walk β}, C α p →
    (∀ a, C β fun i => next i a) → C β fun i => p i >>= next i
  /-- What follows a part that is caught goes by its outcome, and passes a failure on. -/
  handle : ∀ {α β : Type} {p : ι → Walk α} {next : ι → Attempt α → Walk β}, C α p →
    (∀ o, C β fun i => next i o) → (∀ i f, PassesOn f (next i (.error f))) →
    C β fun i => outcome (p i) >>= next i

end Walk

/-! ## The parts of a visit -/

open Walk

namespace Plan

theorem run_keep (node : Node) (start : Instant) (input : Value) (outcome : Attempt Value)
    (r : Run) : ∃ result : NodeResult, result.outcome = outcome ∧
      (keep node start input outcome).run r =
        (some (.ok result), { r with results := r.results ++ [result] }) :=
  ⟨_, rfl, rfl⟩

theorem keep_sure (node : Node) (start : Instant) (input : Value) (outcome : Attempt Value) :
    Sure (keep node start input outcome) := by
  intro r
  obtain ⟨result, _, hrun⟩ := run_keep node start input outcome r
  exact ⟨_, _, hrun, List.prefix_append _ _, rfl⟩

theorem settleReply_sure (node : Node) (start : Instant) (input : Value) (time : Nat)
    (reply : Reply) : Sure (settleReply node start input time reply) := by
  refine (keep_sure node start input _).bind fun _ => ?_
  refine (Sure.changeState _).bind fun _ => Sure.get.bind fun _ => ?_
  exact (Sure.note _).bind fun _ => Sure.pure _

/-- The failure of a node is passed on, kept or not. -/
theorem settleFailure_passesOn (node : Node) (start : Instant) (input : Value) (f : Failure) :
    PassesOn f (settleFailure node start input f) := by
  intro r
  unfold settleFailure
  cases f.isRecordable with
  | false => exact ⟨r, [], rfl, (List.append_nil _).symm, by simp, rfl⟩
  | true => exact ⟨_, [_], rfl, rfl, List.forall_mem_singleton.2 rfl, rfl⟩

theorem settleFailure_sure (node : Node) (start : Instant) (input : Value) (f : Failure) :
    Sure (settleFailure node start input f) := by
  intro r
  obtain ⟨r', failed, hrun, hresults, _, hvisits⟩ := settleFailure_passesOn node start input f r
  exact ⟨_, _, hrun, hresults ▸ List.prefix_append _ _, hvisits⟩

/-- A plan with another budget. -/
def withBudget (plan : Plan) (budget : Option Int) : Plan := { plan with budget := budget }

end Plan

theorem Node.beginItem_sure (itemName indexName : Value) (index : Nat) (item : Value) :
    Sure (beginItem itemName indexName index item) := by
  refine (Sure.changeState _).bind fun _ => (Sure.ofAttempt _).bind fun name => ?_
  refine (Sure.changeState _).bind fun _ => ?_
  split
  · refine (Sure.ofAttempt _).bind fun name => ?_
    exact (Sure.changeState _).bind fun _ => Sure.changeState _
  · exact Sure.changeState _

namespace Walk.Closed

variable {ι α : Type} {C : (α : Type) → (ι → Walk α) → Prop}

/-- What is put between two steps is caught, and its outcome is passed on after the second. -/
theorem between (h : Closed C) {before after : Walk Unit} (hbefore : Aside before)
    (hafter : Aside after) {p : ι → Walk α} (hp : C α p) :
    C α fun i => Walk.between before after (p i) := by
  refine h.bind (h.sure (.aside hbefore)) fun _ => h.handle hp (fun o => ?_) fun _ f r => ?_
  · exact h.sure ((Sure.aside hafter).bind fun _ => .ofAttempt o)
  · obtain ⟨bench, hrun⟩ := hafter r
    refine ⟨{ r with toBench := bench }, [], ?_, (List.append_nil _).symm, by simp, rfl⟩
    rw [run_bind, hrun]
    rfl

theorem underNode (h : Closed C) (node : Key) {p : ι → Walk α} (hp : C α p) :
    C α fun i => Walk.underNode node (p i) :=
  h.bind (h.sure .get) fun _ => h.between (changeWorld_aside _) (changeWorld_aside _) hp

variable {f : ι → Key → Walk Unit}

theorem forM (h : Closed C) (ids : List Key) (hf : ∀ id ∈ ids, C Unit fun i => f i id) :
    C Unit fun i => ids.forM (f i) := by
  induction ids with
  | nil => exact h.sure (.pure ())
  | cons id ids ih =>
    obtain ⟨hid, hids⟩ := List.forall_mem_cons.1 hf
    exact h.bind hid fun _ => ih hids

theorem replayItems (h : Closed C) {targets : List Key}
    (hf : ∀ id ∈ targets, C Unit fun i => f i id) (itemName indexName : Value)
    (items : List Value) :
    ∀ index, C (List Value) fun i =>
      Node.replayItems (f i) targets itemName indexName index items := by
  induction items with
  | nil => exact fun _ => h.sure (.pure [])
  | cons item rest ih =>
    intro index
    refine h.bind (h.sure (Node.beginItem_sure itemName indexName index item)) fun _ => ?_
    refine h.bind (h.forM targets hf) fun _ => ?_
    exact h.bind (ih (index + 1)) fun _ => h.sure (.pure _)

variable (plan : Plan) {node : Node}

theorem runLoop (h : Closed C) (hf : ∀ id ∈ plan.graph.targets node.id, C Unit fun i => f i id) :
    C Reply fun i => node.runLoop plan (f i) := by
  refine h.bind (h.sure (.ofAct _)) fun items => ?_
  refine h.bind (h.sure (.ofAttempt _)) fun itemName => ?_
  refine h.bind (h.sure (.ofAttempt _)) fun indexName => ?_
  refine h.bind (h.sure (.note _)) fun _ => ?_
  refine h.bind (h.between (changeState_aside _) (changeState_aside _) ?_) fun reports => ?_
  · exact h.replayItems hf itemName indexName items 0
  · exact h.sure ((Sure.changeState _).bind fun _ => .pure _)

/-- Of the replays only those from the targets of the node matter to its invocation. -/
theorem invoke (h : Closed C) (hf : ∀ id ∈ plan.graph.targets node.id, C Unit fun i => f i id) :
    C Reply fun i => node.invoke plan (f i) := by
  refine h.bind (h.sure .get) fun _ => h.bind (h.sure (.ofAttempt _)) fun _ => ?_
  unfold Node.act
  cases node.cls.kind with
  | loop => exact h.runLoop plan hf
  | _ => exact h.sure (.ofAct _)

theorem execute (h : Closed C) (hf : ∀ id ∈ plan.graph.targets node.id, C Unit fun i => f i id) :
    C Value fun i => plan.execute (f i) node := by
  refine h.bind (h.sure (.changeState _)) fun _ => ?_
  refine h.bind (h.sure .get) fun start => h.bind (h.sure .get) fun input => ?_
  refine h.bind (h.sure .get) fun time => h.underNode node.id ?_
  refine h.bind (h.sure .get) fun _ => h.bind (h.sure (.note _)) fun _ => ?_
  -- what follows the invocation goes by its outcome, and passes a failure on once it is settled
  refine h.handle (h.invoke plan hf) (fun o => ?_) fun _ f => ?_
  · cases o with
    | ok reply => exact h.sure (Plan.settleReply_sure _ _ _ _ reply)
    | error f => exact h.sure (Plan.settleFailure_sure _ _ _ f)
  · exact Plan.settleFailure_passesOn _ _ _ f

/-- **What passes through the ways in which a visit is put together holds of a visit**, if it holds
of the replays and of the count of visits. The budget matters to the count alone. -/
theorem visit (h : Closed C) (budget : ι → Option Int) (hf : ∀ id, C Unit fun i => f i id)
    (hcount : C Unit fun i => (plan.withBudget (budget i)).countVisit) (id : Key) :
    C (List Key) fun i => (plan.withBudget (budget i)).visit (f i) id := by
  unfold Plan.visit
  dsimp only [Plan.withBudget]
  cases plan.nodes.lookup id with
  | none => exact h.sure (.pure [])
  | some node =>
    refine h.bind (h.sure .get) fun run => ?_
    cases run.state.shouldSkip id with
    | true => exact h.sure ((Sure.note _).bind fun _ => .pure [])
    | false =>
      refine h.bind (h.sure (.ofAct _)) fun ready => ?_
      cases ready with
      | false => exact h.sure ((Sure.note _).bind fun _ => .pure [])
      | true =>
        -- only here the members of the family may differ: in the count and in the replays
        refine h.bind hcount fun _ => h.bind (h.execute plan fun id _ => hf id) fun branch => ?_
        exact h.sure (.pure _)

end Walk.Closed

end WorkflowEngine
