import WorkflowEngine.Proofs.Run.Books

/-!
# Scopes

What a run notes of its invocations is a tree. A scope is the top level of the run, or the replay of
one item of one loop; the invocations in it have the frames of the scope, and between a loop that is
invoked and its result lie the scopes of its items, in order (`Scoped`, `Rounds`). The inputs follow
the tree: a scope begins with what stands before the run or with its item, and each result has as
input the output of the result before it in the same scope, whatever was replayed between the two
(`courseOf_scopes`).

The tree is built along the walk, by induction on the steps. What else is known of a scope by its
frames alone, of the nodes that are visited and of the variables, is carried along as a `Regime`.
-/

namespace WorkflowEngine

open Walk

/-! ## What is noted of invocations -/

/-- What is noted of an invocation, with the state at that time: that the node is invoked, or what
is kept of it. -/
inductive Mark where
  | invoked (id : Key) (state : RunState)
  | kept (result : NodeResult) (state : RunState)

/-- The result, if one is kept. -/
def Mark.result? : Mark → Option NodeResult
  | .invoked _ _ => none
  | .kept result _ => some result

/-- The node, the outcome if there is one, and the state. -/
def Mark.shown : Mark → Key × Option (Attempt Value) × RunState
  | .invoked id s => (id, none, s)
  | .kept result s => (result.node, some result.outcome, s)

/-- What an event shows to be noted of an invocation. -/
def Event.mark? : Event → Option (Key × Option (Attempt Value) × RunState)
  | .invoked id _ _ s => some (id, none, s)
  | .succeeded id _ _ _ output s => some (id, some (.ok output), s)
  | .failed id _ f s => some (id, some (.error f), s)
  | _ => none

theorem Event.mark?_of_isRemark {event : Event} (h : event.isRemark = true) :
    event.mark? = none := by
  cases event <;> first | rfl | cases h

/-- What a run has noted of invocations since it was another run, in order: the new results are
those that were kept, and the journal shows everything with the state at that time. -/
structure Noted (before after : Run) (marks : List Mark) : Prop where
  results : after.results = before.results ++ marks.filterMap Mark.result?
  journal : ∃ news, after.world.journal = news ++ before.world.journal ∧
    marks.map Mark.shown = news.reverse.filterMap fun e => e.event.mark?

namespace Noted

variable {before between after : Run} {marks others : List Mark}

theorem trans (h : Noted before between marks) (h' : Noted between after others) :
    Noted before after (marks ++ others) where
  results := by rw [h'.results, h.results, List.filterMap_append, List.append_assoc]
  journal := by
    obtain ⟨news, hjournal, hshown⟩ := h.journal
    obtain ⟨later, hjournal', hshown'⟩ := h'.journal
    refine ⟨later ++ news, by rw [hjournal', hjournal, List.append_assoc], ?_⟩
    rw [List.map_append, hshown, hshown', List.reverse_append, List.filterMap_append]

/-- Nothing is noted of invocations if no result is kept and the journal shows nothing of them. -/
theorem quiet (entries : List Entry) (unmarked : ∀ e ∈ entries, e.event.mark? = none)
    (results : after.results = before.results)
    (journal : after.world.journal = entries ++ before.world.journal) : Noted before after [] where
  results := results.trans (List.append_nil _).symm
  journal := ⟨entries, journal, (List.filterMap_eq_nil_iff.2 fun e he =>
    unmarked e (List.mem_reverse.1 he)).symm⟩

theorem same (results : after.results = before.results)
    (journal : after.world.journal = before.world.journal) : Noted before after [] :=
  quiet [] (by simp) results journal

/-- Comments tell of no invocation. -/
theorem comments (results : after.results = before.results)
    (adds : before.world.Adds Event.isComment after.world) : Noted before after [] := by
  obtain ⟨entries, hjournal, hcomments⟩ := adds
  refine quiet entries (fun e he => ?_) results hjournal
  exact Event.mark?_of_isRemark (Event.isRemark_of_isComment (hcomments e he))

theorem one (mark : Mark) (e : Entry) (shown : e.event.mark? = some mark.shown)
    (results : after.results = before.results ++ mark.result?.toList)
    (journal : after.world.journal = e :: before.world.journal) : Noted before after [mark] where
  results := by
    rw [results]
    cases mark <;> rfl
  journal := ⟨[e], journal, by simp [shown]⟩

end Noted

namespace Plan

/-- What an execution shows first. -/
theorem noted_begun (node : Node) (tag : Tag) (run : Run) :
    Noted run (Invocation.begun node tag run)
      [.invoked node.id { run.state with time := run.state.time + 1 }] :=
  .one _ ⟨tag, .invoked node.id node.label node.type _⟩ rfl (List.append_nil _).symm rfl

/-- What an execution keeps in the end if it succeeds. -/
theorem noted_succeeded (call : Invocation) (branch output : Value) (r : Run) (tag : Tag) :
    Noted r ((call.succeeded branch output r).tagged tag)
      [.kept (call.result r.world.clock (.ok output)) (r.state.record call.node.id output)] :=
  .one _ ⟨r.world.tag, .succeeded call.node.id call.node.type _ branch output _⟩ rfl rfl rfl

/-- What an execution keeps in the end if it fails. -/
theorem noted_failed (call : Invocation) (f : Failure) (r : Run) (tag : Tag) :
    Noted r ((call.failed f r).tagged tag)
      [.kept (call.result r.world.clock (.error f)) r.state] :=
  .one _ ⟨r.world.tag, .failed call.node.id call.node.type f r.state⟩ rfl rfl rfl

end Plan

/-! ## The tree -/

mutual

/-- Some marks are those of a scope: the frames in it are the given ones, `input` stands before its
first invocation, and at its end a value stands before what follows, or none if the scope was given
up or is not over. -/
inductive Scoped : (frames : List Frame) → (input : Value) → Option Value → List Mark → Prop where
  /-- The scope is over. -/
  | done {frames : List Frame} {input : Value} : Scoped frames input (some input) []
  /-- The scope comes to no end. -/
  | stopped {frames : List Frame} {input : Value} : Scoped frames input none []
  /-- A node has succeeded on what stood before, a loop after the rounds of all its items. Its
  output stands before what follows. -/
  | succeeded {frames : List Frame} {input output : Value} {ending : Option Value}
      {s s' : RunState} {r : NodeResult} {items : List Value} {inner others : List Mark}
      (invoked : s.frames = frames) (kept : s'.frames = frames) (on : r.input = input)
      (outcome : r.outcome = .ok output) (rounds : Rounds r.node items input frames 0 true inner)
      (rest : Scoped frames output ending others) :
      Scoped frames input ending (.invoked r.node s :: (inner ++ .kept r s' :: others))
  /-- A node has failed on what stood before, a loop perhaps after some rounds. That is the last
  result of the scope. -/
  | failed {frames : List Frame} {input : Value} {s s' : RunState} {r : NodeResult} {f : Failure}
      {items : List Value} {inner : List Mark} (invoked : s.frames = frames)
      (kept : s'.frames = frames) (on : r.input = input) (outcome : r.outcome = .error f)
      (rounds : Rounds r.node items input frames 0 false inner) :
      Scoped frames input none (.invoked r.node s :: (inner ++ [.kept r s']))
  /-- A node has been invoked and has no result. -/
  | pending {frames : List Frame} {input : Value} {s : RunState} {id : Key} {items : List Value}
      {inner : List Mark} (invoked : s.frames = frames)
      (rounds : Rounds id items input frames 0 false inner) :
      Scoped frames input none (.invoked id s :: inner)

/-- Some marks are those of the rounds of a loop for its items from a place on, one after another:
each is a scope of its own that begins with its item, and has the frame of the loop at that item in
front. It is told whether all rounds are over. -/
inductive Rounds : (loop : Key) → (items : List Value) → (saved : Value) → (frames : List Frame) →
    (index : Nat) → Bool → List Mark → Prop where
  | all {loop : Key} {items : List Value} {saved : Value} {frames : List Frame} :
      Rounds loop items saved frames items.length true []
  /-- The replay cannot turn to the item. -/
  | stopped {loop : Key} {items : List Value} {saved : Value} {frames : List Frame} {index : Nat} :
      Rounds loop items saved frames index false []
  | next {loop : Key} {items : List Value} {saved : Value} {frames : List Frame} {index : Nat}
      {item output : Value} {whole : Bool} {first others : List Mark}
      (here : items[index]? = some item)
      (scope : Scoped (⟨loop, items, index, saved⟩ :: frames) item (some output) first)
      (rest : Rounds loop items saved frames (index + 1) whole others) :
      Rounds loop items saved frames index whole (first ++ others)
  /-- A round is not over, and no other follows. -/
  | broken {loop : Key} {items : List Value} {saved : Value} {frames : List Frame} {index : Nat}
      {item : Value} {marks : List Mark} (here : items[index]? = some item)
      (scope : Scoped (⟨loop, items, index, saved⟩ :: frames) item none marks) :
      Rounds loop items saved frames index false marks

end

/-- Some marks lead a scope from one value that stands before to another, whatever follows. -/
def Passes (frames : List Frame) (input : Value) (marks : List Mark) (output : Value) : Prop :=
  ∀ ending others, Scoped frames output ending others → Scoped frames input ending (marks ++ others)

namespace Passes

variable {frames : List Frame} {input between output : Value} {marks others : List Mark}

theorem refl (frames : List Frame) (input : Value) : Passes frames input [] input :=
  fun _ _ h => h

theorem trans (h : Passes frames input marks between) (h' : Passes frames between others output) :
    Passes frames input (marks ++ others) output := by
  intro ending rest hrest
  rw [List.append_assoc]
  exact h ending _ (h' ending rest hrest)

theorem whole (h : Passes frames input marks output) : Scoped frames input (some output) marks := by
  simpa using h _ [] .done

end Passes

/-! ## The variables of a loop -/

/-- Turning to an item sets the variables of a loop: that of the item, and that of its place if it
has a name that counts as true. -/
inductive Node.Bound (itemName indexName : Value) (index : Nat) (item : Value) (vars : Fields) :
    Fields → Prop where
  | item {name : Key} (named : itemName.key = .ok name) (unplaced : indexName.holds = false) :
      Bound itemName indexName index item vars (Value.putField name item vars)
  | both {name place : Key} (named : itemName.key = .ok name) (holds : indexName.holds = true)
      (placed : indexName.key = .ok place) : Bound itemName indexName index item vars
        (Value.putField place (.int index) (Value.putField name item vars))

/-- Turning to an item changes the state alone: the innermost frame comes to the item, and if all
goes well the variables are set and the item stands before. -/
theorem Node.run_beginItem (itemName indexName : Value) (index : Nat) (item : Value) (run : Run) :
    ∃ o s, (beginItem itemName indexName index item).run run = (some o, { run with state := s }) ∧
      s.frames = (run.state.setIndex index).frames ∧
      ∀ u, o = .ok u →
        s.previous = item ∧ Bound itemName indexName index item run.state.vars s.vars := by
  have hvars := run.state.setIndex_vars index
  simp only [beginItem, run_bind, run_changeState, run_ofAttempt]
  cases hname : itemName.key with
  | error f => exact ⟨.error f, _, rfl, rfl, fun _ h => by cases h⟩
  | ok name =>
    dsimp only
    cases hholds : indexName.holds with
    | false =>
      refine ⟨.ok (), _, rfl, rfl, fun _ _ => ⟨rfl, ?_⟩⟩
      rw [← hvars]
      exact .item hname hholds
    | true =>
      simp only [if_true, run_bind, run_ofAttempt, run_changeState]
      cases hplace : indexName.key with
      | error f => exact ⟨.error f, _, rfl, rfl, fun _ h => by cases h⟩
      | ok place =>
        refine ⟨.ok (), _, rfl, rfl, fun _ _ => ⟨rfl, ?_⟩⟩
        rw [← hvars]
        exact .both hname hholds hplace

namespace Plan

variable {plan : Plan} {α β : Type}

/-- All nodes of the plan are of the library. -/
def Native (plan : Plan) : Prop :=
  ∀ id node run branching, plan.nodes.lookup id = some node → node.cls.kind ≠ .custom run branching

/-- What is known of a scope by its frames: which nodes may be visited in it, and what the variables
are like there whenever a node is invoked. Every step of a walk keeps it. -/
structure Regime (plan : Plan) where
  may : List Frame → Key → Prop
  fits : List Frame → Fields → Prop
  /-- What a node leads to may be visited in the scope of the node. -/
  follow : ∀ {frames id node branch target}, may frames id → plan.nodes.lookup id = some node →
    target ∈ plan.leadsTo node branch → may frames target
  /-- What a loop replays may be visited in the scopes of its items. -/
  enter : ∀ {frames id node items index saved target}, may frames id →
    plan.nodes.lookup id = some node → node.cls.kind = .loop → target ∈ plan.graph.targets id →
    may (⟨id, items, index, saved⟩ :: frames) target
  /-- A node that acts keeps what the variables are like. -/
  act : ∀ {frames id node} {bench : Bench}, may frames id → plan.nodes.lookup id = some node →
    node.cls.kind ≠ .loop → fits frames bench.state.vars →
    fits frames (node.execute.runOn bench).2.state.vars
  /-- Turning to an item makes the variables what they are in its scope. -/
  bind : ∀ {frames id node itemName indexName items saved item vars vars'} {index : Nat},
    may frames id → plan.nodes.lookup id = some node → node.cls.kind = .loop →
    node.settingOr "itemVariable" (.text "item") = .ok itemName →
    node.setting "indexVariable" = .ok indexName → items[index]? = some item →
    Node.Bound itemName indexName index item vars vars' → fits frames vars →
    fits (⟨id, items, index, saved⟩ :: frames) vars'
  /-- After a round the variables are still what they are in the scope of the loop. -/
  leave : ∀ {frame frames vars}, fits (frame :: frames) vars → fits frames vars

namespace Regime

variable (regime : plan.Regime)

/-- The variables fit whenever a node is invoked. -/
def Fit (marks : List Mark) : Prop := ∀ id s, .invoked id s ∈ marks → regime.fits s.frames s.vars

variable {regime}

theorem Fit.nil : regime.Fit [] := fun _ _ h => by cases h

theorem Fit.kept (result : NodeResult) (s : RunState) : regime.Fit [.kept result s] :=
  fun _ _ h => by cases List.mem_singleton.1 h

theorem Fit.append {marks others : List Mark} (h : regime.Fit marks) (h' : regime.Fit others) :
    regime.Fit (marks ++ others) :=
  fun id s hmem => (List.mem_append.1 hmem).elim (h id s) (h' id s)

variable (regime)

/-- What a part of a walk that begins in a scope comes to: it ends there and leads the scope on, or
the scope is given up or not over. -/
def Comes (frames : List Frame) (before : Run) (known : α → Prop)
    (res : Option (Attempt α) × Run) : Prop :=
  ∃ marks, Noted before res.2 marks ∧ regime.Fit marks ∧ match res.1 with
    | some (.ok a) => res.2.state.frames = frames ∧ regime.fits frames res.2.state.vars ∧
        Passes frames before.state.previous marks res.2.state.previous ∧ known a
    | some (.error _) => res.2.state.frames = frames ∧
        Scoped frames before.state.previous none marks
    | none => Scoped frames before.state.previous none marks

/-- What the replay of a loop for its items from a place on comes to: the rounds are over, given up,
or not over. Unless the last, it is told what the frames are then. -/
def Replays (loop : Key) (items : List Value) (saved : Value) (frames : List Frame) (index : Nat)
    (framed : List Frame → Prop) (before : Run) (res : Option (Attempt α) × Run) : Prop :=
  ∃ marks, Noted before res.2 marks ∧ regime.Fit marks ∧ match res.1 with
    | some (.ok _) => framed res.2.state.frames ∧ regime.fits frames res.2.state.vars ∧
        Rounds loop items saved frames index true marks
    | some (.error _) => framed res.2.state.frames ∧
        Rounds loop items saved frames index false marks
    | none => Rounds loop items saved frames index false marks

/-- What the invocation of a node comes to: the replay of a loop for all its items, and for any
other node no rounds at all. -/
def Answers (loop : Key) (frames : List Frame) (input : Value) (before : Run)
    (res : Option (Attempt α) × Run) : Prop :=
  ∃ items, regime.Replays loop items input frames 0 (· = frames) before res

/-- From wherever in a scope the part begins, it comes to what a part can come to. -/
def Stays (frames : List Frame) (part : Walk α) (known : α → Prop) : Prop :=
  ∀ run : Run, run.state.frames = frames → regime.fits frames run.state.vars →
    regime.Comes frames run known (part.run run)

/-- A replay that begins at a node which may be visited in a scope stays in the scope. -/
def Guides (replay : Key → Walk Unit) : Prop :=
  ∀ frames id, regime.may frames id → regime.Stays frames (replay id) fun _ => True

variable {regime} {frames : List Frame} {before : Run} {known : α → Prop} {known' : β → Prop}

/-- A part that changes nothing. -/
theorem Stays.pure {a : α} (h : known a) : regime.Stays frames (pure a) known :=
  fun run hframes hfits =>
    ⟨[], .same rfl rfl, Fit.nil, hframes, hfits, Passes.refl frames run.state.previous, h⟩

/-- What follows leads the scope on. -/
theorem Comes.bind {part : Walk α} {next : α → Walk β} {start : Run}
    (h : regime.Comes frames before known (part.run start))
    (hn : ∀ a, known a → regime.Stays frames (next a) known') :
    regime.Comes frames before known' ((part >>= next).run start) := by
  obtain ⟨marks, hnoted, hfit, hres⟩ := h
  rw [run_bind]
  rcases hpart : part.run start with ⟨_ | f | a, run⟩
  · rw [hpart] at hnoted hres
    exact ⟨marks, hnoted, hfit, hres⟩
  · rw [hpart] at hnoted hres
    exact ⟨marks, hnoted, hfit, hres⟩
  · rw [hpart] at hnoted hres
    obtain ⟨hframes, hfits, hpasses, hknown⟩ := hres
    obtain ⟨others, hnoted', hfit', hres'⟩ := hn a hknown run hframes hfits
    refine ⟨marks ++ others, hnoted.trans hnoted', hfit.append hfit', ?_⟩
    dsimp only
    generalize (next a).run run = res at hnoted' hres' ⊢
    obtain ⟨_ | f | b, run'⟩ := res
    · exact hpasses none others hres'
    · exact ⟨hres'.1, hpasses none others hres'.2⟩
    · obtain ⟨hframes', hfits', hpasses', hknown'⟩ := hres'
      exact ⟨hframes', hfits', hpasses.trans hpasses', hknown'⟩

theorem Stays.bind {part : Walk α} {next : α → Walk β} (h : regime.Stays frames part known)
    (hn : ∀ a, known a → regime.Stays frames (next a) known') :
    regime.Stays frames (part >>= next) known' :=
  fun run hframes hfits => (h run hframes hfits).bind hn

theorem Stays.forM {f : Key → Walk Unit} {ids : List Key}
    (h : ∀ id ∈ ids, regime.Stays frames (f id) fun _ => True) :
    regime.Stays frames (ids.forM f) fun _ => True := by
  induction ids with
  | nil => exact .pure trivial
  | cons id ids ih =>
    obtain ⟨hid, hids⟩ := List.forall_mem_cons.1 h
    exact hid.bind fun _ _ => ih hids

section Replays

variable {loop : Key} {items : List Value} {saved : Value} {index : Nat}
  {framed : List Frame → Prop}

/-- What happens quietly before a replay changes nothing of what the replay comes to. -/
theorem Replays.after {run : Run} {res : Option (Attempt α) × Run} (quiet : Noted before run [])
    (h : regime.Replays loop items saved frames index framed run res) :
    regime.Replays loop items saved frames index framed before res := by
  obtain ⟨marks, hnoted, hfit, hres⟩ := h
  exact ⟨marks, quiet.trans hnoted, hfit, hres⟩

/-- A round that is over comes before those of the other items. -/
theorem Replays.next {run : Run} {res : Option (Attempt α) × Run} {item output : Value}
    {first : List Mark} (here : items[index]? = some item) (noted : Noted before run first)
    (fit : regime.Fit first)
    (round : Scoped (⟨loop, items, index, saved⟩ :: frames) item (some output) first)
    (h : regime.Replays loop items saved frames (index + 1) framed run res) :
    regime.Replays loop items saved frames index framed before res := by
  obtain ⟨others, hnoted, hfit, hres⟩ := h
  refine ⟨first ++ others, noted.trans hnoted, fit.append hfit, ?_⟩
  obtain ⟨_ | f | a, run'⟩ := res
  · exact .next here round hres
  · exact ⟨hres.1, .next here round hres.2⟩
  · exact ⟨hres.1, hres.2.1, .next here round hres.2.2⟩

/-- A value that is made of the reports does not matter. -/
theorem Replays.map {part : Walk α} (g : α → β) {start : Run}
    (h : regime.Replays loop items saved frames index framed before (part.run start)) :
    regime.Replays loop items saved frames index framed before
      ((part >>= fun a => pure (g a)).run start) := by
  rw [run_bind]
  generalize part.run start = res at h ⊢
  obtain ⟨_ | f | a, run'⟩ := res <;> exact h

end Replays

/-- A step that changes nothing but the world, and notes nothing of invocations, is made before the
rounds. -/
theorem Answers.after {loop : Key} {input : Value} {step : Walk α} {next : α → Walk β}
    {o : Attempt α} {run : Run} (hstep : step.run before = (some o, run))
    (noted : Noted before run []) (state : run.state = before.state)
    (hframes : before.state.frames = frames)
    (hn : ∀ a, o = .ok a → regime.Answers loop frames input run ((next a).run run)) :
    regime.Answers loop frames input before ((step >>= next).run before) := by
  rw [run_bind, hstep]
  cases o with
  | error f => exact ⟨[], [], noted, Fit.nil, by rw [state]; exact hframes, .stopped⟩
  | ok a =>
    obtain ⟨items, hreplays⟩ := hn a rfl
    exact ⟨items, hreplays.after noted⟩

/-! ## Loops -/

variable {replay : Key → Walk Unit} {loop : Key} {items : List Value} {saved : Value}

/-- A frame of a loop at any of its items, in front of the frames around the loop. -/
def InReplay (loop : Key) (items : List Value) (saved : Value) (frames inner : List Frame) : Prop :=
  ∃ index, inner = ⟨loop, items, index, saved⟩ :: frames

/-- **The rounds follow each other.** The induction is on the items that are left; what it carries
is that the frame of the loop is there and the variables are what they are around the loop. -/
theorem replayItems_replays {targets : List Key} {itemName indexName : Value}
    (bind : ∀ {index item vars vars'}, items[index]? = some item →
      Node.Bound itemName indexName index item vars vars' → regime.fits frames vars →
      regime.fits (⟨loop, items, index, saved⟩ :: frames) vars')
    (hreplay : ∀ (index : Nat), ∀ id ∈ targets,
      regime.Stays (⟨loop, items, index, saved⟩ :: frames) (replay id) fun _ => True)
    (left : List Value) : ∀ (index : Nat) (run : Run), items.drop index = left →
      index ≤ items.length → InReplay loop items saved frames run.state.frames →
      regime.fits frames run.state.vars →
      regime.Replays loop items saved frames index (InReplay loop items saved frames) run
        ((Node.replayItems replay targets itemName indexName index left).run run) := by
  induction left with
  | nil =>
    intro index run hleft hindex hframes hfits
    have hlength : index = items.length := by
      have := List.drop_eq_nil_iff.1 hleft
      omega
    subst hlength
    exact ⟨[], .same rfl rfl, Fit.nil, hframes, hfits, .all⟩
  | cons item rest ih =>
    intro index run hleft hindex ⟨place, hframes⟩ hfits
    have hitem : items[index]? = some item := by
      rw [← List.head?_drop, hleft]
      rfl
    have hrest : items.drop (index + 1) = rest := by
      rw [← List.tail_drop, hleft]
      rfl
    have hlt : index < items.length := (List.getElem?_eq_some_iff.1 hitem).1
    obtain ⟨o, s, hbegin, hturned, hbound⟩ :=
      Node.run_beginItem itemName indexName index item run
    rw [RunState.setIndex_frames index hframes] at hturned
    have hquiet : Noted run { run with state := s } [] := .same rfl rfl
    refine .after hquiet ?_
    rw [Node.replayItems, run_bind, hbegin]
    cases o with
    | error f => exact ⟨[], .same rfl rfl, Fit.nil, ⟨index, hturned⟩, .stopped⟩
    | ok u =>
      obtain ⟨hprevious, hvars⟩ := hbound u rfl
      -- the round is a scope that begins with the item
      obtain ⟨first, hnoted, hfit, hres⟩ := Stays.forM (hreplay index) { run with state := s }
        hturned (bind hitem hvars hfits)
      dsimp only at hres ⊢
      rw [hprevious] at hres
      rw [run_bind]
      generalize (targets.forM replay).run { run with state := s } = res at hnoted hres ⊢
      obtain ⟨_ | f | _, run'⟩ := res
      · exact ⟨first, hnoted, hfit, .broken hitem hres⟩
      · exact ⟨first, hnoted, hfit, ⟨index, hres.1⟩, .broken hitem hres.2⟩
      · obtain ⟨hframes', hfits', hpasses, -⟩ := hres
        exact .next hitem hnoted hfit hpasses.whole
          (.map _ (ih (index + 1) run' hrest hlt ⟨index, hframes'⟩ (regime.leave hfits')))

/-- A loop that is invoked replays its items in rounds, and gives the frames back. -/
theorem runLoop_answers {node : Node} (hmay : regime.may frames node.id)
    (known : plan.nodes.lookup node.id = some node) (kind : node.cls.kind = .loop)
    (hreplay : regime.Guides replay) (run : Run) (hframes : run.state.frames = frames)
    (hfits : regime.fits frames run.state.vars) :
    regime.Answers node.id frames run.state.previous run ((node.runLoop plan replay).run run) := by
  have hitems : run.toBench.Still Event.isComment (node.loopItems.runOn run.toBench).2 :=
    Node.loopItems_still node run.toBench
  refine Answers.after (run_ofAct _ _) (.comments rfl hitems.world.journal) hitems.state hframes
    fun items _ => ?_
  generalize (node.loopItems.runOn run.toBench).2 = bench at hitems
  obtain ⟨hstate, -⟩ := hitems
  rw [← hstate] at hframes hfits ⊢
  refine Answers.after (run_ofAttempt _ _) (.same rfl rfl) rfl hframes fun itemName hitem => ?_
  refine Answers.after (run_ofAttempt _ _) (.same rfl rfl) rfl hframes fun indexName hindex => ?_
  let began : Event := .loopBegan node.id items.length (plan.graph.targets node.id)
  refine Answers.after (run_note _ _) ?_ rfl hframes fun _ _ => ?_
  · exact .quiet [⟨bench.world.tag, began⟩] (List.forall_mem_singleton.2 rfl) rfl rfl
  let entered : Run :=
    { run with state := bench.state.enterLoop node.id items, world := bench.world.note began }
  have hin : InReplay node.id items bench.state.previous frames entered.state.frames :=
    ⟨0, congrArg (_ :: ·) hframes⟩
  have hreplays : regime.Replays node.id items bench.state.previous frames 0 _ entered _ :=
    replayItems_replays (fun hhere => regime.bind hmay known kind hitem hindex hhere)
      (fun _ id hid => hreplay _ id (regime.enter hmay known kind hid)) items 0 entered rfl
      (Nat.zero_le _) hin hfits
  refine ⟨items, .after (.same rfl rfl) ?_⟩
  simp only [between, run_bind, run_changeState, run_outcome]
  obtain ⟨marks, hnoted, hfit, hres⟩ := hreplays
  generalize (Node.replayItems replay _ itemName indexName 0 items).run _ = res at hnoted hres ⊢
  -- however the rounds end, the frame of the loop is dropped
  have hleave : ∀ s : RunState, InReplay node.id items bench.state.previous frames s.frames →
      s.leaveLoop.frames = frames := by
    rintro s ⟨_, hplace⟩
    exact RunState.leaveLoop_frames hplace
  obtain ⟨_ | f | reports, r⟩ := res
  · exact ⟨marks, ⟨hnoted.results, hnoted.journal⟩, hfit, hres⟩
  · exact ⟨marks, ⟨hnoted.results, hnoted.journal⟩, hfit, hleave _ hres.1, hres.2⟩
  · obtain ⟨hin, hfits', hrounds⟩ := hres
    rw [← RunState.leaveLoop_vars] at hfits'
    exact ⟨marks, ⟨hnoted.results, hnoted.journal⟩, hfit, hleave _ hin, hfits', hrounds⟩

/-- What the invocation of a node comes to in a scope. -/
theorem invoke_answers (native : plan.Native) {node : Node} (hmay : regime.may frames node.id)
    (known : plan.nodes.lookup node.id = some node) (hreplay : regime.Guides replay)
    (run : Run) (hframes : run.state.frames = frames) (hfits : regime.fits frames run.state.vars) :
    regime.Answers node.id frames run.state.previous run ((node.invoke plan replay).run run) := by
  refine Answers.after (run_get run) (.same rfl rfl) rfl hframes fun _ _ => ?_
  refine Answers.after (run_ofAttempt _ _) (.same rfl rfl) rfl hframes fun _ _ => ?_
  by_cases hkind : node.cls.kind = .loop
  · rw [Node.act_loop plan replay hkind]
    exact runLoop_answers hmay known hkind hreplay run hframes hfits
  · -- of the state the node writes nothing but variables, and those go on to fit
    have hspares : run.toBench.Spares Event.isComment (node.execute.runOn run.toBench).2 :=
      Node.execute_modest node (fun executor branching => native _ _ _ _ known) run.toBench
    have hfits' : regime.fits frames (node.execute.runOn run.toBench).2.state.vars :=
      regime.act hmay known hkind hfits
    obtain ⟨vars, hstate⟩ := hspares.state
    rw [Node.act_plain plan replay hkind, run_ofAct]
    refine ⟨[], [], .comments rfl hspares.world.journal, Fit.nil, ?_⟩
    have hframes' : (node.execute.runOn run.toBench).2.state.frames = frames := by
      rw [hstate]
      exact hframes
    dsimp only
    cases (node.execute.runOn run.toBench).1 with
    | ok reply => exact ⟨hframes', hfits', .all⟩
    | error f => exact ⟨hframes', .stopped⟩

/-- **An execution leads its scope on from the input of the node to its output.** -/
theorem execute_comes (native : plan.Native) {node : Node} (hmay : regime.may frames node.id)
    (known : plan.nodes.lookup node.id = some node) (hreplay : regime.Guides replay)
    (run : Run) (hframes : run.state.frames = frames) (hfits : regime.fits frames run.state.vars) :
    regime.Comes frames run (fun _ => True) ((plan.execute replay node).run run.visited) := by
  have hcase := execute_cases plan replay node run
  have hanswers : ∀ tag, regime.Answers node.id frames run.state.previous
      (Invocation.begun node tag run)
      ((node.invoke plan replay).run (Invocation.begun node tag run)) := fun tag =>
    invoke_answers native hmay known hreplay (Invocation.begun node tag run) hframes hfits
  let began : RunState := { run.state with time := run.state.time + 1 }
  have hin : began.frames = frames := hframes
  have hbegun : ∀ tag, Noted run (Invocation.begun node tag run) [.invoked node.id began] :=
    fun tag => Plan.noted_begun node tag run
  have hfit : regime.Fit [.invoked node.id began] := by
    intro id s hmem
    cases List.mem_singleton.1 hmem
    exact hframes ▸ hfits
  generalize (plan.execute replay node).run run.visited = res at hcase ⊢
  cases hcase with
  | @stopped tag r invoked =>
    obtain ⟨items, inner, hnoted, hinner, hrounds⟩ := hanswers tag
    rw [invoked] at hnoted hrounds
    exact ⟨_, (hbegun tag).trans hnoted, hfit.append hinner, .pending hin hrounds⟩
  | @abandoned tag r f invoked =>
    obtain ⟨items, inner, hnoted, hinner, hres⟩ := hanswers tag
    rw [invoked] at hnoted hres
    have hboth := (hbegun tag).trans hnoted
    exact ⟨_, ⟨hboth.results, hboth.journal⟩, hfit.append hinner, hres.1, .pending hin hres.2⟩
  | @failed tag r f call same invoked input =>
    subst same
    obtain ⟨items, inner, hnoted, hinner, hres⟩ := hanswers tag
    rw [invoked] at hnoted hres
    obtain ⟨hframes', hrounds⟩ := hres
    have hkept := Plan.noted_failed call f r run.world.tag
    have hscope := Scoped.failed (r := call.result r.world.clock (.error f)) hin hframes' input rfl
      hrounds
    exact ⟨_, (hbegun tag).trans (hnoted.trans hkept), hfit.append (hinner.append (.kept _ _)),
      hframes', hscope⟩
  | @answered tag r reply call output same invoked input =>
    subst same
    obtain ⟨items, inner, hnoted, hinner, hres⟩ := hanswers tag
    rw [invoked] at hnoted hres
    obtain ⟨hframes', hfits', hrounds⟩ := hres
    have hkept := Plan.noted_succeeded call reply.branch output r run.world.tag
    have hrecorded : (r.state.record call.node.id output).frames = frames :=
      (RunState.record_frames _ _ _).trans hframes'
    rw [← RunState.record_vars r.state call.node.id output] at hfits'
    refine ⟨_, (hbegun tag).trans (hnoted.trans hkept), hfit.append (hinner.append (.kept _ _)),
      hrecorded, hfits', fun ending others hothers => ?_, trivial⟩
    have hprevious : ((call.succeeded reply.branch output r).tagged run.world.tag).state.previous =
        output := RunState.record_previous _ _ _
    rw [hprevious] at hothers
    have hscope := Scoped.succeeded (r := call.result r.world.clock (.ok output)) hin hrecorded
      input rfl hrounds hothers
    rw [List.append_assoc, List.append_assoc]
    exact hscope

/-! ## Visits and walks -/

/-- A step whose bench has the same state notes nothing of invocations if it adds comments, and
leaves the scope where it is. -/
theorem Comes.still {before run : Run} {a : α} (hframes : before.state.frames = frames)
    (hfits : regime.fits frames before.state.vars) (noted : Noted before run [])
    (state : run.state = before.state) (h : known a) :
    regime.Comes frames before known (some (.ok a), run) := by
  refine ⟨[], noted, Fit.nil, ?_⟩
  dsimp only
  rw [state]
  exact ⟨hframes, hfits, Passes.refl _ _, h⟩

/-- **A visit stays in its scope**, and leads on to nodes that may be visited there. -/
theorem visit_stays (named : plan.Named) (native : plan.Native) {id : Key}
    (hmay : regime.may frames id) (hreplay : regime.Guides replay) :
    regime.Stays frames (plan.visit replay id)
      fun next => ∀ target ∈ next, regime.may frames target := by
  intro run hframes hfits
  have hcase := visit_cases named replay id run
  generalize (plan.visit replay id).run run = res at hcase ⊢
  cases hcase with
  | unknown => exact .still hframes hfits (.same rfl rfl) rfl (by simp)
  | skipped known skipped =>
    have hpassed : Noted run { run with world := run.world.note (.skipped id) } [] :=
      .quiet [⟨run.world.tag, .skipped id⟩] (List.forall_mem_singleton.2 rfl) rfl rfl
    exact .still hframes hfits hpassed rfl (by simp)
  | unready => exact ⟨[], .same rfl rfl, Fit.nil, hframes, .stopped⟩
  | @deferred node bench known due waits spares =>
    have hstill : run.toBench.Still Event.isComment (node.isReady.runOn run.toBench).2 :=
      Node.isReady_still node run.toBench
    rw [waits] at hstill
    have hasked : Noted run (run.onBench bench) [] := .comments rfl hstill.world.journal
    have hleft : Noted (run.onBench bench)
        (run.onBench { bench with world := bench.world.note (.deferred id node.type) }) [] :=
      .quiet [⟨bench.world.tag, .deferred id node.type⟩] (List.forall_mem_singleton.2 rfl) rfl rfl
    exact .still hframes hfits (hasked.trans hleft) hstill.state (by simp)
  | exceeded spares =>
    obtain ⟨vars, hstate⟩ := spares.state
    refine ⟨[], .comments rfl spares.world.journal, Fit.nil, ?_, .stopped⟩
    rw [Run.visited, Run.onBench, hstate]
    exact hframes
  | @executed node bench known same due ready spares allowed =>
    subst same
    have hstill : run.toBench.Still Event.isComment (node.isReady.runOn run.toBench).2 :=
      Node.isReady_still node run.toBench
    rw [ready] at hstill
    have hstate : (run.onBench bench).state = run.state := hstill.state
    obtain ⟨marks, hnoted, hfit, hres⟩ := execute_comes native hmay known hreplay
      (run.onBench bench) (hstate ▸ hframes) (hstate ▸ hfits)
    have hasked : Noted run (run.onBench bench) [] := .comments rfl hstill.world.journal
    rw [hstate] at hres
    have hcomes : regime.Comes frames run (fun _ => True)
        ((plan.execute replay node).run (run.onBench bench).visited) :=
      ⟨marks, hasked.trans hnoted, hfit, hres⟩
    exact hcomes.bind fun branch _ => .pure fun target htarget => regime.follow hmay known htarget

/-- **A walk stays in its scope.** The induction is on the steps; the replays in a visit take fewer,
and begin in the scopes of the items. -/
theorem walk_stays (regime : plan.Regime) (named : plan.Named) (native : plan.Native) (fuel : Nat) :
    ∀ frames stack, (∀ id ∈ stack, regime.may frames id) →
      regime.Stays frames (plan.walk fuel stack) fun _ => True := by
  induction fuel with
  | zero => exact fun _ _ _ _ _ _ => ⟨[], .same rfl rfl, Fit.nil, .stopped⟩
  | succ fuel ih =>
    intro frames stack hmay
    cases stack with
    | nil => exact .pure trivial
    | cons id rest =>
      obtain ⟨hid, hrest⟩ := List.forall_mem_cons.1 hmay
      have hreplay : regime.Guides fun id => plan.walk fuel [id] :=
        fun frames id hid => ih frames [id] (List.forall_mem_singleton.2 hid)
      refine (visit_stays named native hid hreplay).bind fun next hnext => ih frames _ ?_
      exact fun target htarget => (List.mem_append.1 htarget).elim (hnext target) (hrest target)

/-- Nothing is asked of the nodes and the variables. -/
def free (plan : Plan) : plan.Regime where
  may _ _ := True
  fits _ _ := True
  follow _ _ _ := trivial
  enter _ _ _ _ := trivial
  act _ _ _ _ := trivial
  bind _ _ _ _ _ _ _ _ := trivial
  leave _ := trivial

end Regime

end Plan

/-! ## A whole run -/

/-- Built-in types have nodes of the library. -/
theorem Departure.Of.native {budget : Option Int} {workflow : Value} {departure : Departure}
    (h : departure.Of .builtin budget workflow) : departure.plan.Native := by
  intro id node run branching hlookup
  obtain ⟨_, d, made, settings, _, hmake, rfl⟩ := h.nodes id node hlookup
  exact Registry.makeNode_builtin hmake run branching

/-- A run is a scope of its own, in which the variables fit whenever a node is invoked if a regime
for its plan says so. -/
theorem courseOf_comes {budget : Option Int} {workflow : Value} {fits : List Frame → Fields → Prop}
    (fuel : Nat) (run : Run) (regimes : ∀ departure : Departure,
      departure.Of .builtin budget workflow → ∃ regime : departure.plan.Regime, regime.fits = fits ∧
        regime.may run.state.frames departure.start)
    (begins : ∀ vars, fits run.state.frames vars) :
    let ended := (courseOf .builtin budget fuel workflow).run run
    ∃ marks ending, Noted run ended.2 marks ∧
      Scoped run.state.frames run.state.previous ending marks ∧
      (ended.1 = some (.ok ()) → ending = some ended.2.state.previous) ∧
      ∀ id s, .invoked id s ∈ marks → fits s.frames s.vars := by
  obtain ⟨o, bench, hprepare, hspares⟩ := prepare_calm .builtin budget workflow run.opened
  obtain ⟨vars, hstate⟩ := hspares.state
  have hopened : Noted run (run.opened.onBench bench) [] := .comments rfl hspares.world.journal
  cases o with
  | error f =>
    rw [courseOf_error hprepare]
    exact ⟨[], none, hopened, .stopped, fun h => by simp at h, by simp⟩
  | ok departure =>
    have hof := prepare_of hprepare
    obtain ⟨regime, rfl, hmay⟩ := regimes departure hof
    have hframes : (run.opened.onBench bench).state.frames = run.state.frames := by
      rw [Run.onBench, hstate]
      rfl
    have hprevious : (run.opened.onBench bench).state.previous = run.state.previous := by
      rw [Run.onBench, hstate]
      rfl
    obtain ⟨marks, hnoted, hfit, hres⟩ := regime.walk_stays hof.named hof.native fuel
      run.state.frames [departure.start] (List.forall_mem_singleton.2 hmay)
      (run.opened.onBench bench) hframes (begins _)
    rw [hprevious] at hres
    have hboth := hopened.trans hnoted
    rw [courseOf_walk fuel hprepare]
    generalize (departure.plan.walk fuel [departure.start]).run _ = res at hboth hres
    -- a walk that has come to its end is followed by the end of the run, which is no mark
    have hclosed : ∀ walked : Run, Noted walked (departure.closed run.world.seconds walked) [] :=
      fun walked => .quiet [_] (List.forall_mem_singleton.2 rfl) rfl rfl
    obtain ⟨_ | f | _, walked⟩ := res
    · exact ⟨marks, none, hboth, hres, fun h => (by cases h), hfit⟩
    · refine ⟨marks, none, ?_, hres.2, fun h => (by cases h), hfit⟩
      simpa using hboth.trans (hclosed walked)
    · obtain ⟨_, _, hpasses, _⟩ := hres
      refine ⟨marks, _, ?_, hpasses.whole, fun _ => rfl, hfit⟩
      simpa using hboth.trans (hclosed walked)

/-- **The inputs of a run follow its scopes.** Of the results of the top level the first has as
input what stood before the run, and of those of the replay of an item the first has the item; every
later one has the output of the result before it in the same scope. A loop counts there with its own
result alone, and its items are replayed one after another between its invocation and that result.
This holds however far the run gets and however it ends. -/
theorem courseOf_scopes (budget : Option Int) (fuel : Nat) (workflow : Value) (run : Run) :
    let ended := (courseOf .builtin budget fuel workflow).run run
    ∃ marks ending, Noted run ended.2 marks ∧
      Scoped run.state.frames run.state.previous ending marks ∧
      (ended.1 = some (.ok ()) → ending = some ended.2.state.previous) := by
  obtain ⟨marks, ending, hnoted, hscoped, hended, _⟩ := @courseOf_comes budget workflow
    (fun _ _ => True) fuel run (fun departure _ => ⟨.free departure.plan, rfl, trivial⟩)
    fun _ => trivial
  exact ⟨marks, ending, hnoted, hscoped, hended⟩

end WorkflowEngine
