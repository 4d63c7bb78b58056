import WorkflowEngine.Proofs.State.Writes

/-!
# Operations nested in scopes

Operations on the state of a run can be done in a scope, which is the replay of a loop: it is
entered before them, and left after them however they end. Operations can be given up half way,
which leaves all scopes up to a shield around them. Of the replays under way they turn none but the
innermost to another item (`perform_turned`). So what is left with a scope is the replay that was
entered with it, and the replays around it and the output before are back as they were
(`perform_scope`). The executed nodes are those from before and those that an operation on the way
counts (`mem_perform_executed`), and in a scope only marks count any (`counted_inLoop`). What is
come to on the way, and in how many scopes, is told by `Reaches`; of whatever is come to,
`Reaches.left_as_entered` states all this.
-/

namespace WorkflowEngine

/-- An operation on the state of a run. -/
inductive Operation where
  | record (id : Key) (output : Value)
  | mark (ids : List Key)
  | setVariable (name : Key) (v : Value)
  | setPrevious (v : Value)
  /-- Turns the innermost replay to a place. It is given up if there is none. -/
  | setIndex (index : Int)
  /-- Does operations in a replay of its own, which ends however they end. -/
  | scope (id : Key) (items : List Value) (body : List Operation)
  /-- Gives up. -/
  | fail
  /-- Does operations, and goes on behind them if they are given up. -/
  | shield (body : List Operation)

namespace Operation

mutual

/-- Does an operation; the result is whether it was carried to its end. -/
def perform : Operation → RunState → Bool × RunState
  | .record id output, s => (true, s.record id output)
  | .mark ids, s => (true, s.markExecuted ids)
  | .setVariable name v, s => (true, s.setVariable name v)
  | .setPrevious v, s => (true, s.setPrevious v)
  | .setIndex index, s => (s.inLoop, s.setIndex index)
  | .scope id items body, s =>
    let (completed, inside) := performAll body (s.enterLoop id items)
    (completed, inside.leaveLoop)
  | .fail, s => (false, s)
  | .shield body, s => (true, (performAll body s).2)

/-- Does operations one after another until one is given up. -/
def performAll : List Operation → RunState → Bool × RunState
  | [], s => (true, s)
  | op :: rest, s =>
    let (completed, after) := op.perform s
    if completed then performAll rest after else (false, after)

end

/-- Operations that are done from the state `s` on come to `op` in the state `t`, with `depth` of
their scopes open around it. -/
inductive Reaches : List Operation → RunState → Nat → Operation → RunState → Prop where
  /-- The first one is done at once. -/
  | first {op : Operation} {rest : List Operation} {s : RunState} : Reaches (op :: rest) s 0 op s
  /-- Where the first one has been carried to its end, the others follow. -/
  | later {first op : Operation} {rest : List Operation} {s t : RunState} {depth : Nat}
      (completed : (first.perform s).1 = true)
      (reached : Reaches rest (first.perform s).2 depth op t) :
      Reaches (first :: rest) s depth op t
  /-- What is done in a scope is done with one scope more around it. -/
  | scope {id : Key} {items : List Value} {body rest : List Operation} {op : Operation}
      {s t : RunState} {depth : Nat} (reached : Reaches body (s.enterLoop id items) depth op t) :
      Reaches (.scope id items body :: rest) s (depth + 1) op t
  | shield {body rest : List Operation} {op : Operation} {s t : RunState} {depth : Nat}
      (reached : Reaches body s depth op t) : Reaches (.shield body :: rest) s depth op t

/-- Whether an operation does no others. -/
def isSingle : Operation → Bool
  | .scope _ _ _ | .shield _ => false
  | _ => true

/-- The operation counts a node as executed, in the state in which it is done. -/
def Counts (op : Operation) (s : RunState) (id : Key) : Prop :=
  match op with
  | .mark ids => id ∈ ids
  | .record recorded _ => s.frames = [] ∧ id = recorded
  | _ => False

/-- Operations come to one that counts a node as executed. -/
def Counted (ops : List Operation) (s : RunState) (id : Key) : Prop :=
  ∃ depth op t, Reaches ops s depth op t ∧ op.Counts t id

variable {ops body rest : List Operation} {op : Operation} {s t : RunState} {depth : Nat} {id : Key}

/-! ## The replays -/

/-- The same replays, of which the innermost may have been turned to another item. -/
inductive Turned : List Frame → List Frame → Prop where
  | none : Turned [] []
  | innermost (frame : Frame) (index : Int) (outer : List Frame) :
    Turned (frame :: outer) ({ frame with index := index } :: outer)

theorem Turned.refl : ∀ frames, Turned frames frames
  | [] => .none
  | frame :: outer => .innermost frame frame.index outer

theorem Turned.trans {frames frames' frames'' : List Frame} (h : Turned frames frames')
    (h' : Turned frames' frames'') : Turned frames frames'' := by
  cases h with
  | none => exact h'
  | innermost frame index outer =>
    cases h' with
    | innermost _ index' _ => exact .innermost frame index' outer

theorem Turned.inLoop (h : Turned s.frames t.frames) : t.inLoop = s.inLoop := by
  unfold RunState.inLoop
  generalize s.frames = frames at h
  generalize t.frames = frames' at h
  cases h <;> rfl

theorem Turned.setIndex (s : RunState) (index : Int) :
    Turned s.frames (s.setIndex index).frames := by
  cases h : s.frames with
  | nil =>
    rw [RunState.setIndex_eq_self index h, h]
    exact .none
  | cons frame outer =>
    rw [RunState.setIndex_frames index h]
    exact .innermost frame index outer

/-- **Leaving a replay undoes entering it**, if of the replays none but its own has been turned. -/
theorem leaveLoop_of_turned {items : List Value}
    (h : Turned (s.enterLoop id items).frames t.frames) :
    t.leaveLoop.frames = s.frames ∧ t.leaveLoop.previous = s.previous := by
  generalize hframes : t.frames = frames at h
  cases h with
  | innermost frame index outer =>
    exact ⟨RunState.leaveLoop_frames hframes, RunState.leaveLoop_previous hframes⟩

mutual

/-- **An operation leaves the replays as they were**, but for the place of the innermost. -/
theorem perform_turned (op : Operation) (s : RunState) :
    Turned s.frames (op.perform s).2.frames :=
  match op with
  | .record id output => by
    rw [perform, RunState.record_frames]
    exact .refl _
  | .mark _ | .setVariable _ _ | .setPrevious _ | .fail => by
    rw [perform]
    exact .refl _
  | .setIndex index => by
    rw [perform]
    exact .setIndex s index
  | .scope id items body => by
    rw [perform, (leaveLoop_of_turned (performAll_turned body (s.enterLoop id items))).1]
    exact .refl _
  | .shield body => by
    rw [perform]
    exact performAll_turned body s

theorem performAll_turned (ops : List Operation) (s : RunState) :
    Turned s.frames (performAll ops s).2.frames :=
  match ops with
  | [] => by
    rw [performAll]
    exact .refl _
  | op :: rest => by
    have hop := perform_turned op s
    rw [performAll]
    dsimp only
    split
    · exact hop.trans (performAll_turned rest (op.perform s).2)
    · exact hop

end

/-- A scope that has been left, however it ended, has left nothing behind of its replay. -/
theorem perform_scope (id : Key) (items : List Value) (body : List Operation) (s : RunState) :
    ((Operation.scope id items body).perform s).2.frames = s.frames ∧
      ((Operation.scope id items body).perform s).2.previous = s.previous := by
  rw [perform]
  exact leaveLoop_of_turned (performAll_turned body (s.enterLoop id items))

theorem perform_inLoop (op : Operation) (s : RunState) : (op.perform s).2.inLoop = s.inLoop :=
  (perform_turned op s).inLoop

/-- Inside a scope a loop is being replayed. -/
theorem Reaches.inLoop (h : Reaches ops s depth op t) (inside : 0 < depth ∨ s.inLoop = true) :
    t.inLoop = true := by
  induction h with
  | first => exact inside.resolve_left (Nat.lt_irrefl 0)
  | @later first _ _ s _ _ _ _ ih => exact ih (inside.imp_right (perform_inLoop first s).trans)
  | scope _ ih => exact ih (.inr rfl)
  | shield _ ih => exact ih inside

/-! ## The executed nodes -/

theorem not_counted_nil : ¬ Counted [] s id := by
  rintro ⟨_, _, _, hreached, _⟩
  cases hreached

/-- An operation counts what it counts itself, or what one that it does counts. -/
theorem counted_cons : Counted (op :: rest) s id ↔
    Counted [op] s id ∨ ((op.perform s).1 = true ∧ Counted rest (op.perform s).2 id) := by
  constructor
  · rintro ⟨depth, other, t, hreached, hcounts⟩
    cases hreached with
    | first => exact .inl ⟨_, _, _, .first, hcounts⟩
    | later completed reached => exact .inr ⟨completed, _, _, _, reached, hcounts⟩
    | scope reached => exact .inl ⟨_, _, _, .scope reached, hcounts⟩
    | shield reached => exact .inl ⟨_, _, _, .shield reached, hcounts⟩
  · rintro (⟨depth, other, t, hreached, hcounts⟩ | ⟨completed, depth, other, t, hreached, hcounts⟩)
    · cases hreached with
      | first => exact ⟨_, _, _, .first, hcounts⟩
      | later _ reached => cases reached
      | scope reached => exact ⟨_, _, _, .scope reached, hcounts⟩
      | shield reached => exact ⟨_, _, _, .shield reached, hcounts⟩
    · exact ⟨_, _, _, .later completed hreached, hcounts⟩

theorem counted_scope {key : Key} {items : List Value} :
    Counted [.scope key items body] s id ↔ Counted body (s.enterLoop key items) id := by
  constructor
  · rintro ⟨depth, other, t, hreached, hcounts⟩
    cases hreached with
    | first => exact hcounts.elim
    | later _ reached => cases reached
    | scope reached => exact ⟨_, _, _, reached, hcounts⟩
  · rintro ⟨depth, other, t, hreached, hcounts⟩
    exact ⟨_, _, _, .scope hreached, hcounts⟩

theorem counted_shield : Counted [.shield body] s id ↔ Counted body s id := by
  constructor
  · rintro ⟨depth, other, t, hreached, hcounts⟩
    cases hreached with
    | first => exact hcounts.elim
    | later _ reached => cases reached
    | shield reached => exact ⟨_, _, _, reached, hcounts⟩
  · rintro ⟨depth, other, t, hreached, hcounts⟩
    exact ⟨_, _, _, .shield hreached, hcounts⟩

/-- An operation that does no others counts what it counts itself. -/
theorem counted_single (op : Operation) (s : RunState) (id : Key) (h : op.isSingle = true) :
    Counted [op] s id ↔ op.Counts s id := by
  constructor
  · rintro ⟨depth, other, t, hreached, hcounts⟩
    cases hreached with
    | first => exact hcounts
    | later _ reached => cases reached
    | scope | shield => cases h
  · exact fun hcounts => ⟨_, _, _, .first, hcounts⟩

mutual

/-- **The executed nodes are those from before and those that are counted on the way.** -/
theorem mem_perform_executed (op : Operation) (s : RunState) (id : Key) :
    id ∈ (op.perform s).2.executed ↔ id ∈ s.executed ∨ Counted [op] s id :=
  match op with
  | .record key output => by
    rw [counted_single _ s id rfl, perform]
    exact RunState.mem_record_executed s key output id
  | .mark ids => by
    rw [counted_single _ s id rfl, perform]
    exact RunState.mem_markExecuted s ids id
  | .setVariable _ _ | .setPrevious _ | .fail => by
    rw [counted_single _ s id rfl, perform]
    exact (or_iff_left not_false).symm
  | .setIndex index => by
    rw [counted_single _ s id rfl, perform, RunState.setIndex_executed]
    exact (or_iff_left not_false).symm
  | .scope key items body => by
    rw [counted_scope, perform, RunState.leaveLoop_executed]
    exact mem_performAll_executed body (s.enterLoop key items) id
  | .shield body => by
    rw [counted_shield, perform]
    exact mem_performAll_executed body s id

theorem mem_performAll_executed (ops : List Operation) (s : RunState) (id : Key) :
    id ∈ (performAll ops s).2.executed ↔ id ∈ s.executed ∨ Counted ops s id :=
  match ops with
  | [] => by
    rw [performAll]
    exact (or_iff_left not_counted_nil).symm
  | op :: rest => by
    have hop := mem_perform_executed op s id
    rw [performAll, counted_cons]
    dsimp only
    split
    · next completed =>
      rw [mem_performAll_executed rest (op.perform s).2 id, hop, or_assoc,
        and_iff_right completed]
    · next given =>
      rw [hop, or_iff_left (b := _ ∧ _) fun h => given h.1]

end

theorem perform_subset (op : Operation) (s : RunState) : s.executed ⊆ (op.perform s).2.executed :=
  fun id h => (mem_perform_executed op s id).2 (.inl h)

theorem performAll_subset (ops : List Operation) (s : RunState) :
    s.executed ⊆ (performAll ops s).2.executed :=
  fun id h => (mem_performAll_executed ops s id).2 (.inl h)

/-- In the replay of a loop nothing is counted but what is marked. -/
theorem counted_inLoop (hin : s.inLoop = true) :
    Counted ops s id ↔ ∃ depth ids t, Reaches ops s depth (.mark ids) t ∧ id ∈ ids := by
  constructor
  · rintro ⟨depth, op, t, hreached, hcounts⟩
    have hinside := hreached.inLoop (.inr hin)
    -- A record counts only where no loop is being replayed.
    cases op with
    | mark ids => exact ⟨depth, ids, t, hreached, hcounts⟩
    | record key output =>
      rw [RunState.inLoop_eq_false.2 hcounts.1] at hinside
      cases hinside
    | _ => exact hcounts.elim
  · rintro ⟨depth, ids, t, hreached, hmem⟩
    exact ⟨depth, .mark ids, t, hreached, hmem⟩

/-- No executed node is forgotten before an operation is come to. -/
theorem Reaches.executed_subset (h : Reaches ops s depth op t) : s.executed ⊆ t.executed := by
  induction h with
  | first => exact List.Subset.refl _
  | @later first _ _ s _ _ _ _ ih => exact List.Subset.trans (perform_subset first s) ih
  | scope _ ih => exact ih
  | shield _ ih => exact ih

/-- Nor is one after it. -/
theorem Reaches.subset_executed (h : Reaches ops s depth op t) :
    (op.perform t).2.executed ⊆ (performAll ops s).2.executed := by
  have hfirst : ∀ (op : Operation) (rest : List Operation) (s : RunState),
      (op.perform s).2.executed ⊆ (performAll (op :: rest) s).2.executed := by
    intro op rest s
    rw [performAll]
    dsimp only
    split
    · exact performAll_subset rest _
    · exact List.Subset.refl _
  -- Leaving a scope and going on behind a shield forget nothing either, so from the innermost body
  -- outwards it is enough to look at what comes first.
  induction h with
  | @first op rest s => exact hfirst op rest s
  | later completed _ ih =>
    rw [performAll]
    simpa only [completed, if_true] using ih
  | @scope key items body rest op s t depth _ ih =>
    have hleft : ((Operation.scope key items body).perform s).2.executed =
        (performAll body (s.enterLoop key items)).2.executed := by
      rw [perform, RunState.leaveLoop_executed]
    exact List.Subset.trans (hleft ▸ ih) (hfirst _ rest s)
  | @shield body rest op s t depth _ ih =>
    have hleft : ((Operation.shield body).perform s).2 = (performAll body s).2 := by rw [perform]
    exact List.Subset.trans (hleft ▸ ih) (hfirst _ rest s)

/-- **Scopes are left as they were entered.** Let operations come to one of them in a state, at
whatever depth. If it is a scope, then after it, however it ended, the replays are those under way
before it, each at its item, and so is the output before. No executed node is ever forgotten: not up
to that operation, not by it, and not from there to the end. And inside a scope, from its beginning
on, no node is to be skipped, and an operation makes those nodes executed that it marks, or that are
marked by operations it does, and no others. -/
theorem Reaches.left_as_entered (reached : Reaches ops s depth op t) :
    (∀ key items body, op = .scope key items body →
      (op.perform t).2.frames = t.frames ∧ (op.perform t).2.previous = t.previous ∧
      ∀ id, (t.enterLoop key items).shouldSkip id = false) ∧
    s.executed ⊆ t.executed ∧ t.executed ⊆ (op.perform t).2.executed ∧
    (op.perform t).2.executed ⊆ (performAll ops s).2.executed ∧
    (0 < depth → ∀ id,
      t.shouldSkip id = false ∧ (op.perform t).2.shouldSkip id = false ∧
      (id ∈ (op.perform t).2.executed ↔ id ∈ t.executed ∨
        ∃ inner ids u, Reaches [op] t inner (.mark ids) u ∧ id ∈ ids)) := by
  refine ⟨?_, reached.executed_subset, perform_subset op t, reached.subset_executed, ?_⟩
  · rintro key items body rfl
    obtain ⟨hframes, hprevious⟩ := perform_scope key items body t
    exact ⟨hframes, hprevious, RunState.shouldSkip_of_inLoop rfl⟩
  · intro hdepth id
    have hin : t.inLoop = true := reached.inLoop (.inl hdepth)
    have hafter : (op.perform t).2.inLoop = true := (perform_inLoop op t).trans hin
    refine ⟨RunState.shouldSkip_of_inLoop hin id, RunState.shouldSkip_of_inLoop hafter id, ?_⟩
    rw [mem_perform_executed, counted_inLoop hin]

/-- The replay of a loop for the item of an outer one, given up in the middle. -/
def innerReplay : Operation :=
  .scope (.text "inner") [.int 3]
    [.setPrevious (.int 3), .record (.text "b") (.int 4), .mark [.text "c"], .fail]

/-- Two replays, one inside the other. -/
def replays : List Operation :=
  [.mark [.text "a"],
    .scope (.text "outer") [.int 1, .int 2] [.setIndex 1, .shield [innerReplay]]]

/-- The state in which the inner replay begins. -/
def turnedState : RunState :=
  ((({ previous := .text "p" } : RunState).markExecuted [.text "a"]).enterLoop (.text "outer")
    [.int 1, .int 2]).setIndex 1

theorem left_as_entered_replays :
    Reaches replays { previous := .text "p" } 1 innerReplay turnedState ∧
    (innerReplay.perform turnedState).2.frames =
      [⟨.text "outer", [.int 1, .int 2], 1, .text "p"⟩] ∧
    (innerReplay.perform turnedState).2.previous = .text "p" ∧
    (innerReplay.perform turnedState).2.shouldSkip (.text "a") = false ∧
    .text "c" ∈ (innerReplay.perform turnedState).2.executed := by
  have hreached : Reaches replays { previous := .text "p" } 1 innerReplay turnedState :=
    .later rfl (.scope (.later rfl (.shield .first)))
  obtain ⟨hscope, -, -, -, hinside⟩ := hreached.left_as_entered
  obtain ⟨hframes, hprevious, -⟩ := hscope _ _ _ rfl
  have hmark : Reaches [innerReplay] turnedState 1 (.mark [.text "c"]) _ :=
    .scope (.later rfl (.later rfl .first))
  have hmarked := (hinside (by decide) (.text "c")).2.2.2
    (.inr ⟨1, _, _, hmark, List.mem_singleton_self _⟩)
  exact ⟨hreached, hframes, hprevious, (hinside (by decide) (.text "a")).2.1, hmarked⟩

end Operation

end WorkflowEngine
