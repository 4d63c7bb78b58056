import WorkflowEngine.Proofs.Run.Departure

/-!
# How a run fails

The results of a run, and what becomes of them when it fails (`courseOf_results`). A run that ends
has kept successes only. One that fails has kept successes and then failures, all with the text of
the failure that ends it: one of the invocation that failed, and one of each loop whose replay was
under way, innermost first. The journal tells which invocations these are (`underWay`).
-/

namespace WorkflowEngine

/-! ## What the journal shows -/

/-- An invocation that the journal shows to be under way, and whether it is a loop that has begun to
replay its body. -/
structure Activation where
  node : Key
  replaying : Bool
  deriving DecidableEq

/-- Whether the event can come after a failure: nothing is invoked or replayed any more, and nothing
succeeds. -/
def Event.Unwinds (f : Failure) : Event → Prop
  | .failed _ _ g _ => g = f
  | .invoked _ _ _ _ | .loopBegan _ _ _ | .succeeded _ _ _ _ _ _ => False
  | _ => True

/-- What an event makes of the invocations under way, innermost first. -/
def Event.track : Event → List Activation → List Activation
  | .invoked id _ _ _, calls => ⟨id, false⟩ :: calls
  | .loopBegan id _ _, _ :: calls => ⟨id, true⟩ :: calls
  | .failed _ _ _ _, _ :: calls | .succeeded _ _ _ _ _ _, _ :: calls => calls
  | _, calls => calls

/-- The invocations that are under way after some entries of a journal, of which the last stands in
front. -/
def underWay : List Entry → List Activation
  | [] => []
  | e :: earlier => e.event.track (underWay earlier)

theorem underWay_remarks {entries news : List Entry}
    (h : ∀ e ∈ entries, e.event.isRemark = true) : underWay (entries ++ news) = underWay news := by
  induction entries with
  | nil => rfl
  | cons e rest ih =>
    have hrest := ih fun e' he' => h e' (List.mem_cons_of_mem e he')
    have he := h e List.mem_cons_self
    obtain ⟨tag, event⟩ := e
    cases event <;> first | exact hrest | cases he

theorem Event.unwinds_of_isRemark {event : Event} (f : Failure) (h : event.isRemark = true) :
    event.Unwinds f := by
  cases event <;> first | exact trivial | cases h

/-- A replay that is under way. -/
def Invocation.replay (call : Invocation) : Activation := ⟨call.id, true⟩

/-- What the journal shows at a place: the replays, and the invocation that acts. -/
def Place.ShownBy (p : Place) (shown : List Activation) : Prop :=
  match p.phase with
  | .walking => shown = p.replays.map Invocation.replay
  | .acting call | .answered call =>
    ∃ replaying, shown = ⟨call.id, replaying⟩ :: p.replays.map Invocation.replay

/-! ## Runs that have not failed -/

/-- The result shows a success. -/
def NodeResult.IsSuccess (r : NodeResult) : Prop :=
  r.succeeded = true ∧ r.toValue.get "status" = .ok (.text "success")

/-- The result shows a failure with its text. -/
def NodeResult.IsFailure (r : NodeResult) (f : Failure) : Prop :=
  r.outcome = .error f ∧ r.toValue.get "status" = .ok (.text "failed") ∧
    r.toValue.get "error" = .ok (.text f.recorded)

theorem Invocation.result_isSuccess (call : Invocation) (stop : Instant) (output : Value) :
    (call.result stop (.ok output)).IsSuccess :=
  ⟨rfl, rfl⟩

theorem Invocation.result_isFailure (call : Invocation) (stop : Instant) (f : Failure) :
    (call.result stop (.error f)).IsFailure f :=
  ⟨rfl, rfl, rfl⟩

namespace Plan

/-- What a run that has not failed has done since it was another run. -/
structure Progress (plan : Plan) (before : Run) (s : Stage) where
  done : List NodeResult
  news : List Entry
  results : s.run.results = before.results ++ done
  succeeded : ∀ r ∈ done, r.IsSuccess
  journal : s.run.world.journal = news ++ before.world.journal
  shown : s.place.ShownBy (underWay news)
  allowed : s.place.calls ≠ [] → plan.Allows s.run.visits

/-! ## Runs that fail -/

/-- What a failure of a walk comes from: an invocation, a merge that cannot tell whether it waits, or
the budget. -/
inductive Blame where
  | node (id : Key)
  | merge (id : Key)
  | budget (limit : Int)

/-- The node whose own result shows the failure. A merge that cannot tell whether it waits has not
been invoked, and neither has the node of a visit that is one too many. -/
def Blame.own : Blame → List Key
  | .node id => [id]
  | .merge _ | .budget _ => []

/-- What a failure is put down to, given the invocations under way when it came up, and the loops
among them whose replays the failure has to pass. -/
def Blame.Fits (plan : Plan) (f : Failure) (visits : Nat) (shown : List Activation)
    (loops : List Key) : Blame → Prop
  | .node id =>
    (∃ replaying, shown = ⟨id, replaying⟩ :: loops.map (Activation.mk · true)) ∧ plan.Allows visits
  | .merge id =>
    shown = loops.map (Activation.mk · true) ∧ ∃ node, plan.nodes.lookup id = some node ∧
      node.cls.kind = .merge ∧ node.setting "waitForAll" = .error f
  | .budget limit =>
    shown = loops.map (Activation.mk · true) ∧ plan.budget = some limit ∧ limit < (visits : Int) ∧
      f = .visitLimit limit

/-- What a run has come to since it was another run, given up for a failure that has still to pass
some invocations. The entries of the journal before and after the failure are told apart. -/
structure FailureTrace (plan : Plan) (f : Failure) (before after : Run) (pending : List Key) where
  done : List NodeResult
  failed : List NodeResult
  earlier : List Entry
  later : List Entry
  blame : Blame
  loops : List Key
  results : after.results = before.results ++ done ++ failed
  succeeded : ∀ r ∈ done, r.IsSuccess
  failures : ∀ r ∈ failed, r.IsFailure f
  journal : after.world.journal = later ++ earlier ++ before.world.journal
  unwinding : ∀ e ∈ later, e.event.Unwinds f
  fits : blame.Fits plan f after.visits (underWay earlier) loops
  loops_known : ∀ id ∈ loops, ∃ node, plan.nodes.lookup id = some node ∧ node.cls.kind = .loop
  /-- The failure is kept for its node and for every loop on its way, innermost first. -/
  kept : f.isRecordable = true → failed.map NodeResult.node ++ pending = blame.own ++ loops
  /-- An interruption is not kept. -/
  unkept : f.isRecordable = false → failed = []

/-- What has become of the results at a stage of a run. -/
def Traced (plan : Plan) (before : Run) (s : Stage) : Prop :=
  match s.cause with
  | none => Nonempty (plan.Progress before s)
  | some f => Nonempty (plan.FailureTrace f before s.run (s.place.calls.map Invocation.id))

variable {plan : Plan} {before : Run} {s t : Stage}

theorem map_replay (calls : List Invocation) :
    calls.map Invocation.replay = (calls.map Invocation.id).map (Activation.mk · true) := by
  rw [List.map_map]
  rfl

/-- A failure that comes up now has nothing of its own to show yet. -/
def Progress.failing {run run' : Run} {place : Place} {f : Failure}
    (h : plan.Progress before ⟨run, place, none⟩) (sound : plan.Sound place) (blame : Blame)
    (loops : List Invocation) (results : run'.results = run.results)
    (journal : run'.world.journal = run.world.journal)
    (fits : blame.Fits plan f run'.visits (underWay h.news) (loops.map Invocation.id))
    (replays : ∀ call ∈ loops, call ∈ place.replays)
    (own : place.calls.map Invocation.id = blame.own ++ loops.map Invocation.id) :
    plan.FailureTrace f before run' (place.calls.map Invocation.id) where
  done := h.done
  failed := []
  earlier := h.news
  later := []
  blame := blame
  loops := loops.map Invocation.id
  results := by rw [results, h.results, List.append_nil]
  succeeded := h.succeeded
  failures := by simp
  journal := by rw [journal, h.journal, List.nil_append]
  unwinding := by simp
  fits := fits
  loops_known := by
    intro id hid
    obtain ⟨call, hcall, rfl⟩ := List.mem_map.1 hid
    have hreplay := replays call hcall
    exact ⟨call.node, sound.known call (place.mem_calls hreplay), sound.loops call hreplay⟩
  kept _ := by rw [List.map_nil, List.nil_append, own]
  unkept _ := rfl

/-- The progress with a node that has been invoked. -/
def Progress.begin {run : Run} {replays : List Invocation} {node : Node}
    (h : plan.Progress before ⟨run, ⟨.walking, replays⟩, none⟩) (tag : Tag)
    (allowed : plan.Allows run.visited.visits) :
    plan.Progress before ⟨Invocation.begun node tag run,
      ⟨.acting ⟨node, run.world.clock, run.state.previous⟩, replays⟩, none⟩ where
  done := h.done
  news := ⟨tag, .invoked node.id node.label node.type _⟩ :: h.news
  results := h.results
  succeeded := h.succeeded
  journal := by
    rw [List.cons_append, ← h.journal]
    rfl
  shown := ⟨false, congrArg (Activation.mk node.id false :: ·) h.shown⟩
  allowed _ := allowed

/-- The progress with a loop that has begun to replay its body. -/
def Progress.enter {run : Run} {call : Invocation} {replays : List Invocation}
    (h : plan.Progress before ⟨run, ⟨.acting call, replays⟩, none⟩) (items : List Value)
    (targets : List Key) :
    plan.Progress before ⟨call.entered items targets run, ⟨.walking, call :: replays⟩, none⟩ where
  done := h.done
  news := ⟨run.world.tag, .loopBegan call.node.id items.length targets⟩ :: h.news
  results := h.results
  succeeded := h.succeeded
  journal := by
    rw [List.cons_append, ← h.journal]
    rfl
  shown := by
    obtain ⟨replaying, hshown⟩ := h.shown
    simp only [underWay, hshown]
    rfl
  allowed _ := h.allowed (List.cons_ne_nil _ _)

/-- The progress with an answer that has been kept. -/
def Progress.succeed {run : Run} {call : Invocation} {replays : List Invocation}
    (h : plan.Progress before ⟨run, ⟨.answered call, replays⟩, none⟩) (branch output : Value) :
    plan.Progress before ⟨call.succeeded branch output run, ⟨.walking, replays⟩, none⟩ where
  done := h.done ++ [call.result run.world.clock (.ok output)]
  news := ⟨run.world.tag, .succeeded call.node.id call.node.type _ branch output _⟩ :: h.news
  results := by
    rw [← List.append_assoc, ← h.results]
    rfl
  succeeded := by
    intro r hr
    rcases List.mem_append.1 hr with hr | hr
    · exact h.succeeded r hr
    · rw [List.mem_singleton.1 hr]
      exact call.result_isSuccess _ output
  journal := by
    rw [List.cons_append, ← h.journal]
    rfl
  shown := by
    obtain ⟨replaying, hshown⟩ := h.shown
    simp only [underWay, hshown]
    rfl
  allowed _ := h.allowed (List.cons_ne_nil _ _)

/-- What adds nothing but remarks, and shows as the same, leaves the progress of a run. -/
def Progress.keep {run run' : Run} {place place' : Place}
    (h : plan.Progress before ⟨run, place, none⟩) (results : run'.results = run.results)
    (visits : run'.visits = run.visits) (entries : List Entry)
    (remarks : ∀ e ∈ entries, e.event.isRemark = true)
    (journal : run'.world.journal = entries ++ run.world.journal)
    (shown : ∀ shown, place.ShownBy shown → place'.ShownBy shown)
    (calls : place'.calls ≠ [] → place.calls ≠ []) :
    plan.Progress before ⟨run', place', none⟩ where
  done := h.done
  news := entries ++ h.news
  results := by rw [results, h.results]
  succeeded := h.succeeded
  journal := by rw [journal, h.journal, List.append_assoc]
  shown := by
    rw [underWay_remarks remarks]
    exact shown _ h.shown
  allowed hcalls := by
    rw [visits]
    exact h.allowed (calls hcalls)

/-- What adds nothing but remarks leaves what a failing run has come to. -/
def FailureTrace.keep {f : Failure} {run run' : Run} {pending : List Key}
    (h : plan.FailureTrace f before run pending) (results : run'.results = run.results)
    (visits : run'.visits = run.visits) (entries : List Entry)
    (remarks : ∀ e ∈ entries, e.event.isRemark = true)
    (journal : run'.world.journal = entries ++ run.world.journal) :
    plan.FailureTrace f before run' pending :=
  { h with
    later := entries ++ h.later
    results := by rw [results, h.results]
    journal := by rw [journal, h.journal, List.append_assoc, List.append_assoc, List.append_assoc]
    unwinding := by
      intro e he
      rcases List.mem_append.1 he with he | he
      · exact Event.unwinds_of_isRemark f (remarks e he)
      · exact h.unwinding e he
    fits := by
      rw [visits]
      exact h.fits }

/-- An invocation that the failure passes keeps it. -/
def FailureTrace.fail {f : Failure} {run : Run} {call : Invocation} {pending : List Key}
    (h : plan.FailureTrace f before run (call.id :: pending)) (recordable : f.isRecordable = true) :
    plan.FailureTrace f before (call.failed f run) pending :=
  { h with
    failed := h.failed ++ [call.result run.world.clock (.error f)]
    later := ⟨run.world.tag, .failed call.node.id call.node.type f run.state⟩ :: h.later
    results := by simp [Invocation.failed, h.results]
    failures := by
      intro r hr
      rcases List.mem_append.1 hr with hr | hr
      · exact h.failures r hr
      · rw [List.mem_singleton.1 hr]
        exact call.result_isFailure _ f
    journal := by simp [Invocation.failed, World.note, h.journal]
    unwinding := by
      intro e he
      rcases List.mem_cons.1 he with rfl | he
      · rfl
      · exact h.unwinding e he
    fits := h.fits
    kept := fun hrec => by
      rw [List.map_append, List.append_assoc, ← h.kept hrec]
      rfl
    unkept := fun hrec => by
      rw [recordable] at hrec
      cases hrec }

/-- An invocation that an interruption passes keeps nothing. -/
def FailureTrace.abandon {f : Failure} {run : Run} {id : Key} {pending : List Key}
    (h : plan.FailureTrace f before run (id :: pending)) (interrupted : f.isRecordable = false) :
    plan.FailureTrace f before run pending :=
  { h with
    kept := fun hrec => by
      rw [interrupted] at hrec
      cases hrec }

/-- A move that leaves results, visits and journal leaves the progress of a run. -/
def Progress.stay {run run' : Run} {place place' : Place}
    (h : plan.Progress before ⟨run, place, none⟩) (results : run'.results = run.results)
    (visits : run'.visits = run.visits) (journal : run'.world.journal = run.world.journal)
    (shown : ∀ shown, place.ShownBy shown → place'.ShownBy shown)
    (calls : place'.calls = place.calls) : plan.Progress before ⟨run', place', none⟩ :=
  h.keep results visits [] (by simp) journal shown (by rw [calls]; exact id)

/-- **Every move keeps to what becomes of the results.** -/
theorem Traced.move (h : plan.Traced before s) (sound : plan.Sound s.place)
    (hmove : plan.Move s t) : plan.Traced before t := by
  cases hmove with
  | @quiet run place cause bench spared =>
    obtain ⟨entries, hjournal, hremarks⟩ := spared.world.journal
    cases cause with
    | none =>
      obtain ⟨p⟩ := h
      exact ⟨p.keep rfl rfl entries hremarks hjournal (fun _ h => h) id⟩
    | some f =>
      obtain ⟨p⟩ := h
      exact ⟨p.keep rfl rfl entries hremarks hjournal⟩
  -- what comes up between invocations has only replays to pass
  | @exceed run replays b limited spent =>
    obtain ⟨p⟩ := h
    exact ⟨p.failing sound (.budget b) replays rfl rfl
      ⟨p.shown.trans (map_replay replays), limited, spent, rfl⟩ (fun _ h => h) rfl⟩
  | @unready run replays id node f known kind refused =>
    obtain ⟨p⟩ := h
    exact ⟨p.failing sound (.merge id) replays rfl rfl
      ⟨p.shown.trans (map_replay replays), node, known, kind, refused⟩ (fun _ h => h) rfl⟩
  | begin tag known due allowed =>
    obtain ⟨p⟩ := h
    exact ⟨p.begin tag allowed⟩
  | foreign kind =>
    obtain ⟨p⟩ := h
    exact ⟨p.stay rfl rfl rfl (fun _ h => h) rfl⟩
  | enter items kind =>
    obtain ⟨p⟩ := h
    exact ⟨p.enter items _⟩
  | turn index =>
    obtain ⟨p⟩ := h
    exact ⟨p.stay rfl rfl rfl (fun _ h => h) rfl⟩
  | offer item =>
    obtain ⟨p⟩ := h
    exact ⟨p.stay rfl rfl rfl (fun _ h => h) rfl⟩
  | @spoil run call replays f =>
    obtain ⟨p⟩ := h
    -- the innermost replay is that of the loop that cannot turn to its item
    have hallowed := p.allowed (List.cons_ne_nil _ _)
    have hshown : underWay p.news = ⟨call.id, true⟩ ::
        (replays.map Invocation.id).map (Activation.mk · true) := by
      rw [← map_replay replays]
      exact p.shown
    exact ⟨p.failing sound (.node call.id) replays rfl rfl ⟨⟨true, hshown⟩, hallowed⟩
      (fun _ h => List.mem_cons_of_mem _ h) rfl⟩
  | @leave run call replays cause =>
    cases cause with
    | none =>
      obtain ⟨p⟩ := h
      exact ⟨p.stay rfl rfl rfl (fun _ h => ⟨true, h⟩) rfl⟩
    | some f =>
      obtain ⟨p⟩ := h
      exact ⟨p.keep rfl rfl [] (by simp) rfl⟩
  | mark kind =>
    obtain ⟨p⟩ := h
    exact ⟨p.stay rfl rfl rfl (fun _ h => h) rfl⟩
  | answer kind =>
    obtain ⟨p⟩ := h
    exact ⟨p.stay rfl rfl rfl (fun _ h => h) rfl⟩
  | @raise run call replays f =>
    obtain ⟨p⟩ := h
    have hallowed := p.allowed (List.cons_ne_nil _ _)
    obtain ⟨replaying, hshown⟩ := p.shown
    rw [map_replay replays] at hshown
    exact ⟨p.failing sound (.node call.id) replays rfl rfl ⟨⟨replaying, hshown⟩, hallowed⟩
      (fun _ h => h) rfl⟩
  | succeed branch output =>
    obtain ⟨p⟩ := h
    exact ⟨p.succeed branch output⟩
  | fail recordable =>
    obtain ⟨p⟩ := h
    exact ⟨p.fail recordable⟩
  | abandon interrupted =>
    obtain ⟨p⟩ := h
    exact ⟨p.abandon interrupted⟩

end Plan

end WorkflowEngine
