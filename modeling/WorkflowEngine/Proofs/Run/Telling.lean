import WorkflowEngine.Proofs.Run.Rounds

/-!
# What a whole run notes

A walk notes remarks, what its loops note of themselves, and what the executions of all other nodes
note, however deep the replays are nested. So what holds of each of these, and of entries together if
it holds of the earlier and the later ones, holds of the journal of a run (`courseOf_notes`).
-/

namespace WorkflowEngine

open Walk

namespace Walk

variable {α β : Type} {always : List Entry → Prop}

/-- A part of a walk adds entries of which something always holds. -/
abbrev Notes (always : List Entry → Prop) (part : Walk α) : Prop :=
  Tells (fun _ => True) always part fun _ _ => True

namespace Notes

theorem of_quiet {part : Walk α}
    (h : Tells (fun _ => True) always part fun _ news => news = []) : Notes always part :=
  h.mono fun _ _ _ => trivial

theorem bind (lasting : Lasting always) {part : Walk α} {next : α → Walk β}
    (h : Notes always part) (hn : ∀ a, Notes always (next a)) : Notes always (part >>= next) :=
  Tells.bind lasting h fun a _ _ => hn a

theorem forM (lasting : Lasting always) {f : Key → Walk Unit} (h : ∀ id, Notes always (f id))
    (ids : List Key) : Notes always (ids.forM f) := by
  induction ids with
  | nil => exact Tells.pure lasting trivial
  | cons id rest ih => exact bind lasting (h id) fun _ => ih

end Notes

end Walk

namespace Plan

variable {plan : Plan} {always : List Entry → Prop} {replay : Key → Walk Unit} {node : Node}

/-- Something holds of whatever the parts of a walk note one by one. -/
structure Reports (plan : Plan) (always : List Entry → Prop) : Prop where
  lasting : Lasting always
  remarks : ∀ entries, (∀ e ∈ entries, e.event.isRemark = true) → always entries
  /-- What a loop notes apart from its replays. -/
  invoked : ∀ node, plan.nodes.lookup node.id = some node → node.cls.kind = .loop →
    ∀ tag state, always [⟨tag, .invoked node.id node.label node.type state⟩]
  began : ∀ node, plan.nodes.lookup node.id = some node → node.cls.kind = .loop →
    ∀ tag items, always [⟨tag, .loopBegan node.id items (plan.graph.targets node.id)⟩]
  closed : ∀ node, plan.nodes.lookup node.id = some node → node.cls.kind = .loop →
    ∀ time o o' closing, Closing node time o o' closing → always closing
  /-- What the execution of any other node notes, once the node has said that it is ready. -/
  others : ∀ node, plan.nodes.lookup node.id = some node → node.cls.kind ≠ .loop →
    (∃ bench, (node.isReady.runOn bench).1 = .ok true) → ∀ (replay : Key → Walk Unit) (run : Run),
    ∃ news, ((plan.execute replay node).run run.visited).2.world.journal =
      news ++ run.world.journal ∧ always news

namespace Reports

theorem replayItems (h : plan.Reports always) (hreplay : ∀ id, Notes always (replay id))
    (targets : List Key) (itemName indexName : Value) (items : List Value) : ∀ index,
    Notes always (Node.replayItems replay targets itemName indexName index items) := by
  induction items with
  | nil => exact fun _ => Tells.pure h.lasting trivial
  | cons item rest ih =>
    intro index
    have hturn : Notes always (Node.beginItem itemName indexName index item) :=
      .of_quiet (tells_beginItem h.lasting (fun _ _ _ => trivial) (fun _ _ _ _ => trivial)
        (fun _ _ _ => trivial) itemName indexName index item)
    refine Notes.bind h.lasting hturn fun _ => ?_
    refine Notes.bind h.lasting (Notes.forM h.lasting hreplay targets) fun _ => ?_
    exact Notes.bind h.lasting (ih (index + 1)) fun _ => Tells.pure h.lasting trivial

theorem runLoop (h : plan.Reports always) (known : plan.nodes.lookup node.id = some node)
    (kind : node.cls.kind = .loop) (hreplay : ∀ id, Notes always (replay id)) :
    Notes always (node.runLoop plan replay) := by
  have hitems : Notes always (ofAct node.loopItems) := by
    intro run _
    obtain ⟨entries, hjournal, hcomments⟩ := (Node.loopItems_still node run.toBench).world.journal
    rw [run_ofAct]
    exact ⟨entries, hjournal,
      h.remarks entries fun e he => Event.isRemark_of_isComment (hcomments e he),
      fun _ _ => ⟨trivial, trivial⟩⟩
  refine Notes.bind h.lasting hitems fun items => ?_
  refine Notes.bind h.lasting (.of_quiet (.ofAttempt h.lasting _)) fun itemName => ?_
  refine Notes.bind h.lasting (.of_quiet (.ofAttempt h.lasting _)) fun indexName => ?_
  have hbegan : Notes always
      (note (.loopBegan node.id items.length (plan.graph.targets node.id))) :=
    (Tells.note fun tag => h.began node known kind tag items.length).mono fun _ _ _ => trivial
  refine Notes.bind h.lasting hbegan fun _ => ?_
  have hreplays : Notes always
      (between (changeState fun s => s.enterLoop node.id items) (changeState RunState.leaveLoop)
        (Node.replayItems replay (plan.graph.targets node.id) itemName indexName 0 items)) :=
    Tells.between (fun _ _ => trivial) (fun _ _ => trivial)
      (h.replayItems hreplay _ itemName indexName items 0)
  refine Notes.bind h.lasting hreplays fun reports => ?_
  have hmark : Notes always
      (changeState fun s => s.markExecuted (plan.graph.body node.id ++ [node.id])) :=
    .of_quiet (.changeState h.lasting fun _ _ => trivial)
  exact Notes.bind h.lasting hmark fun _ => Tells.pure h.lasting trivial

/-- What a loop notes in all begins and ends with itself. -/
theorem execute_loop (h : plan.Reports always) (known : plan.nodes.lookup node.id = some node)
    (kind : node.cls.kind = .loop) (hreplay : ∀ id, Notes always (replay id)) (run : Run) :
    ∃ news, ((plan.execute replay node).run run.visited).2.world.journal =
      news ++ run.world.journal ∧ always news := by
  have hinvoke : Notes always (node.invoke plan replay) := by
    refine Notes.bind h.lasting (.of_quiet (.get h.lasting)) fun _ => ?_
    refine Notes.bind h.lasting (.of_quiet (.ofAttempt h.lasting _)) fun _ => ?_
    rw [Node.act_loop plan _ kind]
    exact h.runLoop known kind hreplay
  obtain ⟨tag, closing, hclosing, hjournal, _⟩ := execute_closing plan replay node run
  obtain ⟨news, hnews, halways, _⟩ := hinvoke (Invocation.begun node tag run) trivial
  let began : Entry := ⟨tag, .invoked node.id node.label node.type
    { run.state with time := run.state.time + 1 }⟩
  refine ⟨closing ++ (news ++ [began]), ?_, ?_⟩
  · rw [hjournal, List.append_assoc, List.append_assoc]
    exact congrArg (closing ++ ·) hnews
  · exact h.lasting.append (h.lasting.append (h.invoked node known kind tag _) halways)
      (h.closed node known kind _ _ _ _ hclosing)

/-- **What holds of the parts of a walk holds of the walk**, however it ends. The induction is on the
steps that are granted, which the replays of a loop have fewer of. -/
theorem walk (h : plan.Reports always) (named : plan.Named) (fuel : Nat) :
    ∀ stack, Notes always (plan.walk fuel stack) := by
  induction fuel with
  | zero => exact fun _ => Tells.exhausted h.lasting
  | succ fuel ih =>
    intro stack
    cases stack with
    | nil => exact Tells.pure h.lasting trivial
    | cons id rest =>
      have hvisit : Notes always (plan.visit (fun target => plan.walk fuel [target]) id) := by
        refine tells_visit named h.lasting (fun _ _ _ _ => trivial) h.remarks
          (fun _ _ _ _ => trivial) fun node hlookup same asked run _ => ?_
        subst same
        have hexecute : ∃ news, ((plan.execute (fun target => plan.walk fuel [target]) node).run
            run.visited).2.world.journal = news ++ run.world.journal ∧ always news := by
          by_cases hkind : node.cls.kind = .loop
          · exact h.execute_loop hlookup hkind (fun target => ih [target]) run
          · exact h.others node hlookup hkind asked _ run
        obtain ⟨news, hjournal, halways⟩ := hexecute
        exact ⟨news, hjournal, halways, fun _ _ => ⟨trivial, fun _ _ => trivial⟩⟩
      exact Notes.bind h.lasting hvisit fun next => ih (next ++ rest)

end Reports

end Plan

/-- **What holds of the parts of a run holds of its journal.** -/
theorem courseOf_notes {registry : Registry} {budget : Option Int} {workflow : Value}
    {always : List Entry → Prop} (lasting : Lasting always)
    (remarks : ∀ entries, (∀ e ∈ entries, e.event.isRemark = true) → always entries)
    (reports : ∀ departure : Departure, departure.Of registry budget workflow →
      departure.plan.Reports always) (fuel : Nat) (run : Run) :
    ∃ news, ((courseOf registry budget fuel workflow).run run).2.world.journal =
      news ++ run.world.journal ∧ always news :=
  courseOf_tells lasting
    (fun entries hcomments => remarks entries fun e he =>
      Event.isRemark_of_isComment (hcomments e he))
    (fun departure hof => (reports departure hof).walk hof.named fuel _) run

end WorkflowEngine
