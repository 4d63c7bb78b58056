import WorkflowEngine.Proofs.Run.Reach
import WorkflowEngine.Proofs.Run.Replays
import WorkflowEngine.Proofs.Workflow.Graphs

/-!
# With which node a run begins

A run begins at the identifier of the first definition whose type is that of a trigger, and fails
for want of one if no definition has such a type (`prepare_total`). The node that it then invokes is
made of the first definition with that identifier. Where several definitions share it, the two need
not be the same, and the run may begin with a node that is no trigger (`courseOf_begins`).
-/

namespace WorkflowEngine

open Walk

/-! ## Triggers -/

/-- Whether a definition is of a type with which a run can begin. -/
def Definition.starts (registry : Registry) (d : Definition) : Bool :=
  match d.type with
  | .ok (.text type _) => registry.triggerTypes.contains type
  | _ => false

/-- If types are registered once, a type is that of a trigger exactly if its class is one of
triggers. A type that is not registered is none. -/
theorem Registry.isTrigger_eq {registry : Registry} (unique : (registry.map Prod.fst).Nodup)
    (type : String) : ((registry.lookup type).getD .passthrough).isTrigger =
      registry.triggerTypes.contains type := by
  rw [Bool.eq_iff_iff, List.contains_iff_mem, triggerTypes, List.mem_map]
  constructor
  · intro htrigger
    cases hlookup : registry.lookup type with
    | none =>
      rw [hlookup] at htrigger
      cases htrigger
    | some cls =>
      rw [hlookup] at htrigger
      exact ⟨(type, cls), List.mem_filter.2 ⟨Entries.mem_of_lookup hlookup, htrigger⟩, rfl⟩
  · rintro ⟨⟨_, cls⟩, hmem, rfl⟩
    obtain ⟨hmem, htrigger⟩ := List.mem_filter.1 hmem
    rw [Entries.lookup_of_mem unique hmem]
    exact htrigger

/-- A node is a trigger exactly if its definition is of such a type. -/
theorem Definition.Fit.isTrigger {registry : Registry} (unique : (registry.map Prod.fst).Nodup)
    {d : Definition} {type : String} (fit : d.Fit type) {node : Node}
    (made : registry.makeNode d.body = .ok node) : node.cls.isTrigger = d.starts registry := by
  obtain ⟨node', made', hcls⟩ := fit.made registry
  obtain rfl := Except.ok.inj (made.symm.trans made')
  rw [hcls, Registry.isTrigger_eq unique, Definition.starts, fit.typed]

/-- Among definitions that have a type each, the search finds the first of the type of a trigger. -/
theorem Graph.findOfType_eq {graph : Graph} (fit : ∀ d ∈ graph.nodes, ∃ type, d.Fit type)
    (registry : Registry) : graph.findOfType (registry.triggerTypes.map Key.text) =
      .ok (graph.nodes.find? fun d => d.starts registry) := by
  unfold findOfType
  generalize graph.nodes = ds at fit
  induction ds with
  | nil => rfl
  | cons d rest ih =>
    obtain ⟨⟨type, hfit⟩, hrest⟩ := List.forall_mem_cons.1 fit
    have hkey : (Value.text type).key = .ok (.text type) := rfl
    have hstarts :
        d.starts registry = (registry.triggerTypes.map Key.text).contains (.text type) := by
      rw [Definition.starts, hfit.typed, Bool.eq_iff_iff]
      simp
    rw [findOfType.go, List.find?_cons, hfit.typed, hstarts]
    simp only [bind, Except.bind, hkey, ih hrest]
    cases (registry.triggerTypes.map Key.text).contains (.text type) <;> rfl

/-! ## Making a run ready -/

/-- Nodes can be built of definitions that are fit for it. -/
theorem buildNodes_total (registry : Registry) (graph : Graph) {ds : List Definition}
    (fit : ∀ d ∈ ds, ∃ type, d.Fit type) (built : List (Key × Node)) (run : Run) :
    ∃ nodes run', (buildNodes registry graph built ds).run run = (some (.ok nodes), run') := by
  induction ds generalizing built run with
  | nil => exact ⟨built, run, rfl⟩
  | cons d rest ih =>
    obtain ⟨⟨type, hfit⟩, hrest⟩ := List.forall_mem_cons.1 fit
    unfold buildNodes
    split
    · exact ih hrest built run
    · obtain ⟨node, hmade, -⟩ := hfit.made registry
      simp only [run_bind, run_ofAttempt, hmade]
      split
      · simp only [run_bind, run_ofAttempt, hfit.typed, run_note, run_get]
        exact ih hrest _ _
      · simp only [run_bind, run_get]
        exact ih hrest _ _

/-- **A workflow that has been read makes a run ready** if one of its definitions is of the type of
a trigger, and fails for want of one otherwise. -/
theorem prepare_total (registry : Registry) (budget : Option Int) {workflow : Value} {graph : Graph}
    (read : Graph.ofValue workflow = .ok graph) (fit : ∀ d ∈ graph.nodes, ∃ type, d.Fit type)
    (run : Run) : ∃ o run', (prepare registry budget workflow).run run = (some o, run') ∧
      match graph.nodes.find? fun d => d.starts registry with
      | none => o = .error .noTrigger
      | some trigger => ∃ departure, o = .ok departure ∧ departure.start = trigger.id := by
  have hfind := Graph.findOfType_eq fit registry
  simp only [prepare, run_bind, run_ofAttempt, read, run_note, hfind]
  cases graph.nodes.find? fun d => d.starts registry with
  | none => exact ⟨_, _, rfl, rfl⟩
  | some trigger =>
    obtain ⟨nodes, run', hbuild⟩ := buildNodes_total registry graph fit []
      { run with world := run.world.note (.runBegan graph.name) }
    simp only [run_bind, hbuild]
    exact ⟨_, _, rfl, _, rfl, rfl⟩

/-! ## The first invocation -/

namespace Plan

variable {plan : Plan} {s t : Stage}

/-- The journal grows. -/
theorem Move.journal (h : plan.Move s t) :
    ∃ news, t.run.world.journal = news ++ s.run.world.journal := by
  cases h with
  | quiet spared =>
    obtain ⟨news, hjournal, -⟩ := spared.world.journal
    exact ⟨news, hjournal⟩
  | begin | enter | succeed | fail => exact ⟨[_], rfl⟩
  | leave => exact ⟨[], rfl⟩
  | _ => exact ⟨[], rfl⟩

theorem Reaches.journal (h : plan.Reaches s t) :
    ∃ news, t.run.world.journal = news ++ s.run.world.journal := by
  induction h with
  | refl => exact ⟨[], rfl⟩
  | tail _ hmove ih =>
    obtain ⟨earlier, hearlier⟩ := ih
    obtain ⟨later, hlater⟩ := hmove.journal
    exact ⟨later ++ earlier, by rw [hlater, hearlier, List.append_assoc]⟩

/-- How a walk from a node begins: it invokes nothing, and does not fail for want of a trigger, or
it invokes the node before any other. -/
inductive Begins (node : Node) (o : Option (Attempt Unit)) (news : List Entry) : Prop where
  | idle (other : o ≠ some (.error .noTrigger)) (none : invocations news = [])
  | invoked (later : List Entry) (tag : Tag) (state : RunState) (earlier : List Entry)
      (split : news = later ++ ⟨tag, .invoked node.id node.label node.type state⟩ :: earlier)
      (none : invocations earlier = [])

theorem setting_ne_noTrigger (node : Node) (name : String) :
    node.setting name ≠ .error .noTrigger := by
  unfold Node.setting Value.get Value.find?
  split <;> simp [Except.map, Attempt.fault]

theorem invocations_comment {entries : List Entry} {tag : Tag} {event : Event}
    (h : ∀ e ∈ entries, e.event.isComment = true) (hevent : event.invoked? = none) :
    invocations (⟨tag, event⟩ :: entries) = [] := by
  rw [← List.singleton_append, invocations_append, invocations_of_comments h, List.nil_append]
  simp [invocations, hevent]

/-- **A walk from a node that has not been executed begins with that node**, if it invokes any. -/
theorem walk_begins (named : plan.Named) {start : Key} {node : Node}
    (known : plan.nodes.lookup start = some node) (fuel : Nat) {run : Run}
    (due : run.state.shouldSkip start = false) :
    ∃ news, ((plan.walk fuel [start]).run run).2.world.journal = news ++ run.world.journal ∧
      Begins node ((plan.walk fuel [start]).run run).1 news := by
  cases fuel with
  | zero => exact ⟨[], rfl, .idle (by simp [walk]) rfl⟩
  | succ fuel =>
    let replay : Key → Walk Unit := fun target => plan.walk fuel [target]
    have hcase := visit_cases named replay start run
    rw [walk, run_bind]
    generalize (plan.visit replay start).run run = res at hcase
    cases hcase with
    | unknown unknown => cases unknown.symm.trans known
    | skipped _ skipped => cases skipped.symm.trans due
    | @unready node' f _ _ refused =>
      have hother : f ≠ .noTrigger := by
        rintro rfl
        exact setting_ne_noTrigger node' "waitForAll" refused
      exact ⟨[], rfl, .idle (by simpa using hother) rfl⟩
    | @deferred node' bench _ _ _ spares =>
      obtain ⟨comments, hjournal, hcomments⟩ := spares.world.journal
      refine ⟨⟨bench.world.tag, .deferred start node'.type⟩ :: comments, ?_, .idle ?_
        (invocations_comment hcomments rfl)⟩
      · cases fuel <;> exact congrArg (_ :: ·) hjournal
      · cases fuel <;> simp [walk]
    | @exceeded bench b spares _ _ =>
      obtain ⟨comments, hjournal, hcomments⟩ := spares.world.journal
      exact ⟨comments, hjournal, .idle (by simp) (invocations_of_comments hcomments)⟩
    | @executed node' bench known' same due' ready spares allowed =>
      obtain ⟨comments, hjournal, hcomments⟩ := spares.world.journal
      obtain rfl : node' = node := Option.some.inj (known'.symm.trans (same ▸ known))
      -- all that follows the invocation goes on by moves, which only add to the journal
      have hreplay : ∀ call id run, plan.Leads ⟨run, ⟨.walking, [call]⟩, none⟩ (replay id) run
          ⟨.walking, [call]⟩ ⟨.walking, [call]⟩ :=
        fun call id run => leads_walk named fuel [id] _ run
      have hleads := ((leads_begun hreplay node' (run.onBench bench)).bind fun branch run =>
        Leads.pure (plan.leadsTo node' branch) .refl).bind fun next run =>
          leads_walk named fuel (next ++ []) [] run
      obtain ⟨replays, cause, hreaches⟩ := hleads.reaches
      obtain ⟨later, hlater⟩ := hreaches.journal
      let tag := bench.world.tag.within { node := .ofKey node'.id }
      let begun := Invocation.begun node' tag (run.onBench bench)
      rw [← run_bind]
      refine ⟨later ++ ⟨tag, .invoked node'.id node'.label node'.type begun.state⟩ :: comments, ?_,
        .invoked later tag begun.state comments rfl (invocations_of_comments hcomments)⟩
      rw [List.append_assoc, List.cons_append, ← hjournal]
      exact hlater

end Plan

variable {registry : Registry} {budget : Option Int} {fuel : Nat} {x w : Value} {run : Run}

/-- A run ends as its walk ends, and notes nothing after it but its own end. -/
theorem courseOf_closing {workflow : Value} {ready : Run} (fuel : Nat) {departure : Departure}
    (h : (prepare registry budget workflow).run run.opened = (some (.ok departure), ready)) :
    let walked := (departure.plan.walk fuel [departure.start]).run ready
    let ended := (courseOf registry budget fuel workflow).run run
    ended.1 = walked.1 ∧ ∃ closing, ended.2.world.journal = closing ++ walked.2.world.journal ∧
      invocations closing = [] := by
  rw [courseOf_walk fuel h]
  rcases (departure.plan.walk fuel [departure.start]).run ready with ⟨_ | o, walked⟩
  · exact ⟨rfl, [], rfl, rfl⟩
  · exact ⟨rfl, [_], rfl, rfl⟩

/-- **A run of a workflow that has been read begins at the identifier of the first definition of the
type of a trigger, and fails for want of one exactly if there is no such definition.** What it
invokes first is made of the first definition with that identifier, and is a trigger exactly if this
definition is of such a type as well. -/
theorem courseOf_begins (unique : (registry.map Prod.fst).Nodup) (budget : Option Int) (fuel : Nat)
    (accepted : Workflow.parse x = .ok w) (fresh : run.state.executed = []) :
    let ended := (courseOf registry budget fuel w).run run
    ∃ graph news, Graph.ofValue w = .ok graph ∧
      ended.2.world.journal = news ++ run.world.journal ∧
      (ended.1 = some (.error .noTrigger) ∧ invocations news = [] ↔
        ∀ d ∈ graph.nodes, d.starts registry = false) ∧
      (invocations news = [] ∨ ∃ trigger winner node,
        graph.nodes.find? (fun d => d.starts registry) = some trigger ∧
        graph.node? trigger.id = some winner ∧ graph.Builds registry trigger.id node ∧
        node.cls.isTrigger = winner.starts registry ∧ ∃ later tag state earlier,
          news = later ++ ⟨tag, .invoked trigger.id node.label node.type state⟩ :: earlier ∧
            invocations earlier = []) := by
  obtain ⟨graph, read, fit⟩ := Workflow.parse_graph accepted
  obtain ⟨o, ready, hprepare, ho⟩ := prepare_total registry budget read fit run.opened
  obtain ⟨_, bench, hcalm, hspares⟩ := prepare_calm registry budget w run.opened
  obtain ⟨-, rfl⟩ := Prod.mk.inj (hprepare.symm.trans hcalm)
  clear hcalm
  obtain ⟨opening, hopening, hcomments⟩ := hspares.world.journal
  cases hfind : graph.nodes.find? fun d => d.starts registry with
  | none =>
    rw [hfind] at ho
    subst ho
    have hnone := List.find?_eq_none.1 hfind
    rw [courseOf_error hprepare]
    exact ⟨graph, opening, read, hopening,
      iff_of_true ⟨rfl, invocations_of_comments hcomments⟩ (by simpa using hnone),
      .inl (invocations_of_comments hcomments)⟩
  | some trigger =>
    rw [hfind] at ho
    obtain ⟨departure, rfl, hstart⟩ := ho
    have hof := prepare_of hprepare
    obtain rfl : departure.plan.graph = graph := Except.ok.inj (hof.graph.symm.trans read)
    obtain ⟨node, hnode⟩ := hof.start_known
    have hdue : (run.opened.onBench bench).state.shouldSkip departure.start = false :=
      (hspares.state.shouldSkip_eq _).trans (by simp [RunState.shouldSkip, Run.opened, fresh])
    obtain ⟨news, hjournal, hbegins⟩ := Plan.walk_begins hof.named hnode fuel hdue
    obtain ⟨hended, closing, hclosed, hclosing⟩ := courseOf_closing fuel hprepare
    have hmem := List.find?_some hfind
    refine ⟨departure.plan.graph, closing ++ (news ++ opening), read, ?_, ?_, ?_⟩
    · have hready : (run.opened.onBench bench).world.journal = opening ++ run.world.journal :=
        hopening
      rw [hclosed, hjournal, hready, List.append_assoc, List.append_assoc]
    · refine iff_of_false (fun h => ?_) fun hall => ?_
      · cases hbegins with
        | idle other _ => exact other (hended.symm.trans h.1)
        | invoked later tag state earlier split _ =>
          have hnone := h.2
          subst split
          simp [invocations, Event.invoked?] at hnone
      · have := hall trigger (List.mem_of_find?_eq_some hfind)
        simp [hmem] at this
    · cases hbegins with
      | idle _ none =>
        rw [invocations_append, invocations_append, none, hclosing,
          invocations_of_comments hcomments]
        exact .inl rfl
      | invoked later tag state earlier split none =>
        subst split
        have hbuilds := hof.builds _ _ hnode
        obtain ⟨hid, winner, made, time, hwinner, hmade, hsame⟩ := hof.builds _ _ hnode
        obtain ⟨type, hfit⟩ := fit winner (Graph.node?_some hwinner).1
        have htrigger : node.cls.isTrigger = winner.starts registry := by
          rw [hsame]
          exact show made.cls.isTrigger = _ from hfit.isTrigger unique hmade
        rw [hstart] at hid hwinner hbuilds
        refine .inr ⟨trigger, winner, node, hfind, hwinner, hbuilds, htrigger, closing ++ later,
          tag, state, earlier ++ opening, ?_, ?_⟩
        · simp [hid]
        · rw [invocations_append, none, invocations_of_comments hcomments]
          rfl

/-- Two definitions of one node. The first, which counts, sets a variable; the second is a
trigger. -/
def shadowedTrigger : Value := .object [("id", .text "w"), ("nodes", .list [
  .object [("id", .text "a"), ("type", .text "set-variable"), ("data", .object [("config",
    .object [("variables", .list [.object [("key", .text "v"), ("value", .text "1")]])])])],
  .object [("id", .text "a"), ("type", .text "manual-trigger")]])]

/-- What is read from the two definitions. -/
def shadowedTriggerForm : Value := .object [("id", .text "w"), ("name", .text "w"),
  ("nodes", .list [
    .object [("id", .text "a"), ("type", .text "set-variable"), ("data", .object [
      ("label", .text "a"), ("config",
        .object [("variables", .list [.object [("key", .text "v"), ("value", .text "1")]])])])],
    .object [("id", .text "a"), ("type", .text "manual-trigger"), ("data", .object [
      ("label", .text "a"), ("config", .dict [])])]]),
  ("edges", .list [])]

theorem parse_shadowedTrigger : Workflow.parse shadowedTrigger = .ok shadowedTriggerForm := by
  with_unfolding_all rfl

theorem courseOf_begins_shadowedTrigger :
    let run : Run := { world := {}, state := {} }
    let ended := (courseOf .builtin none 5 shadowedTriggerForm).run run
    (Registry.builtin.map Prod.fst).Nodup ∧
      Workflow.parse shadowedTrigger = .ok shadowedTriggerForm ∧ run.state.executed = [] ∧
      ∃ graph news, Graph.ofValue shadowedTriggerForm = .ok graph ∧
        ended.2.world.journal = news ++ run.world.journal ∧
        (ended.1 = some (.error .noTrigger) ∧ invocations news = [] ↔
          ∀ d ∈ graph.nodes, d.starts .builtin = false) ∧
        (invocations news = [] ∨ ∃ trigger winner node,
          graph.nodes.find? (fun d => d.starts .builtin) = some trigger ∧
          graph.node? trigger.id = some winner ∧ graph.Builds .builtin trigger.id node ∧
          node.cls.isTrigger = winner.starts .builtin ∧ ∃ later tag state earlier,
            news = later ++ ⟨tag, .invoked trigger.id node.label node.type state⟩ :: earlier ∧
              invocations earlier = []) :=
  ⟨by decide +kernel, parse_shadowedTrigger, rfl,
    courseOf_begins (by decide +kernel) none 5 parse_shadowedTrigger rfl⟩

/-- No definition that counts is of the type of a trigger, and yet the run does not fail: it begins
with the node that sets the variable. -/
theorem shadowedTrigger_begins :
    let run : Run := { world := {}, state := {} }
    let ended := (courseOf .builtin none 5 shadowedTriggerForm).run run
    ∃ graph, Graph.ofValue shadowedTriggerForm = .ok graph ∧
      (graph.nodes.all fun d => (graph.node? d.id).all fun winner => !winner.starts .builtin) ∧
      ended.1.map Except.isOk = some true ∧ invocations ended.2.world.journal = [.text "a"] ∧
      ended.2.state.vars.map Prod.fst = [.text "v"] :=
  ⟨_, rfl, by decide +kernel, by decide +kernel, by decide +kernel, by decide +kernel⟩

end WorkflowEngine
