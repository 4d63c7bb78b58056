import WorkflowEngine.Proofs.Run.Bindings
import WorkflowEngine.Proofs.Run.Telling

/-!
# What merges join of what their sources have put out

A merge joins the outputs of its sources, and the output before unless that is one of them. Whether
it is one of them is a question of where a value was made, and an output that a run records is made
by the visit that records it; so it is told from all others, and is never told from itself
(`Value.same_madeBy`). An output before that a source has recorded is thus joined once, at the place
of its first source, whatever the values are and however the merge was come to (`courseOf_merged`).
-/

namespace WorkflowEngine

open Walk

/-! ## Values that are told from others -/

namespace Value

variable {v : Value}

/-- A value of which all copies are one is equal to itself. -/
theorem equal_self_of_isShared (h : v.isShared = true) : v.equal v = true := by
  cases v with
  | null | bool | ellipsis | int | text | bytes | live | enclosing =>
    simp [equal, equalKeys, key?, Key.same]
  | tuple items mark =>
    obtain rfl : items = [] := List.isEmpty_iff.1 h
    rfl
  | _ => cases h

/-- Of a value that was made somewhere all copies are one, or it is known where it was made. -/
theorem isShared_or_mark_madeBy (source : Source) (v : Value) :
    (v.madeBy source).isShared = true ∨ ∃ m, (v.madeBy source).mark? = some m := by
  cases v with
  | null | bool | ellipsis | live | enclosing => exact .inl rfl
  | int _ mark | float _ mark | text _ mark | bytes _ mark | moment _ mark | day _ mark
  | complex _ _ mark | thing _ mark | list _ mark | tuple _ mark | set _ _ mark | dict _ mark =>
    cases mark <;> exact .inr ⟨_, rfl⟩

/-- **A value that was made somewhere is the same as itself.** -/
theorem same_madeBy (source : Source) (v : Value) :
    (v.madeBy source).same (v.madeBy source) = true := by
  unfold same
  cases hshared : (v.madeBy source).isShared with
  | true => simpa using equal_self_of_isShared hshared
  | false =>
    rcases isShared_or_mark_madeBy source v with h | ⟨m, hm⟩
    · rw [hshared] at h
      cases h
    · simp [hm]

/-! ## The union of some inputs -/

/-- What an input at a place adds to a union: its entries if it is an object, nothing if it is null,
and else itself under a name with the place. -/
def offers (scopes : Scopes) (i : Nat) (v : Value) : List (Key × Value) :=
  match v.entries? scopes with
  | some entries => entries
  | none => if v.isNull then [] else [(.text ("value" ++ Number.natText i), v)]

/-- What some inputs add to a union, one after another. -/
def offered (scopes : Scopes) (inputs : List Value) : List (Key × Value) :=
  inputs.zipIdx.flatMap fun p => p.1.offers scopes p.2

/-- Of what is added under one name the last counts. -/
theorem under_foldl_putField (pairs : List (Key × Value)) (fields : Fields) (name : Key) :
    under name (pairs.foldl (fun fields (k, v) => putField k v fields) fields) =
      ((pairs.reverse.find? fun p => p.1.same name).map Prod.snd).or (under name fields) := by
  induction pairs generalizing fields with
  | nil => rfl
  | cons p rest ih =>
    rw [List.foldl_cons, ih, under_putField, List.reverse_cons, List.find?_append, Option.map_or,
      Option.or_assoc, List.find?_singleton]
    cases p.1.same name <;> rfl

end Value

/-! ## One merge -/

namespace Node

variable {node : Node} {s : RunState}

/-- The union is that of all that is added. -/
theorem uniteFrom_eq (scopes : Scopes) (inputs : List Value) : ∀ (i : Nat) (merged : Fields),
    uniteFrom scopes i merged inputs =
      ((inputs.zipIdx i).flatMap fun p => p.1.offers scopes p.2).foldl
        (fun fields (k, v) => Value.putField k v fields) merged := by
  induction inputs with
  | nil => exact fun _ _ => rfl
  | cons v vs ih =>
    intro i merged
    rw [uniteFrom, ih, List.zipIdx_cons, List.flatMap_cons, List.foldl_append]
    congr 1
    unfold Value.offers
    cases v.entries? scopes with
    | some entries => rfl
    | none => cases v.isNull <;> rfl

/-- What becomes of some inputs, by the mode in which they are joined. -/
inductive Joins (scopes : Scopes) (previous : Value) (inputs : List Value) : Value → Value → Prop
  /-- The items of the lists, and the other inputs, in order. -/
  | append (mark : Option Stamp) :
      Joins scopes previous inputs (.text "append" mark) (.list (joinLists inputs))
  | multiplex (mark : Option Stamp) :
      Joins scopes previous inputs (.text "multiplex" mark) (.list inputs)
  /-- The union of the inputs, in which the last value under a name counts; the output before, if
  that is empty. -/
  | merge (mark : Option Stamp) {merged : Fields}
      (united : merged = Value.objectOf (Value.offered scopes inputs))
      (last : ∀ name, Value.under name merged =
        ((Value.offered scopes inputs).reverse.find? fun p => p.1.same name).map Prod.snd) :
      Joins scopes previous inputs (.text "merge" mark)
        (if merged.isEmpty then previous else .dict merged)
  /-- The last input, in any other mode. -/
  | other {mode output : Value}
      (unknown : ∀ known ∈ ["merge", "append", "multiplex"], mode.isText known = false)
      (last : inputs.getLast? = some output) : Joins scopes previous inputs mode output

/-- An output before that is recorded for a source is joined as the output of that source only. -/
theorem mergeInputs_of_recorded {source : Key} (hsource : source ∈ node.sources)
    (hrecorded : s.outputs.lookup source = some s.previous)
    (hself : s.previous.same s.previous = true) :
    mergeInputs node s = node.sources.filterMap (s.outputs.lookup ·) ∧ mergeInputs node s ≠ [] := by
  have hmem : s.previous ∈ node.sources.filterMap (s.outputs.lookup ·) :=
    List.mem_filterMap.2 ⟨source, hsource, hrecorded⟩
  have hany : (node.sources.filterMap (s.outputs.lookup ·)).any s.previous.same = true :=
    List.any_eq_true.2 ⟨_, hmem, hself⟩
  have hinputs : mergeInputs node s = node.sources.filterMap (s.outputs.lookup ·) := by
    rw [mergeInputs, hany, Bool.or_true, if_pos rfl]
  exact ⟨hinputs, hinputs ▸ List.ne_nil_of_mem hmem⟩

theorem isText_iff {v : Value} {t : String} : v.isText t = true ↔ ∃ mark, v = .text t mark := by
  cases v <;> simp [Value.isText]

/-- What a merge puts out in a mode. -/
def joined (node : Node) (s : RunState) (mode : Value) : Value :=
  let inputs := mergeInputs node s
  if mode.isText "merge" then
    let merged := uniteFrom s.toScopes 0 [] inputs
    if merged.isEmpty then s.previous else .dict merged
  else if mode.isText "append" then .list (joinLists inputs)
  else if mode.isText "multiplex" then .list (if inputs.isEmpty then [s.previous] else inputs)
  else inputs.getLast?.getD s.previous

/-- A merge puts out what its mode makes of its inputs, and does nothing else. -/
theorem runMerge_runOn {mode : Value} (h : node.settingOr "mode" (.text "merge") = .ok mode)
    (world : World) (s : RunState) :
    (runMerge node).runOn ⟨world, s⟩ = (.ok (.plain (node.joined s mode)), ⟨world, s⟩) := by
  unfold runMerge joined
  simp only [Act.runOn_state_bind, h, Act.runOn_ofAttempt_bind]
  cases mode.isText "merge" with
  | true => rfl
  | false =>
    cases mode.isText "append" with
    | true => rfl
    | false => cases mode.isText "multiplex" <;> rfl

/-- **What a merge puts out is what its mode asks for**, if it has inputs. -/
theorem joins_joined (node : Node) (s : RunState) (mode : Value) (h : mergeInputs node s ≠ []) :
    Joins s.toScopes s.previous (mergeInputs node s) mode (node.joined s mode) := by
  by_cases hmerge : mode.isText "merge" = true
  · obtain ⟨mark, rfl⟩ := isText_iff.1 hmerge
    have hunited : uniteFrom s.toScopes 0 [] (mergeInputs node s) =
        Value.objectOf (Value.offered s.toScopes (mergeInputs node s)) :=
      uniteFrom_eq s.toScopes _ 0 []
    refine .merge mark hunited fun name => ?_
    rw [hunited, Value.objectOf, Value.under_foldl_putField]
    exact Option.or_none
  by_cases happend : mode.isText "append" = true
  · obtain ⟨mark, rfl⟩ := isText_iff.1 happend
    exact .append mark
  by_cases hmultiplex : mode.isText "multiplex" = true
  · obtain ⟨mark, rfl⟩ := isText_iff.1 hmultiplex
    have hjoined : node.joined s (.text "multiplex" mark) = .list (mergeInputs node s) :=
      congrArg Value.list (if_neg (by simpa using h))
    rw [hjoined]
    exact .multiplex mark
  · refine .other (by simp [hmerge, happend, hmultiplex]) ?_
    rw [joined, if_neg hmerge, if_neg happend, if_neg hmultiplex,
      List.getLast?_eq_some_getLast h, Option.getD_some]

theorem exists_mode {entries : Fields} {mark : Option Stamp}
    (h : node.settings = .dict entries mark) :
    ∃ mode, node.settingOr "mode" (.text "merge") = .ok mode := by
  rw [settingOr, setting, h]
  exact ⟨_, rfl⟩

end Node

/-! ## What a run shows of merges -/

/-- The node is a merge, by its definition. -/
def Graph.IsMerge (registry : Registry) (graph : Graph) (id : Key) : Prop :=
  ∃ node, graph.Makes registry id node ∧ node.cls.kind = .merge

/-- Some entries, the latest first, show outputs that were made by the visits that record them, and
every merge to answer right after its invocation, with what its action puts out. -/
structure Graph.ShowsMerges (registry : Registry) (graph : Graph) (entries : List Entry) : Prop where
  made : ∀ e ∈ entries, ∀ id output, e.event.success? = some (id, output) →
    ∃ source v, output = Value.madeBy source v
  answered : ∀ later e earlier id label type state, entries = later ++ e :: earlier →
    e.event = .invoked id label type state → graph.IsMerge registry id →
    ∃ node mode before tag milliseconds state', graph.Builds registry id node ∧
      node.settingOr "mode" (.text "merge") = .ok mode ∧
      later = before ++ [⟨tag, .succeeded id type milliseconds .null
        ((node.joined state mode).madeBy (.visit state.time 0)) state'⟩]

namespace Graph.ShowsMerges

variable {registry : Registry} {graph : Graph} {entries : List Entry}

/-- Entries without an invocation of a merge show all that there is to show. -/
theorem of_others (made : ∀ e ∈ entries, ∀ id output, e.event.success? = some (id, output) →
      ∃ source v, output = Value.madeBy source v)
    (others : ∀ e ∈ entries, ∀ id, e.event.invoked? = some id → ¬ graph.IsMerge registry id) :
    graph.ShowsMerges registry entries where
  made := made
  answered later e earlier id label type state hsplit hevent hmerge := by
    have he : e ∈ entries := by
      rw [hsplit]
      exact List.mem_append_right _ List.mem_cons_self
    exact absurd hmerge (others e he id (by rw [hevent]; rfl))

theorem lasting (registry : Registry) (graph : Graph) : Lasting (graph.ShowsMerges registry) where
  nil := .of_others (by simp) (by simp)
  append {later earlier} hearlier hlater := by
    refine ⟨fun e he => ?_, fun front e back id label type state hsplit hevent hmerge => ?_⟩
    · exact (List.mem_append.1 he).elim (hlater.made e) (hearlier.made e)
    · rcases split_append hsplit with ⟨rest, hfront, rfl⟩ | ⟨rest, rfl, hback⟩
      · exact hlater.answered front e rest id label type state hfront hevent hmerge
      · -- the answer of an earlier invocation is among the earlier entries
        obtain ⟨node, mode, before, tag, milliseconds, state', hbuilds, hmode, rfl⟩ :=
          hearlier.answered rest e back id label type state hback hevent hmerge
        exact ⟨node, mode, later ++ before, tag, milliseconds, state', hbuilds, hmode,
          (List.append_assoc _ _ _).symm⟩

theorem of_remarks (h : ∀ e ∈ entries, e.event.isRemark = true) :
    graph.ShowsMerges registry entries := by
  refine .of_others (fun e he id output hsuccess => ?_) fun e he id hinvoked => ?_
  · rw [Event.success?_of_isRemark (h e he)] at hsuccess
    cases hsuccess
  · have hnone := Event.subject?_of_isRemark (h e he)
    rw [Event.subject?_of_invoked? hinvoked] at hnone
    cases hnone

end Graph.ShowsMerges

namespace Plan

variable {plan : Plan} {node : Node} {replay : Key → Walk Unit}

/-- How an execution ends shows all that there is to show of merges: what is recorded of it was made
by it. -/
theorem Closing.showsMerges {time : Nat} {o : Option (Attempt Reply)} {o' : Option (Attempt Value)}
    {closing : List Entry} (h : Closing node time o o' closing) (registry : Registry)
    (graph : Graph) : graph.ShowsMerges registry closing := by
  cases h with
  | stopped | abandoned => exact (Graph.ShowsMerges.lasting registry graph).nil
  | answered reply tag milliseconds state =>
    refine .of_others (fun e he id output hsuccess => ?_) (by simp [Event.invoked?])
    rw [List.mem_singleton.1 he] at hsuccess
    obtain ⟨_, rfl⟩ := Prod.mk.inj (Option.some.inj hsuccess)
    exact ⟨_, _, rfl⟩
  | failed f tag state => exact .of_others (by simp [Event.success?]) (by simp [Event.invoked?])

/-- The invocation of a merge puts out what its mode makes of its inputs, and does nothing else. -/
theorem invoke_merge (plan : Plan) (kind : node.cls.kind = .merge) {mode : Value}
    (hmode : node.settingOr "mode" (.text "merge") = .ok mode) (replay : Key → Walk Unit)
    (run : Run) : (node.invoke plan replay).run run =
      (some (.ok (.plain (node.joined run.state mode))), run) := by
  have hvalid : node.validate run.world.settings = .ok () := by
    unfold Node.validate
    rw [kind]
  have hexecute : node.execute = node.runMerge := by
    unfold Node.execute
    rw [kind]
  have hplain : node.cls.kind ≠ .loop := by
    rw [kind]
    exact Kind.noConfusion
  have hrun : node.runMerge.runOn run.toBench =
      (.ok (.plain (node.joined run.state mode)), run.toBench) :=
    Node.runMerge_runOn hmode run.world run.state
  unfold Node.invoke
  simp only [run_bind, run_get, run_ofAttempt, hvalid, Node.act_plain plan replay hplain, run_ofAct,
    hexecute, hrun]

end Plan

namespace Departure.Of

variable {registry : Registry} {budget : Option Int} {workflow : Value} {departure : Departure}

/-- The invocation of a node that is no merge has nothing to show of merges. -/
theorem showsMerges_invoked (h : departure.Of registry budget workflow) {node : Node}
    (known : departure.plan.nodes.lookup node.id = some node) (kind : node.cls.kind ≠ .merge)
    (tag : Tag) (state : RunState) : departure.plan.graph.ShowsMerges registry
      [⟨tag, .invoked node.id node.label node.type state⟩] := by
  refine .of_others (by simp [Event.success?]) fun e he id hinvoked hmerge => ?_
  rw [List.mem_singleton.1 he] at hinvoked
  obtain rfl := Option.some.inj hinvoked
  exact kind ((h.kind_iff known .merge).1 hmerge)

/-- The execution of a merge that is ready notes that it begins and what it has put out, and nothing
in between. -/
theorem execute_merge (h : departure.Of registry budget workflow) {node : Node}
    (known : departure.plan.nodes.lookup node.id = some node) (kind : node.cls.kind = .merge)
    (asked : ∃ bench, (node.isReady.runOn bench).1 = .ok true) (replay : Key → Walk Unit)
    (run : Run) : ∃ news,
      ((departure.plan.execute replay node).run run.visited).2.world.journal =
        news ++ run.world.journal ∧ departure.plan.graph.ShowsMerges registry news := by
  obtain ⟨bench, hready⟩ := asked
  obtain ⟨entries, mark, hsettings⟩ := Node.dict_of_isReady kind hready
  obtain ⟨mode, hmode⟩ := Node.exists_mode hsettings
  obtain ⟨tag, closing, hclosing, hjournal, _⟩ :=
    Plan.execute_closing departure.plan replay node run
  let state : RunState := { run.state with time := run.state.time + 1 }
  rw [Plan.invoke_merge departure.plan kind hmode replay] at hclosing hjournal
  have hshows := hclosing.showsMerges registry departure.plan.graph
  generalize ((departure.plan.execute replay node).run run.visited).1 = o at hclosing
  cases hclosing with
  | answered _ tag' milliseconds state' =>
    let began : Entry := ⟨tag, .invoked node.id node.label node.type state⟩
    let answer : Entry := ⟨tag', .succeeded node.id node.type milliseconds .null
      ((node.joined state mode).madeBy (.visit state.time 0)) state'⟩
    have hmade : ∀ e ∈ [answer, began], ∀ id value, e.event.success? = some (id, value) →
        ∃ source v, value = Value.madeBy source v :=
      List.forall_mem_cons.2 ⟨hshows.made answer List.mem_cons_self, by simp [Event.success?]⟩
    refine ⟨[answer, began], hjournal, hmade, ?_⟩
    intro later e earlier id label type s hsplit hevent _
    obtain ⟨rfl, hanswer⟩ | ⟨rest, rfl, hbegan⟩ := List.cons_eq_append_iff.1 hsplit
    · obtain ⟨rfl, -⟩ := List.cons.inj hanswer
      cases hevent
    · obtain ⟨rfl, hinvoked⟩ | ⟨_, -, hnone⟩ := List.cons_eq_append_iff.1 hbegan
      · obtain ⟨rfl, rfl⟩ := List.cons.inj hinvoked
        cases hevent
        exact ⟨node, mode, [], tag', milliseconds, state', h.builds node.id node known, hmode, rfl⟩
      · simp at hnone

/-- The execution of any other node but a loop notes that it begins, comments, and how it ends. -/
theorem execute_unmerged (h : departure.Of registry budget workflow) (books : registry.KeepsBooks)
    {node : Node} (known : departure.plan.nodes.lookup node.id = some node)
    (kind : node.cls.kind ≠ .merge) (hloop : node.cls.kind ≠ .loop) (replay : Key → Walk Unit)
    (run : Run) : ∃ news,
      ((departure.plan.execute replay node).run run.visited).2.world.journal =
        news ++ run.world.journal ∧ departure.plan.graph.ShowsMerges registry news := by
  have lasting := Graph.ShowsMerges.lasting registry departure.plan.graph
  obtain ⟨tag, closing, hclosing, hjournal, _⟩ :=
    Plan.execute_closing departure.plan replay node run
  obtain ⟨o, bench, hinvoke, _, ⟨entries, hentries, hcomments⟩, _⟩ :=
    Plan.invoke_plain departure.plan hloop
      (fun executor branching => h.keepsBooks books node.id node executor branching known) replay
      (Invocation.begun node tag run)
  rw [hinvoke] at hclosing hjournal
  let began : Entry := ⟨tag, .invoked node.id node.label node.type
    { run.state with time := run.state.time + 1 }⟩
  refine ⟨closing ++ (entries ++ [began]), ?_, ?_⟩
  · rw [hjournal, List.append_assoc, List.append_assoc]
    exact congrArg (closing ++ ·) hentries
  · have hremarks : departure.plan.graph.ShowsMerges registry entries :=
      .of_remarks fun e he => Event.isRemark_of_isComment (hcomments e he)
    exact lasting.append (lasting.append (h.showsMerges_invoked known kind tag _) hremarks)
      (hclosing.showsMerges registry _)

/-- **The parts of a walk show every merge to answer right after its invocation.** -/
theorem reports_merges (h : departure.Of registry budget workflow) (books : registry.KeepsBooks) :
    departure.plan.Reports (departure.plan.graph.ShowsMerges registry) where
  lasting := Graph.ShowsMerges.lasting registry _
  remarks entries hremarks := .of_remarks hremarks
  invoked node known kind tag state :=
    h.showsMerges_invoked known (by rw [kind]; exact Kind.noConfusion) tag state
  began node known kind tag items :=
    .of_others (by simp [Event.success?]) (by simp [Event.invoked?])
  closed node known kind time o o' closing hclosing := hclosing.showsMerges registry _
  others node known kind asked replay run := by
    by_cases hmerge : node.cls.kind = .merge
    · exact h.execute_merge known hmerge asked replay run
    · exact h.execute_unmerged books known hmerge kind replay run

end Departure.Of

/-! ## A whole run -/

/-- **A merge joins each output of its sources once, in the order of their first edges.** Where the
output before is the latest that a source has put out in a run, the inputs of a merge are what its
sources have put out latest, of those that have put out anything, and the output before is no input
of its own. The merge answers at once with what its mode makes of these inputs. -/
theorem courseOf_merged (registry : Registry) (budget : Option Int) (fuel : Nat) (workflow : Value)
    (run : Run) (books : registry.KeepsBooks) :
    let run' := ((courseOf registry budget fuel workflow).run run).2
    ∃ made news, run'.results = run.results ++ made ∧
      run'.world.journal = news ++ run.world.journal ∧
      made.filterMap NodeResult.success? = news.reverse.filterMap (fun e => e.event.success?) ∧
      ∀ graph later e earlier merge label type state, Graph.ofValue workflow = .ok graph →
        news = later ++ e :: earlier → e.event = .invoked merge label type state →
        graph.IsMerge registry merge →
        (∃ source ∈ graph.sources merge, latestOutput earlier source = some state.previous) →
        let inputs := (graph.sources merge).eraseDups.filterMap (outputAfter run earlier)
        ∃ node mode output before tag milliseconds state', graph.Builds registry merge node ∧
          node.settingOr "mode" (.text "merge") = .ok mode ∧ node.mergeInputs state = inputs ∧
          Node.Joins state.toScopes state.previous inputs mode output ∧
          later = before ++ [⟨tag, .succeeded merge type milliseconds .null
            (output.madeBy (.visit state.time 0)) state'⟩] := by
  obtain ⟨made, news, hresults, hjournal, hmatched, hinformed⟩ :=
    courseOf_informed books budget fuel workflow run
  refine ⟨made, news, hresults, hjournal, hmatched, ?_⟩
  intro graph later e earlier merge label type state hgraph hsplit hevent hmerge
  rintro ⟨source, hsource, hlatest⟩ inputs
  have hshows : graph.ShowsMerges registry news := by
    obtain ⟨news', hjournal', hshows⟩ := courseOf_notes (Graph.ShowsMerges.lasting registry graph)
      (fun _ hremarks => Graph.ShowsMerges.of_remarks hremarks) (fun departure hof => by
        obtain rfl := Except.ok.inj (hof.graph.symm.trans hgraph)
        exact hof.reports_merges books) fuel run
    rwa [List.append_cancel_right (hjournal.symm.trans hjournal')]
  obtain ⟨node, mode, before, tag, milliseconds, state', hbuilds, hmode, hlater⟩ :=
    hshows.answered later e earlier merge label type state hsplit hevent hmerge
  have houtputs : ∀ id, state.outputs.lookup id = outputAfter run earlier id :=
    (hinformed later e earlier merge label type state hsplit hevent).1
  have hsources : node.sources = (graph.sources merge).eraseDups := by
    obtain ⟨hid, _, made, _, _, _, rfl⟩ := hbuilds
    exact congrArg (fun id => (graph.sources id).eraseDups) hid
  -- the output before was made by the visit that has put it out, so it is told from all others
  have hself : state.previous.same state.previous = true := by
    obtain ⟨e', he', hsuccess⟩ := exists_of_latestOutput hlatest
    obtain ⟨origin, v, hv⟩ := hshows.made e' (by rw [hsplit]; simp [he']) source _ hsuccess
    rw [hv]
    exact Value.same_madeBy origin v
  have hrecorded : state.outputs.lookup source = some state.previous := by
    rw [houtputs, outputAfter, hlatest, Option.some_or]
  have hmem : source ∈ node.sources := by
    rw [hsources]
    exact List.mem_eraseDups.2 hsource
  obtain ⟨hinputs, hsome⟩ := Node.mergeInputs_of_recorded hmem hrecorded hself
  have hjoined : node.mergeInputs state = inputs := by
    rw [hinputs, hsources]
    exact congrArg (fun f => List.filterMap f _) (funext houtputs)
  exact ⟨node, mode, node.joined state mode, before, tag, milliseconds, state', hbuilds, hmode,
    hjoined, hjoined ▸ Node.joins_joined node state mode hsome, hlater⟩

/-- A trigger that leads to two nodes that pass their input on, and a merge that waits for both and
is joined to the second by two edges. -/
def doubledEdges : Graph where
  id := .text "unknown"
  name := .text "unknown"
  nodes := [
    ⟨.text "t", .object [("id", .text "t"), ("type", .text "manual-trigger")]⟩,
    ⟨.text "a", .object [("id", .text "a"), ("type", .text "pass")]⟩,
    ⟨.text "b", .object [("id", .text "b"), ("type", .text "pass")]⟩,
    ⟨.text "m", .object [("id", .text "m"), ("type", .text "merge"),
      ("data", .object [("config",
        .object [("waitForAll", .bool true), ("mode", .text "append")])])]⟩]
  edges := [⟨.text "t", .text "a", .null⟩, ⟨.text "t", .text "b", .null⟩,
    ⟨.text "b", .text "m", .null⟩, ⟨.text "a", .text "m", .null⟩, ⟨.text "b", .text "m", .null⟩]

theorem doubledEdges_read : Graph.ofValue doubledEdges.toValue = .ok doubledEdges := by rfl

theorem doubledEdges_isMerge : doubledEdges.IsMerge .builtin (.text "m") :=
  ⟨_, ⟨rfl, _, _, .null, rfl, rfl, rfl⟩, rfl⟩

/-- Whether an entry shows a merge to be invoked when the latest output of a source, a text, is the
output before. -/
def Entry.joinsText (merge source : Key) (e : Entry) (earlier : List Entry) : Bool :=
  match e.event, latestOutput earlier source with
  | .invoked id _ _ state, some (.text s mark) => id == merge &&
      match state.previous with
      | .text s' mark' => s' == s && mark' == mark
      | _ => false
  | _, _ => false

theorem Entry.exists_of_joinsText {merge source : Key} {e : Entry} {earlier : List Entry}
    (h : e.joinsText merge source earlier = true) : ∃ label type state,
      e.event = .invoked merge label type state ∧
        latestOutput earlier source = some state.previous := by
  unfold joinsText at h
  split at h
  · rename_i id label type state s mark hevent hlatest
    simp only [Bool.and_eq_true, beq_iff_eq] at h
    obtain ⟨rfl, h⟩ := h
    split at h
    · rename_i s' mark' hprevious
      simp only [Bool.and_eq_true, beq_iff_eq] at h
      obtain ⟨rfl, rfl⟩ := h
      exact ⟨label, type, state, hevent, hlatest.trans (congrArg some hprevious.symm)⟩
    · cases h
  · cases h

/-- Both nodes put out the text that the run begins with, the second right before the merge: the
merge joins it once for each of them. -/
theorem courseOf_merged_doubledEdges :
    let run : Run := { world := {}, state := { previous := .text "x" } }
    Registry.builtin.KeepsBooks ∧ Graph.ofValue doubledEdges.toValue = .ok doubledEdges ∧
      doubledEdges.IsMerge .builtin (.text "m") ∧
      (doubledEdges.sources (.text "m")).eraseDups = [.text "b", .text "a"] ∧
      ((courseOf .builtin none 40 doubledEdges.toValue).run run).2.results.map NodeResult.node =
        [.text "t", .text "a", .text "b", .text "m"] ∧
      ∃ later e earlier label type state,
        ((courseOf .builtin none 40 doubledEdges.toValue).run run).2.world.journal =
          later ++ e :: earlier ∧
        e.event = .invoked (.text "m") label type state ∧
        (∃ source ∈ doubledEdges.sources (.text "m"),
          latestOutput earlier source = some state.previous) ∧
        let inputs := (doubledEdges.sources (.text "m")).eraseDups.filterMap
          (outputAfter run earlier)
        ∃ node mode output before tag milliseconds state',
          doubledEdges.Builds .builtin (.text "m") node ∧
          node.settingOr "mode" (.text "merge") = .ok mode ∧ node.mergeInputs state = inputs ∧
          Node.Joins state.toScopes state.previous inputs mode output ∧
          later = before ++ [⟨tag, .succeeded (.text "m") type milliseconds .null
            (output.madeBy (.visit state.time 0)) state'⟩] := by
  intro run
  obtain ⟨later, e, earlier, hsplit, hjoins⟩ : ∃ later e earlier,
      ((courseOf .builtin none 40 doubledEdges.toValue).run run).2.world.journal =
        later ++ e :: earlier ∧ e.joinsText (.text "m") (.text "b") earlier = true :=
    exists_split_of_any (by decide +kernel)
  obtain ⟨label, type, state, hevent, hlatest⟩ := Entry.exists_of_joinsText hjoins
  have hsource : ∃ source ∈ doubledEdges.sources (.text "m"),
      latestOutput earlier source = some state.previous := ⟨.text "b", by decide, hlatest⟩
  obtain ⟨made, news, _, hjournal, _, hmerged⟩ := courseOf_merged .builtin none 40
    doubledEdges.toValue run Registry.builtin_keepsBooks
  have hnews : news = later ++ e :: earlier :=
    (List.append_nil news).symm.trans (hjournal.symm.trans hsplit)
  exact ⟨Registry.builtin_keepsBooks, doubledEdges_read, doubledEdges_isMerge, by decide,
    by decide +kernel, later, e, earlier, label, type, state, hsplit, hevent, hsource,
    hmerged doubledEdges later e earlier (.text "m") label type state doubledEdges_read hnews
      hevent doubledEdges_isMerge hsource⟩

end WorkflowEngine
