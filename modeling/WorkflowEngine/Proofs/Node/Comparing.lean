import WorkflowEngine.Proofs.Node.Commuting
import WorkflowEngine.Proofs.Node.Storing

/-!
# Nodes that compare

A condition, a filter and a switch compare what a path of their settings leads to in the output
before. Settings that have been checked and a JSON output leave them two ways to fail
(`execute_comes`): one of the comparisons oversteps, or the setting that stands in the place of
the path is none.
-/

namespace WorkflowEngine

namespace Value

variable {v path : Value}

/-- Whether a value of the settings can stand for a path: a text, or anything that does not count as
true and stands for the empty path. -/
def isPath (path : Value) : Bool := path.text?.isSome || !path.holds

/-- The values of which a filter looks at each: the items of a list, those of the lists in an object,
and else the value itself. -/
def examined : Value → List Value
  | .list items _ => items
  | .dict entries _ => entries.flatMap fun e => match e.2 with
    | .list items _ => items
    | _ => []
  | v => [v]

theorem mem_examined_dict {entries : Fields} {mark : Option Stamp} {item : Value} :
    item ∈ (Value.dict entries mark).examined ↔
      ∃ e ∈ entries, ∃ items mark', e.2 = .list items mark' ∧ item ∈ items := by
  unfold examined
  rw [List.mem_flatMap]
  refine exists_congr fun e => and_congr_right fun _ => ?_
  cases e.2 <;> simp

/-- In a JSON value a path leads to a JSON value, and nothing but a path leads anywhere. -/
theorem SaysJson.nestedBy (h : v.SaysJson) (hpath : path.SaysJson) (scopes : Scopes) :
    (∃ w, v.nestedBy scopes path = .ok w ∧ w.SaysJson) ∨
      v.nestedBy scopes path = .fault .missingMember ∧ path.isPath = false := by
  cases hpath with
  | text s mark => exact .inl ⟨_, rfl, h.nested _⟩
  | null | bool | int | float | list | dict =>
    unfold Value.nestedBy
    dsimp only
    split
    · exact .inl ⟨_, rfl, .null⟩
    · split
      · exact .inl ⟨_, rfl, h⟩
      · next hholds => exact .inr ⟨rfl, by simpa [isPath, text?] using hholds⟩

end Value

/-! ## What comes of comparing -/

/-- What comes of work that compares: an answer, if no comparison oversteps, a fault for a number too
large, if one does, or a fault for a path that is none. -/
inductive Comes {α : Type} (oversteps pathless : Prop) : Attempt α → Prop
  | answer (v : α) (fits : ¬ oversteps) : Comes oversteps pathless (.ok v)
  | tooLarge (overstepped : oversteps) : Comes oversteps pathless (.fault .tooLarge)
  | noPath (none : pathless) : Comes oversteps pathless (.fault .missingMember)

section

variable {α β : Type} {oversteps oversteps' pathless : Prop} {a : Attempt α}

theorem Comes.congr (h : Comes oversteps pathless a) (hiff : oversteps ↔ oversteps') :
    Comes oversteps' pathless a := by
  cases h with
  | answer v fits => exact .answer v (mt hiff.2 fits)
  | tooLarge overstepped => exact .tooLarge (hiff.1 overstepped)
  | noPath none => exact .noPath none

/-- What is made of an answer without comparing changes nothing about what comes. -/
theorem Comes.bind_ok (h : Comes oversteps pathless a) {next : α → Attempt β}
    (hnext : ∀ v, ∃ w, next v = .ok w) : Comes oversteps pathless (a >>= next) := by
  cases h with
  | answer v fits =>
    obtain ⟨w, hw⟩ := hnext v
    rw [Attempt.ok_bind, hw]
    exact .answer w fits
  | tooLarge overstepped => exact .tooLarge overstepped
  | noPath none => exact .noPath none

/-- Where an answer is followed by more comparisons, those count as well. -/
theorem Comes.bind (h : Comes oversteps pathless a) {next : α → Attempt β}
    (hnext : ∀ v, a = .ok v → Comes oversteps' pathless (next v)) :
    Comes (oversteps ∨ oversteps') pathless (a >>= next) := by
  cases h with
  | answer v fits => exact (hnext v rfl).congr (or_iff_right fits).symm
  | tooLarge overstepped => exact .tooLarge (.inl overstepped)
  | noPath none => exact .noPath none

/-- Work that compares and then answers comes to what comparing does. -/
theorem Comes.runOn (h : Comes oversteps pathless a) {next : α → Act Reply} {bench : Bench}
    (hnext : ∀ v, ∃ reply, (next v).runOn bench = (.ok reply, bench)) :
    ∃ result, (Act.ofAttempt a >>= next).runOn bench = (result, bench) ∧
      Comes oversteps pathless result := by
  cases h with
  | answer v fits =>
    obtain ⟨reply, hreply⟩ := hnext v
    exact ⟨.ok reply, hreply, .answer reply fits⟩
  | tooLarge overstepped => exact ⟨_, rfl, .tooLarge overstepped⟩
  | noPath none => exact ⟨_, rfl, .noPath none⟩

theorem Comes.map (h : Comes oversteps pathless a) (f : α → β) :
    Comes oversteps pathless (a.map f) := by
  cases h with
  | answer v fits => exact .answer (f v) fits
  | tooLarge overstepped => exact .tooLarge overstepped
  | noPath none => exact .noPath none

theorem comes_condition (scopes : Scopes) {field value : Value} {comparison : Option Comparison}
    (hfield : field.SaysJson) (hvalue : value.SaysJson) :
    Comes (Oversteps field comparison value) pathless (condition scopes field comparison value) := by
  by_cases h : Oversteps field comparison value
  · rw [condition_of_oversteps scopes hfield h]
    exact .tooLarge h
  · obtain ⟨b, hb⟩ := condition_of_fits scopes hfield hvalue h
    rw [hb]
    exact .answer b h

end

namespace Node

variable {node : Node} {scopes : Scopes} {bench : Bench}

/-- The setting that stands for the path. -/
def pathSetting (node : Node) : Attempt Value :=
  match node.cls.kind with
  | .switch => node.settingOr "field" (.text "")
  | _ => node.settings.entry "field"

/-- The comparisons that a node makes of the output before: a condition makes one, a filter one for
each value that it looks at, and a switch one for each rule until one is met. -/
inductive Compares (node : Node) (scopes : Scopes) (previous : Value) :
    (field : Value) → (comparison : Option Comparison) → (value : Value) → Prop
  | condition {path field : Value} {operator value : Option Value}
      (kind : node.cls.kind = .condition) (hpath : node.settings.entry "field" = .ok path)
      (hoperator : node.settings.find? "operator" = .ok operator)
      (hvalue : node.settings.find? "value" = .ok value)
      (hfield : previous.nestedBy scopes path = .ok field) :
      Compares node scopes previous field
        (Comparison.ofValue? (operator.getD defaultOperator)) (value.getD (.text ""))
  | filter {path field item value : Value} {operator : Option Value}
      (kind : node.cls.kind = .filter) (hpath : node.settings.entry "field" = .ok path)
      (hoperator : node.settings.find? "operator" = .ok operator)
      (hvalue : node.setting "value" = .ok value) (hitem : item ∈ previous.examined)
      (hfield : item.nestedBy scopes path = .ok field) :
      Compares node scopes previous field
        (Comparison.ofValue? (operator.getD (.text "equals"))) value
  | switch {path field rule operator value : Value} {before after : List Value}
      {mark : Option Stamp} (kind : node.cls.kind = .switch)
      (hpath : node.settingOr "field" (.text "") = .ok path)
      (hfield : previous.nestedBy scopes path = .ok field)
      (hrules : rules node = .ok (.list (before ++ rule :: after) mark))
      (hbefore : ∀ earlier ∈ before, ∃ operator value, ruleOperator earlier = .ok operator ∧
        earlier.get "value" = .ok value ∧
        WorkflowEngine.condition scopes field (Comparison.ofValue? operator) value = .ok false)
      (hoperator : ruleOperator rule = .ok operator) (hvalue : rule.get "value" = .ok value) :
      Compares node scopes previous field (Comparison.ofValue? operator) value

/-- One of the comparisons of a node oversteps. -/
def ComparesOutsized (node : Node) (scopes : Scopes) (previous : Value) : Prop :=
  ∃ field comparison value, node.Compares scopes previous field comparison value ∧
    Oversteps field comparison value

/-- The setting in the place of the path is none. -/
def Pathless (node : Node) : Prop := ∃ path, node.pathSetting = .ok path ∧ path.isPath = false

/-! ## One comparison after a path -/

/-- A setting that has to be there is there once it has been checked. -/
theorem dict_of_require {name who what : String} (h : node.require name who what = .ok ()) :
    ∃ entries mark path, node.settings = .dict entries mark ∧
      node.settings.entry name = .ok path := by
  obtain ⟨setting, hsetting, hpresent⟩ := Attempt.bind_ok h
  obtain ⟨entries, mark, hdict⟩ := dict_of_setting hsetting
  rw [Node.setting, hdict] at hsetting
  obtain rfl : (entries.lookup (.text name)).getD .null = setting := Except.ok.inj hsetting
  cases hlookup : entries.lookup (.text name) with
  | some path => exact ⟨entries, mark, path, hdict, by simp only [hdict, Value.entry, hlookup]⟩
  | none =>
    rw [hlookup] at hpresent
    cases hpresent

/-! ## Conditions -/

theorem runCondition_comes (hkind : node.cls.kind = .condition) (hsettings : node.settings.SaysJson)
    (hprevious : bench.state.previous.SaysJson) (hvalid : validateCondition node = .ok ()) :
    ∃ result, (runCondition node).runOn bench = (result, bench) ∧
      Comes (node.ComparesOutsized bench.state.toScopes bench.state.previous) node.Pathless
        result := by
  obtain ⟨entries, mark, path, hdict, hpath⟩ := dict_of_require hvalid
  have hfind : ∀ name, node.settings.find? name = .ok (entries.lookup (.text name)) := by
    rw [hdict]
    exact fun _ => rfl
  have hoperator := hfind "operator"
  have hvalue := hfind "value"
  have hsetting : node.pathSetting = .ok path := by
    rw [pathSetting, hkind]
    exact hpath
  unfold runCondition
  rw [Act.runOn_state_bind, hpath, Act.runOn_ofAttempt_bind, hoperator, Act.runOn_ofAttempt_bind,
    hvalue, Act.runOn_ofAttempt_bind]
  rcases hprevious.nestedBy (hsettings.entry hpath) bench.state.toScopes with
    ⟨field, hfield, hjson⟩ | ⟨hfault, hnone⟩
  · rw [hfield, Act.runOn_ofAttempt_bind]
    have hvalueJson : ((entries.lookup (.text "value")).getD (.text "")).SaysJson :=
      .getD (hsettings.find? hvalue) (.text "" none)
    refine Comes.runOn ((comes_condition bench.state.toScopes hjson hvalueJson).congr
      ⟨fun h => ⟨_, _, _, .condition hkind hpath hoperator hvalue hfield, h⟩, ?_⟩)
      fun met => ⟨_, rfl⟩
    rintro ⟨_, _, _, hcompares, h⟩
    cases hcompares with
    | condition kind hpath' hoperator' hvalue' hfield' =>
      cases hpath.symm.trans hpath'
      cases hoperator.symm.trans hoperator'
      cases hvalue.symm.trans hvalue'
      cases hfield.symm.trans hfield'
      exact h
    | filter kind | switch kind => cases hkind.symm.trans kind
  · rw [hfault]
    exact ⟨_, rfl, .noPath ⟨path, hsetting, hnone⟩⟩

/-! ## Filters -/

section Filter

variable {path value : Value} {operator : Option Value}

/-- What a filter compares of an item oversteps. -/
def ItemOversteps (scopes : Scopes) (path : Value) (operator : Option Value) (value item : Value) :
    Prop :=
  ∃ field, item.nestedBy scopes path = .ok field ∧
    Oversteps field (Comparison.ofValue? (operator.getD (.text "equals"))) value

/-- The settings of a filter that has been checked. -/
structure Filters (node : Node) (path : Value) (operator : Option Value) (value : Value) : Prop where
  isFilter : node.cls.kind = .filter
  atPath : node.settings.entry "field" = .ok path
  compared : node.settings.find? "operator" = .ok operator
  against : node.setting "value" = .ok value
  pathJson : path.SaysJson
  valueJson : value.SaysJson

theorem filters_of_validate (hkind : node.cls.kind = .filter) (hsettings : node.settings.SaysJson)
    (hvalid : validateFilter node = .ok ()) :
    ∃ path operator value, node.Filters path operator value := by
  obtain ⟨entries, mark, path, hdict, hpath⟩ := dict_of_require hvalid
  have hvalue : node.setting "value" = .ok ((entries.lookup (.text "value")).getD .null) := by
    rw [setting, hdict]
    rfl
  exact ⟨path, entries.lookup (.text "operator"), _, hkind, hpath, by rw [hdict]; rfl, hvalue,
    hsettings.entry hpath, hsettings.get hvalue⟩

variable (h : node.Filters path operator value) (scopes : Scopes) {items : List Value}

include h

theorem Filters.comes_passes {item : Value} (hitem : item.SaysJson) :
    Comes (ItemOversteps scopes path operator value item) node.Pathless
      (passes node scopes item) := by
  unfold passes
  rw [h.atPath, Attempt.ok_bind]
  rcases hitem.nestedBy h.pathJson scopes with ⟨field, hfield, hjson⟩ | ⟨hfault, hnone⟩
  · rw [hfield, Attempt.ok_bind, h.compared, Attempt.ok_bind, h.against, Attempt.ok_bind]
    refine (comes_condition scopes hjson h.valueJson).congr ⟨fun hover => ⟨field, hfield, hover⟩, ?_⟩
    rintro ⟨_, hfield', hover⟩
    cases hfield.symm.trans hfield'
    exact hover
  · rw [hfault]
    refine .noPath ⟨path, ?_, hnone⟩
    rw [pathSetting, h.isFilter]
    exact h.atPath

theorem Filters.comes_keepPassing (hitems : ∀ item ∈ items, item.SaysJson) :
    Comes (∃ item ∈ items, ItemOversteps scopes path operator value item) node.Pathless
      (keepPassing node scopes items) := by
  induction items with
  | nil => exact .answer [] (by simp)
  | cons item rest ih =>
    have hfirst := h.comes_passes scopes (hitems item List.mem_cons_self)
    have hrest := ih fun item' hitem' => hitems item' (List.mem_cons_of_mem _ hitem')
    refine (hfirst.bind fun pass _ => hrest.bind_ok fun others => ⟨_, rfl⟩).congr ?_
    rw [List.exists_mem_cons_iff]

/-- The lists of an object are filtered one after the other. -/
theorem Filters.comes_mapLists {entries : Fields} (hentries : ∀ e ∈ entries, e.2.SaysJson) :
    Comes (∃ e ∈ entries, ∃ items mark, e.2 = .list items mark ∧
        ∃ item ∈ items, ItemOversteps scopes path operator value item) node.Pathless
      (mapLists (keepPassing node scopes) entries) := by
  induction entries with
  | nil => exact .answer [] (by simp)
  | cons e rest ih =>
    obtain ⟨k, v⟩ := e
    have hrest := ih fun e he => hentries e (List.mem_cons_of_mem _ he)
    have hv : v.SaysJson := hentries _ List.mem_cons_self
    rw [List.exists_mem_cons_iff]
    cases hv with
    | list items mark parts =>
      have hfirst := (h.comes_keepPassing scopes parts).map fun items => Value.list items
      refine (hfirst.bind fun _ _ => hrest.bind_ok fun _ => ⟨_, rfl⟩).congr (or_congr_left ?_)
      constructor
      · exact fun hover => ⟨items, mark, rfl, hover⟩
      · rintro ⟨_, _, heq, hover⟩
        cases heq
        exact hover
    | null | bool | int | float | text | dict =>
      refine (hrest.bind_ok fun _ => ⟨_, rfl⟩).congr (or_iff_right ?_).symm
      rintro ⟨_, _, heq, _⟩
      cases heq

/-- What a filter compares is what it looks at. -/
theorem Filters.comparesOutsized_iff {previous : Value} :
    node.ComparesOutsized scopes previous ↔
      ∃ item ∈ previous.examined, ItemOversteps scopes path operator value item := by
  constructor
  · rintro ⟨_, _, _, hcompares, hover⟩
    cases hcompares with
    | filter kind hpath hoperator hvalue hitem hfield =>
      cases h.atPath.symm.trans hpath
      cases h.compared.symm.trans hoperator
      cases h.against.symm.trans hvalue
      exact ⟨_, hitem, _, hfield, hover⟩
    | condition kind | switch kind => cases h.isFilter.symm.trans kind
  · rintro ⟨item, hitem, field, hfield, hover⟩
    exact ⟨_, _, _, .filter h.isFilter h.atPath h.compared h.against hitem hfield, hover⟩

end Filter

theorem runFilter_comes (hkind : node.cls.kind = .filter) (hsettings : node.settings.SaysJson)
    (hprevious : bench.state.previous.SaysJson) (hvalid : validateFilter node = .ok ()) :
    ∃ result, (runFilter node).runOn bench = (result, bench) ∧
      Comes (node.ComparesOutsized bench.state.toScopes bench.state.previous) node.Pathless
        result := by
  obtain ⟨path, operator, value, h⟩ := filters_of_validate hkind hsettings hvalid
  unfold runFilter
  rw [Act.runOn_state_bind, h.comparesOutsized_iff]
  generalize bench.state.previous = previous at hprevious
  have hjson := hprevious
  cases hprevious with
  | list items mark parts =>
    exact (h.comes_keepPassing bench.state.toScopes parts).runOn fun kept => ⟨_, rfl⟩
  | dict entries mark keys parts =>
    refine ((h.comes_mapLists bench.state.toScopes parts).congr ?_).runOn fun entries' => ⟨_, rfl⟩
    simp only [Value.mem_examined_dict]
    constructor
    · rintro ⟨e, he, items, mark', hlist, item, hitem, hover⟩
      exact ⟨item, ⟨e, he, items, mark', hlist, hitem⟩, hover⟩
    · rintro ⟨item, ⟨e, he, items, mark', hlist, hitem⟩, hover⟩
      exact ⟨e, he, items, mark', hlist, item, hitem, hover⟩
  | null | bool | int | float | text =>
    refine ((h.comes_passes bench.state.toScopes hjson).congr ?_).runOn fun pass => ⟨_, rfl⟩
    simp [Value.examined]

/-! ## Switches -/

section Switch

variable {rule found fallback : Value} {items : List Value}

/-- A rule that has been checked compares in a known way with a value. -/
theorem rule_of_check (hrule : rule.SaysJson) (hcheck : checkRule rule = .ok ()) :
    ∃ operator value, ruleOperator rule = .ok operator ∧ rule.get "value" = .ok value ∧
      value.SaysJson := by
  cases hrule with
  | dict entries mark keys parts =>
    exact ⟨_, _, rfl, rfl, .lookup_getD parts _⟩
  | _ => cases hcheck

theorem outputBranch_ok {index : Value} (h : index.SaysJson) :
    ∃ branch, outputBranch index = .ok branch := by
  obtain ⟨s, hs⟩ := h.plain_ok
  exact ⟨_, by rw [outputBranch, hs]; rfl⟩

/-- What a rule leads to can be named. -/
theorem ruleOutput_ok (hrule : rule.SaysJson) (hcheck : checkRule rule = .ok ()) :
    ∃ branch, (do outputBranch (← ruleOutput rule)) = .ok branch := by
  cases hrule with
  | dict entries mark keys parts =>
    have hlookup : ∀ name, ∀ w ∈ entries.lookup (Key.text name), w.SaysJson :=
      fun name w hw => parts _ (Entries.mem_of_lookup hw)
    cases houtput : entries.lookup (.text "output") with
    | some index =>
      have hindex : ruleOutput (.dict entries mark) = .ok index := by
        unfold ruleOutput
        simp only [Value.find?, houtput]
        rfl
      rw [hindex, Attempt.ok_bind]
      exact outputBranch_ok (hlookup _ _ houtput)
    | none =>
      have hindex : ruleOutput (.dict entries mark) =
          .ok ((entries.lookup (.text "outputIndex")).getD (.int 0)) := by
        unfold ruleOutput
        simp only [Value.find?, houtput]
        rfl
      rw [hindex, Attempt.ok_bind]
      exact outputBranch_ok (.getD (hlookup _) (.int 0 none (by decide +kernel)))
  | _ => cases hcheck

/-- A rule that is come to oversteps: the rules before it are not met. -/
def RuleOversteps (scopes : Scopes) (found : Value) (items : List Value) : Prop :=
  ∃ before rule after operator value, items = before ++ rule :: after ∧
    (∀ earlier ∈ before, ∃ operator value, ruleOperator earlier = .ok operator ∧
      earlier.get "value" = .ok value ∧
      condition scopes found (Comparison.ofValue? operator) value = .ok false) ∧
    ruleOperator rule = .ok operator ∧ rule.get "value" = .ok value ∧
    Oversteps found (Comparison.ofValue? operator) value

theorem ruleOversteps_cons {operator value : Value} (hoperator : ruleOperator rule = .ok operator)
    (hvalue : rule.get "value" = .ok value) : RuleOversteps scopes found (rule :: items) ↔
      Oversteps found (Comparison.ofValue? operator) value ∨
      condition scopes found (Comparison.ofValue? operator) value = .ok false ∧
        RuleOversteps scopes found items := by
  constructor
  · rintro ⟨before, rule', after, operator', value', hitems, hbefore, hoperator', hvalue', hover⟩
    cases before with
    | nil =>
      cases hitems
      cases hoperator.symm.trans hoperator'
      cases hvalue.symm.trans hvalue'
      exact .inl hover
    | cons first before =>
      cases hitems
      obtain ⟨_, _, hfirst, hfirst', hunmet⟩ := hbefore _ List.mem_cons_self
      cases hoperator.symm.trans hfirst
      cases hvalue.symm.trans hfirst'
      exact .inr ⟨hunmet, before, rule', after, operator', value', rfl,
        fun earlier hearlier => hbefore earlier (List.mem_cons_of_mem _ hearlier), hoperator',
        hvalue', hover⟩
  · rintro (hover | ⟨hunmet, before, rule', after, operator', value', rfl, hbefore, hrest⟩)
    · exact ⟨[], rule, items, operator, value, rfl, by simp, hoperator, hvalue, hover⟩
    · refine ⟨rule :: before, rule', after, operator', value', rfl, fun earlier hearlier => ?_, hrest⟩
      rcases List.mem_cons.1 hearlier with rfl | hearlier
      · exact ⟨operator, value, hoperator, hvalue, hunmet⟩
      · exact hbefore earlier hearlier

/-- The rules are tried in order, until one is met. -/
theorem comes_chooseBranch (scopes : Scopes) (hfound : found.SaysJson)
    (hfallback : fallback.SaysJson)
    (hitems : ∀ rule ∈ items, rule.SaysJson ∧ checkRule rule = .ok ()) :
    Comes (RuleOversteps scopes found items) node.Pathless
      (chooseBranch scopes found fallback items) := by
  induction items with
  | nil =>
    obtain ⟨branch, hbranch⟩ := outputBranch_ok hfallback
    rw [chooseBranch, hbranch]
    refine .answer branch ?_
    rintro ⟨before, rule, after, _, _, hnil, _⟩
    cases before <;> cases hnil
  | cons rule rest ih =>
    obtain ⟨hrule, hcheck⟩ := hitems rule List.mem_cons_self
    obtain ⟨operator, value, hoperator, hvalue, hjson⟩ := rule_of_check hrule hcheck
    have hcompare : Comes (Oversteps found (Comparison.ofValue? operator) value) node.Pathless
        (condition scopes found (Comparison.ofValue? operator) value) :=
      comes_condition scopes hfound hjson
    have hrest := ih fun rule' hrule' => hitems rule' (List.mem_cons_of_mem _ hrule')
    rw [chooseBranch, hoperator, Attempt.ok_bind, hvalue, Attempt.ok_bind]
    refine (hcompare.bind fun met hmet => ?_).congr (ruleOversteps_cons hoperator hvalue).symm
    rw [hmet]
    cases met with
    | true =>
      obtain ⟨branch, hbranch⟩ := ruleOutput_ok hrule hcheck
      simp only [if_true, hbranch]
      exact .answer branch (by simp)
    | false =>
      simp only [Bool.false_eq_true, if_false, true_and]
      exact hrest

theorem checkRules_ok (h : items.forM checkRule = .ok ()) :
    ∀ rule ∈ items, checkRule rule = .ok () := by
  induction items with
  | nil => simp
  | cons rule rest ih =>
    have hboth : (checkRule rule >>= fun _ => rest.forM checkRule) = .ok () := h
    obtain ⟨_, hrule, hrest⟩ := Attempt.bind_ok hboth
    intro rule' hrule'
    rcases List.mem_cons.1 hrule' with rfl | hrule'
    · exact hrule
    · exact ih hrest rule' hrule'

/-- The rules of a switch that has been checked. -/
theorem rules_of_validate (hsettings : node.settings.SaysJson)
    (hvalid : validateSwitch node = .ok ()) :
    ∃ items mark, rules node = .ok (.list items mark) ∧
      ∀ rule ∈ items, rule.SaysJson ∧ checkRule rule = .ok () := by
  unfold validateSwitch at hvalid
  obtain ⟨found, hrules, hchecked⟩ := Attempt.bind_ok hvalid
  have hjson : found.SaysJson := by
    obtain ⟨setting, hsetting, hfound⟩ := Attempt.bind_ok hrules
    exact Except.ok.inj hfound ▸ (hsettings.get hsetting).orElse (.list [] none (by simp))
  cases hjson with
  | list items mark parts =>
    exact ⟨items, mark, hrules,
      fun rule hrule => ⟨parts rule hrule, checkRules_ok hchecked rule hrule⟩⟩
  | _ => cases hchecked

/-- Where the rules are found, every setting is found or null. -/
theorem setting_of_rules {found : Value} (h : rules node = .ok found) (name : String) :
    ∃ v, node.setting name = .ok v := by
  unfold rules settingOr setting at h
  unfold setting
  cases hdict : node.settings with
  | dict entries mark => exact ⟨_, rfl⟩
  | _ =>
    rw [hdict] at h
    cases h

end Switch

theorem runSwitch_comes (hkind : node.cls.kind = .switch) (hsettings : node.settings.SaysJson)
    (hprevious : bench.state.previous.SaysJson) (hvalid : validateSwitch node = .ok ()) :
    ∃ result, (runSwitch node).runOn bench = (result, bench) ∧
      Comes (node.ComparesOutsized bench.state.toScopes bench.state.previous) node.Pathless
        result := by
  obtain ⟨items, mark, hrules, hitems⟩ := rules_of_validate hsettings hvalid
  obtain ⟨setting, hsetting⟩ := setting_of_rules hrules "field"
  obtain ⟨fallback, hfallback⟩ := setting_of_rules hrules "defaultOutput"
  have hjson := hsettings.get hsetting
  have hfallbackJson := hsettings.get hfallback
  have hpath : node.settingOr "field" (.text "") = .ok (setting.orElse (.text "")) := by
    rw [settingOr, hsetting]
    rfl
  have hpathJson : (setting.orElse (.text "")).SaysJson := hjson.orElse (.text "" none)
  have hpathSetting : node.pathSetting = .ok (setting.orElse (.text "")) := by
    rw [pathSetting, hkind]
    exact hpath
  have helements : (do (← rules node).elements) = .ok items := by
    rw [hrules]
    rfl
  unfold runSwitch
  rw [Act.runOn_state_bind, hpath, Act.runOn_ofAttempt_bind]
  rcases hprevious.nestedBy hpathJson bench.state.toScopes with ⟨found, hfound, hfoundJson⟩ |
    ⟨hfault, hnone⟩
  · rw [hfound, Act.runOn_ofAttempt_bind, helements, Act.runOn_ofAttempt_bind, hfallback,
      Act.runOn_ofAttempt_bind]
    have hdefault : (if fallback.isNull then Value.int 0 else fallback).SaysJson := by
      split
      · exact .int 0 none (by decide +kernel)
      · exact hfallbackJson
    refine ((comes_chooseBranch bench.state.toScopes hfoundJson hdefault hitems).congr ?_).runOn
      fun branch => ⟨_, rfl⟩
    constructor
    · rintro ⟨before, rule, after, operator, value, rfl, hbefore, hoperator, hvalue, hover⟩
      exact ⟨_, _, _, .switch hkind hpath hfound hrules hbefore hoperator hvalue, hover⟩
    · rintro ⟨_, _, _, hcompares, hover⟩
      cases hcompares with
      | switch kind hpath' hfound' hrules' hbefore hoperator hvalue =>
        cases hpath.symm.trans hpath'
        cases hfound.symm.trans hfound'
        cases hrules.symm.trans hrules'
        exact ⟨_, _, _, _, _, rfl, hbefore, hoperator, hvalue, hover⟩
      | condition kind | filter kind => cases hkind.symm.trans kind
  · rw [hfault]
    exact ⟨_, rfl, .noPath ⟨_, hpathSetting, hnone⟩⟩

/-! ## The three nodes -/

/-- Settings that have been checked and a JSON output leave a node that compares two ways to fail. -/
theorem execute_comes (settings : Settings) (node : Node) (bench : Bench)
    (hkind : node.cls.kind = .condition ∨ node.cls.kind = .filter ∨ node.cls.kind = .switch)
    (hsettings : node.settings.SaysJson) (hprevious : bench.state.previous.SaysJson)
    (hvalid : node.validate settings = .ok ()) :
    ∃ result, node.execute.runOn bench = (result, bench) ∧
      Comes (node.ComparesOutsized bench.state.toScopes bench.state.previous) node.Pathless
        result := by
  unfold validate at hvalid
  unfold execute
  rcases hkind with hkind | hkind | hkind <;> rw [hkind] at hvalid ⊢
  · exact runCondition_comes hkind hsettings hprevious hvalid
  · exact runFilter_comes hkind hsettings hprevious hvalid
  · exact runSwitch_comes hkind hsettings hprevious hvalid

/-- **Comparing fails for an integer that is too large, and for no other value.**
The number that stands for a value is the one it writes, or not-a-number, and only an outsized
integer has none. A comparison of two JSON values in any way comes to an answer unless an outsized
integer is compared by size; what writes no number is then neither greater nor less. So a condition,
a filter and a switch whose settings have been checked do not fail on a JSON output unless one of
the comparisons that they make of it oversteps, or the setting in the place of the path is none. -/
theorem comparing_fails_only_outsized (scopes : Scopes) (field value : Value)
    (comparison : Option Comparison) (settings : Settings) (node : Node) (bench : Bench) :
    (field.toNumber =
      if field.isOutsized then .fault .tooLarge
      else .ok (field.written?.getD Number.notANumber)) ∧
    (field.SaysJson → value.SaysJson →
      (Oversteps field comparison value →
        condition scopes field comparison value = .fault .tooLarge) ∧
      (¬ Oversteps field comparison value →
        ∃ met, condition scopes field comparison value = .ok met ∧
          (comparison.any Comparison.bySize = true →
            (field.written? = none ∨ value.written? = none) → met = false))) ∧
    (node.cls.kind = .condition ∨ node.cls.kind = .filter ∨ node.cls.kind = .switch →
      node.settings.SaysJson → bench.state.previous.SaysJson →
      node.validate settings = .ok () →
      ∃ result, node.execute.runOn bench = (result, bench) ∧
        Comes (node.ComparesOutsized bench.state.toScopes bench.state.previous) node.Pathless
          result) := by
  refine ⟨field.toNumber_eq, fun hfield hvalue => ⟨?_, ?_⟩, execute_comes settings node bench⟩
  · exact condition_of_oversteps scopes hfield
  · intro hfits
    obtain ⟨met, hmet⟩ := condition_of_fits scopes hfield hvalue hfits
    refine ⟨met, hmet, fun hsize hunwritten => ?_⟩
    exact Except.ok.inj (hmet.symm.trans
      (condition_of_unwritten scopes hfield hsize hfits hunwritten))

/-! ## An item that is too large -/

theorem aboveOne_saysJson : aboveOne.settings.SaysJson :=
  .dict _ none (by simp) (by simpa using ⟨.text _ _, .text _ _, .int 1 none (by decide +kernel)⟩)

theorem item_saysJson {n : Int} (hshort : n.natAbs < longIntegerBound) :
    (Value.object [("n", .int n)]).SaysJson :=
  .dict _ none (by simp) (by simpa using .int n none hshort)

/-- Among the items is one beyond all numbers. -/
def boundlessItems : List Value :=
  [.object [("n", .int 2)], .object [("n", .int Number.overflowBound)]]

theorem comparing_fails_only_outsized_aboveOne :
    aboveOne.settings.SaysJson ∧ (Value.list boundlessItems).SaysJson ∧
    aboveOne.validate .standard = .ok () ∧
    condition {} (.int Number.overflowBound) (some .greaterThan) (.int 1) = .fault .tooLarge ∧
    aboveOne.execute.runOn (benchBefore (.list boundlessItems)) =
      (.error (.data .tooLarge), benchBefore (.list boundlessItems)) := by
  have hlarge : (Value.int Number.overflowBound).isOutsized = true :=
    Value.isOutsized_int.2 (Int.natAbs_natCast _).ge
  have hshort : (Number.overflowBound : Int).natAbs < longIntegerBound := by decide +kernel
  have hjson : (Value.list boundlessItems).SaysJson := by
    refine .list _ none fun item hitem => ?_
    simp only [boundlessItems, List.mem_cons, List.not_mem_nil, or_false] at hitem
    rcases hitem with rfl | rfl
    · exact item_saysJson (by decide +kernel)
    · exact item_saysJson hshort
  have hvalid : aboveOne.validate .standard = .ok () := rfl
  obtain ⟨_, hcondition, hexecute⟩ := comparing_fails_only_outsized {} (.int Number.overflowBound)
    (.int 1) (some .greaterThan) .standard aboveOne (benchBefore (.list boundlessItems))
  refine ⟨aboveOne_saysJson, hjson, hvalid, ?_, ?_⟩
  · have hone : (Value.int 1).SaysJson := .int 1 none (by decide +kernel)
    exact (hcondition (.int _ none hshort) hone).1 ⟨rfl, .inl hlarge⟩
  · obtain ⟨result, hrun, hcomes⟩ :=
      hexecute (.inr (.inl rfl)) aboveOne_saysJson hjson hvalid
    rw [hrun]
    cases hcomes with
    | answer v fits =>
      have hcompares : aboveOne.Compares {} (.list boundlessItems) (.int Number.overflowBound)
          (Comparison.ofValue? ((some (Value.text "greater_than")).getD (.text "equals"))) (.int 1) :=
        .filter rfl rfl rfl rfl (List.mem_cons_of_mem _ List.mem_cons_self) rfl
      exact absurd ⟨_, _, _, hcompares, rfl, .inl hlarge⟩ fits
    | tooLarge => rfl
    | noPath none =>
      obtain ⟨path, hpath, hnone⟩ := none
      cases hpath
      cases hnone

end Node

end WorkflowEngine
