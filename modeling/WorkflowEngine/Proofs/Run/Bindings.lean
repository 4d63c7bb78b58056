import WorkflowEngine.Proofs.Graph.Body
import WorkflowEngine.Proofs.Run.Scopes

/-!
# The variables of a loop

A loop binds each of its items, and the place of the item if it is asked to, under names of its own
before it replays what it leads to. The variables are those of the whole run and no part of what a
replay gives back, so a binding lasts until something else is written under its name. If nothing
that the loop leads to does that, no node that sets variables and no loop, every node is invoked in
the replay of an item with that item and its place bound (`courseOf_bindings`). An inner loop under
the same names leaves its last item behind, for what is replayed after it.
-/

namespace WorkflowEngine

/-! ## Variables by name -/

namespace Value

/-- The value under a name, or under one that compares equal to it. -/
def under (name : Key) (fields : Fields) : Option Value :=
  (fields.find? fun e => e.1.same name).map Prod.snd

theorem under_cons (e : Key × Value) (fields : Fields) (name : Key) :
    under name (e :: fields) = if e.1.same name then some e.2 else under name fields := by
  unfold under
  rw [List.find?_cons]
  cases e.1.same name <;> rfl

/-- Two names that compare equal to a third compare equal to the same names. -/
theorem same_congr {k k' : Key} (h : k'.same k = true) (name : Key) :
    k'.same name = k.same name := by
  unfold Key.same at h ⊢
  rw [eq_of_beq h]

/-- The value of an entry is written over. -/
theorem under_put {k : Key} (v : Value) (name : Key) {e : Key × Value} (fields : Fields)
    (there : fields.find? (fun e => e.1.same k) = some e) :
    under name (Entries.put e.1 v fields) =
      if k.same name then some v else under name fields := by
  have hsame : e.1.same k = true := by simpa using List.find?_some there
  induction fields with
  | nil => cases there
  | cons first rest ih =>
    rw [List.find?_cons] at there
    unfold Entries.put
    cases hfirst : first.1.same k with
    | true =>
      rw [hfirst] at there
      cases there
      rw [if_pos (beq_self_eq_true _), under_cons, under_cons, same_congr hfirst name]
      cases k.same name <;> rfl
    | false =>
      rw [hfirst] at there
      have hne : (e.1 == first.1) = false := by
        refine beq_eq_false_iff_ne.2 fun heq => ?_
        rw [← heq, hsame] at hfirst
        cases hfirst
      rw [if_neg (by simp [hne]), under_cons, under_cons, ih there]
      cases hk : k.same name with
      | false => rfl
      | true =>
        -- the first entry does not compare equal to the key, so it does not to the name either
        have hother : first.1.same name = false := by
          unfold Key.same at hfirst hk ⊢
          rwa [← eq_of_beq hk]
        rw [hother]
        rfl

/-- What is written under a name is found under each name that compares equal, and nothing else is
changed. -/
theorem under_putField (k : Key) (v : Value) (fields : Fields) (name : Key) :
    under name (putField k v fields) = if k.same name then some v else under name fields := by
  unfold putField
  cases hfind : fields.find? fun e => e.1.same k with
  | some e => exact under_put v name fields hfind
  | none =>
    unfold under
    dsimp only
    rw [List.find?_append]
    cases hk : k.same name with
    | false => simp [hk]
    | true =>
      have hnone : fields.find? (fun e => e.1.same name) = none := by
        refine List.find?_eq_none.2 fun e he => ?_
        have hother := List.find?_eq_none.1 hfind e he
        unfold Key.same at hother hk ⊢
        rwa [← eq_of_beq hk]
      simp [hnone, hk]

end Value

/-! ## What nodes write -/

namespace Node

/-- The name under which a loop binds its items. -/
def itemName (node : Node) : Attempt Key :=
  node.settingOr "itemVariable" (.text "item") >>= Value.key

/-- The name under which a loop binds the places of its items, if it is asked to. -/
def placeName (node : Node) : Attempt (Option Key) := do
  let name ← node.setting "indexVariable"
  if name.holds then return some (← name.key) else return none

/-- The names under which a node writes variables: a node that sets variables under those of its
entries, and a loop under those of its items and their places. -/
def written (node : Node) : List Key :=
  match node.cls.kind with
  | .setVariable =>
    match node.settings.entry "variables" >>= Value.elements with
    | .ok entries => entries.filterMap fun entry => (entry.entry "key" >>= Value.key).toOption
    | .error _ => []
  | .loop => node.itemName.toOption.toList ++ node.placeName.toOption.join.toList
  | _ => []

/-- A node writes nothing under a name. -/
def Spares (node : Node) (name : Key) : Prop := ∀ k ∈ node.written, k.same name = false

/-- A loop binds its items under one name, and their places under another if there is one. -/
structure Binds (node : Node) (item : Key) (place : Option Key) : Prop where
  kind : node.cls.kind = .loop
  item : node.itemName = .ok item
  place : node.placeName = .ok place

variable {node : Node} {name : Key}

theorem Sets.mem_written (kind : node.cls.kind = .setVariable) (h : node.Sets name) :
    name ∈ node.written := by
  obtain ⟨entries, hentries, entry, hentry, hname⟩ := h
  unfold written
  simp only [kind, hentries]
  exact List.mem_filterMap.2 ⟨entry, hentry, by rw [hname]; rfl⟩

theorem Binds.written {item : Key} {place : Option Key} (h : node.Binds item place) :
    node.written = item :: place.toList := by
  unfold Node.written
  simp only [h.kind, h.item, h.place]
  cases place <;> rfl

/-- A node of the library that writes nothing under a name leaves what is there. -/
theorem execute_under (native : ∀ run branching, node.cls.kind ≠ .custom run branching)
    (spares : node.Spares name) (bench : Bench) :
    Value.under name (node.execute.runOn bench).2.state.vars =
      Value.under name bench.state.vars := by
  let Left (b b' : Bench) : Prop :=
    Value.under name b'.state.vars = Value.under name b.state.vars
  have : IsPreorder Bench Left :=
    { refl := fun _ => rfl, trans := fun _ _ _ h h' => Eq.trans h' h }
  have hkeeps : Keeps Left node.execute := by
    refine node.execute_keeps native (fun b b' hstill => ?_) fun kind k hsets v b => ?_
    · exact congrArg (fun s : RunState => Value.under name s.vars) hstill.state
    · refine (Value.under_putField k v b.state.vars name).trans (if_neg ?_)
      simp [spares k (hsets.mem_written kind)]
  exact hkeeps bench

theorem itemName_eq {setting : Value}
    (h : node.settingOr "itemVariable" (.text "item") = .ok setting) :
    node.itemName = setting.key := by
  unfold itemName
  rw [h]
  rfl

theorem placeName_eq {setting : Value} (h : node.setting "indexVariable" = .ok setting) :
    node.placeName = if setting.holds then setting.key.map some else .ok none := by
  unfold placeName
  rw [h]
  rfl

section Bound

variable {itemSetting indexSetting value : Value} {index : Nat} {vars vars' : Fields}

/-- What is bound for an item: its place under the one name, the item under the other, and under any
third what was there before. -/
theorem Binds.under {item : Key} {place : Option Key} (h : node.Binds item place)
    (hitem : node.settingOr "itemVariable" (.text "item") = .ok itemSetting)
    (hindex : node.setting "indexVariable" = .ok indexSetting)
    (bound : Bound itemSetting indexSetting index value vars vars') (name : Key) :
    Value.under name vars' = if place.any fun k => k.same name then some (.int index)
      else if item.same name then some value else Value.under name vars := by
  have hname := (itemName_eq hitem).symm.trans h.item
  have hplace := (placeName_eq hindex).symm.trans h.place
  cases bound with
  | item named unplaced =>
    rw [named] at hname
    rw [unplaced] at hplace
    cases hname
    cases hplace
    exact Value.under_putField _ _ _ _
  | both named holds placed =>
    rw [named] at hname
    rw [holds, placed] at hplace
    cases hname
    cases hplace
    rw [Value.under_putField, Value.under_putField]
    rfl

/-- Names that were bound are names of the loop. -/
theorem Bound.exists_binds (bound : Bound itemSetting indexSetting index value vars vars')
    (kind : node.cls.kind = .loop)
    (hitem : node.settingOr "itemVariable" (.text "item") = .ok itemSetting)
    (hindex : node.setting "indexVariable" = .ok indexSetting) :
    ∃ item place, node.Binds item place := by
  have hplace := placeName_eq hindex
  cases bound with
  | @item item named unplaced =>
    rw [unplaced] at hplace
    exact ⟨item, none, kind, (itemName_eq hitem).trans named, hplace⟩
  | @both item place named holds placed =>
    rw [holds, placed] at hplace
    exact ⟨item, some place, kind, (itemName_eq hitem).trans named, hplace⟩

/-- A loop that writes nothing under a name leaves what is there. -/
theorem Bound.under_of_spares (bound : Bound itemSetting indexSetting index value vars vars')
    (kind : node.cls.kind = .loop)
    (hitem : node.settingOr "itemVariable" (.text "item") = .ok itemSetting)
    (hindex : node.setting "indexVariable" = .ok indexSetting) (spares : node.Spares name) :
    Value.under name vars' = Value.under name vars := by
  obtain ⟨item, place, binds⟩ := bound.exists_binds kind hitem hindex
  unfold Spares at spares
  rw [binds.written] at spares
  obtain ⟨hother, hplace⟩ := List.forall_mem_cons.1 spares
  have hany : (place.any fun k => k.same name) = false := by
    cases place with
    | none => rfl
    | some k => exact hplace k List.mem_cons_self
  rw [binds.under hitem hindex bound, hany, hother]
  rfl

end Bound

end Node

/-- A frame shows what the variables of its loop are: the item at its place, and the place. -/
def Frame.Bound (frame : Frame) (item : Key) (place : Option Key) (vars : Fields) : Prop :=
  ∃ (index : Nat) (value : Value), frame.index = index ∧ frame.items[index]? = some value ∧
    Value.under item vars = some value ∧ ∀ k ∈ place, Value.under k vars = some (.int index)

/-! ## The body of a loop -/

namespace Plan

variable {plan : Plan}

/-- The nodes that edges lead to from a loop, the loop itself included if it is one of them, write
nothing under some names. -/
def Sheltered (plan : Plan) (loop : Key) (names : List Key) : Prop :=
  ∀ id node, Relation.TransGen plan.graph.Leads loop id → plan.nodes.lookup id = some node →
    ∀ name ∈ names, node.Spares name

variable {loop item : Key} {place : Option Key}

/-- A node that the loop leads to keeps the binding of an item. -/
theorem Sheltered.bound (sheltered : plan.Sheltered loop (item :: place.toList)) {id : Key}
    {node : Node} (reached : Relation.TransGen plan.graph.Leads loop id)
    (known : plan.nodes.lookup id = some node) {frame : Frame} {vars vars' : Fields}
    (keeps : ∀ name, node.Spares name → Value.under name vars' = Value.under name vars)
    (h : frame.Bound item place vars) : frame.Bound item place vars' := by
  obtain ⟨index, value, hindex, hvalue, hitem, hplace⟩ := h
  have hspares := sheltered id node reached known
  refine ⟨index, value, hindex, hvalue, ?_, fun k hk => ?_⟩
  · rw [keeps item (hspares item List.mem_cons_self), hitem]
  · rw [keeps k (hspares k (List.mem_cons_of_mem _ (by simpa using hk))), hplace k hk]

/-- Turning to an item binds it, and its place if there is a name for it. -/
theorem bound_of_bind {node : Node} (binds : node.Binds item place)
    (distinct : ∀ k ∈ place, k.same item = false) {items : List Value}
    {itemName indexName saved value : Value} {index : Nat} {vars vars' : Fields}
    (hitem : node.settingOr "itemVariable" (.text "item") = .ok itemName)
    (hindex : node.setting "indexVariable" = .ok indexName) (here : items[index]? = some value)
    (bound : Node.Bound itemName indexName index value vars vars') :
    (⟨loop, items, index, saved⟩ : Frame).Bound item place vars' := by
  have hunder := binds.under hitem hindex bound
  have hself : ∀ k : Key, k.same k = true := fun k => beq_self_eq_true _
  refine ⟨index, value, rfl, here, ?_, fun k hk => ?_⟩
  · have hany : (place.any fun k => k.same item) = false := by
      cases place with
      | none => rfl
      | some k => exact distinct k rfl
    rw [hunder, hany, hself item]
    rfl
  · obtain rfl : place = some k := hk
    rw [hunder, Option.any_some, hself k, if_pos rfl]

/-- **In the replays of a loop whose names nothing writes that it leads to, only such nodes are
visited, and its items stay bound.** The replays are those that begin inside some outer frames. -/
def Regime.ofLoop (native : plan.Native) (named : plan.Named) (outer : List Frame)
    (binds : ∀ node, plan.nodes.lookup loop = some node → node.Binds item place)
    (distinct : ∀ k ∈ place, k.same item = false)
    (sheltered : plan.Sheltered loop (item :: place.toList)) : plan.Regime where
  may frames id := ∀ own, frames = own ++ outer → (∃ frame ∈ own, frame.node = loop) →
    Relation.TransGen plan.graph.Leads loop id
  fits frames vars := ∀ own, frames = own ++ outer → ∀ frame ∈ own, frame.node = loop →
    frame.Bound item place vars
  follow {_ id node branch target} hmay known htarget own hframes hin := by
    have htargets : target ∈ plan.graph.targets node.id := leadsTo_subset node branch htarget
    rw [named id node known] at htargets
    exact (hmay own hframes hin).tail htargets
  enter {_ id _ _ _ _ _} hmay known kind htarget own hframes hin := by
    obtain ⟨frame, hframe, hloop⟩ := hin
    obtain ⟨first, own, rfl⟩ := List.exists_cons_of_ne_nil (List.ne_nil_of_mem hframe)
    obtain ⟨rfl, hrest⟩ := List.cons.inj hframes
    rcases List.mem_cons.1 hframe with rfl | hframe
    · obtain rfl : id = loop := hloop
      exact .single htarget
    · exact (hmay own hrest ⟨frame, hframe, hloop⟩).tail htarget
  act hmay known kind hfits own hframes frame hframe hloop :=
    sheltered.bound (hmay own hframes ⟨frame, hframe, hloop⟩) known
      (fun name hspares => Node.execute_under (native _ _ · · known) hspares _)
      (hfits own hframes frame hframe hloop)
  bind {_ id node _ _ _ _ _ _ _ _} hmay known kind hitem hindex hhere hbound hfits own hframes
      frame hframe hloop := by
    obtain ⟨first, own, rfl⟩ := List.exists_cons_of_ne_nil (List.ne_nil_of_mem hframe)
    obtain ⟨rfl, hrest⟩ := List.cons.inj hframes
    rcases List.mem_cons.1 hframe with rfl | hframe
    · obtain rfl : id = loop := hloop
      exact bound_of_bind (binds node known) distinct hitem hindex hhere hbound
    · -- an inner loop, which binds other names
      exact sheltered.bound (hmay own hrest ⟨frame, hframe, hloop⟩) known
        (fun name hspares => hbound.under_of_spares kind hitem hindex hspares)
        (hfits own hrest frame hframe hloop)
  leave {first _ _} hfits own hframes frame hframe :=
    hfits (first :: own) (by rw [hframes, List.cons_append]) frame (List.mem_cons_of_mem _ hframe)

end Plan

/-! ## A whole run -/

/-- **In the replay of an item the item is bound, and its place.** If the names of a loop differ,
and no node that edges lead to from it writes under them, neither one that sets variables nor a
loop, the loop itself included where edges lead back to it, then every invocation in its replay of
an item finds the item and its place under these names. The replay is the scope of the item, in
which the frame of the loop stands in front at that place; in inner replays, where it stands further
back, the same holds. -/
theorem courseOf_bindings (budget : Option Int) (fuel : Nat) {workflow : Value} {graph : Graph}
    (run : Run) (read : Graph.ofValue workflow = .ok graph) {loop item : Key} {place : Option Key}
    (binds : ∀ node, graph.Builds .builtin loop node → node.Binds item place)
    (distinct : ∀ k ∈ place, k.same item = false)
    (sheltered : ∀ id node, Relation.TransGen graph.Leads loop id →
      graph.Builds .builtin id node → ∀ name ∈ item :: place.toList, node.Spares name) :
    let ended := (courseOf .builtin budget fuel workflow).run run
    ∃ marks ending, Noted run ended.2 marks ∧
      Scoped run.state.frames run.state.previous ending marks ∧
      ∀ id s, .invoked id s ∈ marks → ∀ own, s.frames = own ++ run.state.frames →
        ∀ frame ∈ own, frame.node = loop → frame.Bound item place s.vars := by
  have hnone : ∀ own, run.state.frames = own ++ run.state.frames → own = [] :=
    fun own h => List.self_eq_append_left.1 h
  have hregimes : ∀ departure : Departure, departure.Of .builtin budget workflow →
      ∃ regime : departure.plan.Regime,
        (regime.fits = fun frames vars => ∀ own, frames = own ++ run.state.frames →
          ∀ frame ∈ own, frame.node = loop → frame.Bound item place vars) ∧
        regime.may run.state.frames departure.start := by
    intro departure hof
    obtain rfl : departure.plan.graph = graph := Except.ok.inj (hof.graph.symm.trans read)
    have hsheltered : departure.plan.Sheltered loop (item :: place.toList) :=
      fun id node hreached hlookup => sheltered id node hreached (hof.builds id node hlookup)
    refine ⟨.ofLoop hof.native hof.named run.state.frames
      (fun node hlookup => binds node (hof.builds _ _ hlookup)) distinct hsheltered, rfl, ?_⟩
    rintro own hframes ⟨frame, hframe, _⟩
    rw [hnone own hframes] at hframe
    cases hframe
  obtain ⟨marks, ending, hnoted, hscoped, _, hfit⟩ := courseOf_comes fuel run hregimes
    fun vars own hframes frame hframe => by
      rw [hnone own hframes] at hframe
      cases hframe
  exact ⟨marks, ending, hnoted, hscoped, hfit⟩

/-- A loop over two items whose body is a loop over one and a node that sets a variable. -/
def nestedLoops (outer inner : List (String × Value)) : Graph where
  id := .text "unknown"
  name := .text "unknown"
  nodes := [
    ⟨.text "t", .object [("id", .text "t"), ("type", .text "manual-trigger")]⟩,
    ⟨.text "o", .object [("id", .text "o"), ("type", .text "loop"),
      ("data", .object [("config", .object (("items", .list [.int 1, .int 2]) :: outer))])]⟩,
    ⟨.text "n", .object [("id", .text "n"), ("type", .text "loop"),
      ("data", .object [("config", .object (("items", .list [.int 9]) :: inner))])]⟩,
    ⟨.text "s", .object [("id", .text "s"), ("type", .text "set-variable"),
      ("data", .object [("config", .object [("variables", .list [.object [("key", .text "got"),
        ("type", .text "expression"), ("value", .text "$vars.item")]])])])]⟩]
  edges := [⟨.text "t", .text "o", .null⟩, ⟨.text "o", .text "n", .null⟩,
    ⟨.text "o", .text "s", .null⟩]

/-- Two loops with different names. -/
def differentNames : Graph :=
  nestedLoops [("indexVariable", .text "i")] [("itemVariable", .text "inner")]

theorem differentNames_read : Graph.ofValue differentNames.toValue = .ok differentNames := rfl

theorem differentNames_binds (node : Node) (h : differentNames.Builds .builtin (.text "o") node) :
    node.Binds (.text "item") (some (.text "i")) := by
  obtain ⟨_, d, made, time, hd, hmade, rfl⟩ := h
  cases hd
  cases hmade
  exact ⟨rfl, rfl, rfl⟩

/-- Of the nodes that edges lead to from the outer loop one binds another name, and one sets another
variable. -/
theorem differentNames_sheltered (id : Key) (node : Node)
    (hreached : Relation.TransGen differentNames.Leads (.text "o") id)
    (h : differentNames.Builds .builtin id node) :
    ∀ name ∈ [Key.text "item", .text "i"], node.Spares name := by
  have hcircleless : differentNames.Circleless (.text "o") :=
    Graph.circleless_of_forward (by decide) _
  have hid : id ∈ [Key.text "s", .text "n"] := hcircleless.mem_body hreached
  have hwritten : node.written = [.text "inner"] ∨ node.written = [.text "got"] := by
    obtain ⟨_, d, made, time, hd, hmade, rfl⟩ := h
    rcases List.mem_pair.1 hid with rfl | rfl
    · cases hd
      cases hmade
      exact .inr rfl
    · cases hd
      cases hmade
      exact .inl rfl
  intro name hname k hk
  rcases List.mem_pair.1 hname with rfl | rfl <;> rcases hwritten with hw | hw <;>
    rw [hw, List.mem_singleton] at hk <;> subst hk <;> rfl

/-- The node that sets a variable is invoked for both items after the inner loop. -/
theorem courseOf_bindings_differentNames :
    let run : Run := { world := {}, state := {} }
    let workflow := differentNames.toValue
    let ended := (courseOf .builtin none 40 workflow).run run
    Graph.ofValue workflow = .ok differentNames ∧
      (∀ node, differentNames.Builds .builtin (.text "o") node →
        node.Binds (.text "item") (some (.text "i"))) ∧
      (∀ k ∈ some (Key.text "i"), k.same (.text "item") = false) ∧
      (∀ id node, Relation.TransGen differentNames.Leads (.text "o") id →
        differentNames.Builds .builtin id node →
          ∀ name ∈ [Key.text "item", .text "i"], node.Spares name) ∧
      ended.2.results.map NodeResult.node =
        [.text "t", .text "n", .text "s", .text "n", .text "s", .text "o"] ∧
      ∃ marks ending, Noted run ended.2 marks ∧
        Scoped run.state.frames run.state.previous ending marks ∧
        ∀ id s, .invoked id s ∈ marks → ∀ own, s.frames = own ++ run.state.frames →
          ∀ frame ∈ own, frame.node = .text "o" →
            frame.Bound (.text "item") (some (.text "i")) s.vars :=
  have distinct : ∀ k ∈ some (Key.text "i"), k.same (.text "item") = false := by
    rintro k ⟨⟩
    rfl
  ⟨differentNames_read, differentNames_binds, distinct, differentNames_sheltered,
    by decide +kernel, courseOf_bindings none 40 { world := {}, state := {} } differentNames_read
      differentNames_binds distinct differentNames_sheltered⟩

/-- The number that a value is, if it is one. -/
def Value.whole? : Value → Option Int
  | .int n _ => some n
  | _ => none

/-- An event shows a node to be invoked in the replay of a loop for an item, with another number
under a name than the item. -/
def Event.strays (loop id name : Key) : Event → Bool
  | .invoked id' _ _ s =>
    match s.frames with
    | [frame] => id' == id && frame.node == loop &&
        (frame.items[frame.index.toNat]?).bind Value.whole? !=
          (Value.under name s.vars).bind Value.whole?
    | _ => false
  | _ => false

theorem Event.not_bound_of_strays {loop id name : Key} {event : Event}
    (h : event.strays loop id name = true) (place : Option Key) :
    ∃ label type s frame, event = .invoked id label type s ∧ s.frames = [frame] ∧
      frame.node = loop ∧ ¬ frame.Bound name place s.vars := by
  unfold strays at h
  split at h
  · rename_i id' label type s
    split at h
    · rename_i frame hframes
      simp only [Bool.and_eq_true, beq_iff_eq, bne_iff_ne] at h
      obtain ⟨⟨rfl, hloop⟩, hother⟩ := h
      refine ⟨label, type, s, frame, rfl, hframes, hloop, ?_⟩
      rintro ⟨index, value, hindex, hvalue, hitem, -⟩
      rw [hindex, Int.toNat_natCast, hvalue, hitem] at hother
      exact hother rfl
    · cases h
  · cases h

/-- Two loops that bind their items under the same name. -/
def sameNames : Graph := nestedLoops [] []

/-- No node of the body of the outer loop sets the variable of its item, and yet the last node of
the body is invoked with the item of the inner loop under that name. -/
theorem sameNames_rebind :
    let run : Run := { world := {}, state := {} }
    let ended := (courseOf .builtin none 40 sameNames.toValue).run run
    Graph.ofValue sameNames.toValue = .ok sameNames ∧ run.state.frames = [] ∧
      (∀ node, sameNames.Builds .builtin (.text "o") node → node.Binds (.text "item") none) ∧
      (∀ id ∈ sameNames.body (.text "o"), ∀ node, sameNames.Builds .builtin id node →
        node.cls.kind = .setVariable → node.Spares (.text "item")) ∧
      ∃ e ∈ ended.2.world.journal, ∃ label type s frame,
        e.event = .invoked (.text "s") label type s ∧ s.frames = [frame] ∧
          frame.node = .text "o" ∧ ¬ frame.Bound (.text "item") none s.vars := by
  refine ⟨rfl, rfl, ?_, ?_, ?_⟩
  · rintro node ⟨_, d, made, time, hd, hmade, rfl⟩
    cases hd
    cases hmade
    exact ⟨rfl, rfl, rfl⟩
  · rintro id hid node ⟨_, d, made, time, hd, hmade, rfl⟩ hkind
    have hid : id ∈ [Key.text "s", .text "n"] := hid
    rcases List.mem_pair.1 hid with rfl | rfl
    · cases hd
      cases hmade
      rintro k hk
      obtain rfl := List.mem_singleton.1 hk
      rfl
    · cases hd
      cases hmade
      cases hkind
  · have hany : ((courseOf .builtin none 40 sameNames.toValue).run
        { world := {}, state := {} }).2.world.journal.any
          (fun e => e.event.strays (.text "o") (.text "s") (.text "item")) = true := by
      decide +kernel
    obtain ⟨e, he, hstrays⟩ := List.any_eq_true.1 hany
    exact ⟨e, he, Event.not_bound_of_strays hstrays none⟩

end WorkflowEngine
