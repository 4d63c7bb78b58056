import WorkflowEngine.Proofs.Expression.JsonTexts
import WorkflowEngine.Proofs.Node.Sorting
import WorkflowEngine.Proofs.Run.Work

/-!
# JSON texts in settings

A setting that is the text of a JSON value gives the value back (`Json.evaluates_back`), in every
state of the run and without a remark. So a loop whose items are given by the text of a list is
replayed for the items of that list, in their order (`Node.loopItems_given`).
-/

namespace WorkflowEngine

open Walk

/-! ## Values that are made in a visit -/

namespace Json

mutual

/-- Where a value was made does not show in what JSON says of it. -/
theorem toJson_fill (showing : Bool) (source : Source) : (j : Json) → j.Readable → ∀ path,
    (j.toValue.fill source path).toJson showing = .ok j
  | .null, _, _ => rfl
  | .bool _, _, _ => rfl
  | .int n, h, path => toJson_toValue showing (.int n) h
  | .float _, _, _ => rfl
  | .text _, _, _ => rfl
  | .list items, h, path => by
    rw [toValue, Value.fill, Value.toJson, toJsons_fill showing source items h path 0]
    rfl
  | .object entries, h, path => by
    rw [toValue, Value.fill, Value.toJson, toJsonEntries_fill showing source entries h.2 path 0]
    rfl

theorem toJsons_fill (showing : Bool) (source : Source) : (items : List Json) →
    ReadableAll items → ∀ path i,
      Value.toJsons showing (Value.fillAll source path i (toValues items)) = .ok items
  | [], _, _, _ => rfl
  | j :: js, h, path, i => by
    rw [toValues, Value.fillAll, Value.toJsons, toJson_fill showing source j h.1,
      toJsons_fill showing source js h.2]
    rfl

theorem toJsonEntries_fill (showing : Bool) (source : Source) :
    (entries : List (String × Json)) → ReadableEntries entries → ∀ path i,
      Value.toJsonEntries showing (Value.fillFields source path i (toFields entries)) = .ok entries
  | [], _, _, _ => rfl
  | (k, j) :: rest, h, path, i => by
    rw [toFields, Value.fillFields, Value.toJsonEntries, toJson_fill showing source j h.1,
      toJsonEntries_fill showing source rest h.2]
    rfl

end

end Json

/-! ## Texts of settings -/

/-- A setting that is the text of a JSON value is evaluated to the value, without a remark. -/
theorem Act.evaluate_compact {j : Json} (h : j.Readable) (mark : Option Stamp) (bench : Bench) :
    (Act.evaluate (.text j.compact mark)).runOn bench = (.ok j.toValue, bench) := by
  rw [Act.evaluate, Act.runOn_state_bind]
  simp only [evaluate?_compact bench.state.toContext h]
  rfl

theorem Json.compact_ne_empty {j : Json} (h : j.Readable) : j.compact ≠ "" := by
  intro hempty
  obtain ⟨c, cs, hhead, -⟩ := render_head ⟨none, 0⟩ (Readable.settled_eq j h).1
  have hcompact : j.compact.toList = c :: cs := hhead
  rw [hempty] at hcompact
  cases hcompact

namespace Node

variable {plan : Plan} {replay : Key → Walk Unit} {node : Node}

/-- The items of a list that is evaluated in a visit. -/
def givenItems (time : Nat) (items : List Json) : List Value :=
  Value.fillAll (.visit time 1) [] 0 (Json.toValues items)

theorem loopItems_given {items : List Json} (h : (Json.list items).Readable) {mark : Option Stamp}
    (hsetting : node.setting "items" = .ok (.text (Json.list items).compact mark))
    (bench : Bench) :
    node.loopItems.runOn bench = (.ok (givenItems bench.state.time items), bench) := by
  have hsome : (Json.list items).compact.isEmpty = false := by
    simpa using Json.compact_ne_empty h
  rw [loopItems, hsetting, Act.runOn_ofAttempt_bind, Act.runOn_state_bind]
  simp only [hsome, Bool.false_eq_true, if_false]
  rw [Act.runOn_bind_of_ok (Act.evaluate_compact h mark bench)]
  rfl

end Node

/-- **The text of a JSON value evaluates to the value.** It is the text that the value is written
with, and as an expression it gives the value back in every context; as a setting it does so
without a remark, whatever the state of the run. A loop whose items are given by the text of a list
is replayed for the items of the list, made in this visit, and if it comes to an answer it reports
these items and no others, in their order. -/
theorem Json.evaluates_back {j : Json} (h : j.Readable) :
    (∀ scopes, j.toValue.jsonText scopes = .ok j.compact) ∧
    (∀ (context : Context) (mark : Option Stamp),
      context.evaluate (.text j.compact mark) = j.toValue) ∧
    (∀ (mark : Option Stamp) (bench : Bench),
      (Act.evaluate (.text j.compact mark)).runOn bench = (.ok j.toValue, bench)) ∧
    ∀ (items : List Json), j = .list items → ∀ (node : Node) (mark : Option Stamp),
      node.cls.kind = .loop → node.setting "items" = .ok (.text j.compact mark) →
      ∀ (plan : Plan) (replay : Key → Walk Unit) (run : Run),
        (node.act plan replay).run run =
          (node.replayAll plan replay (Node.givenItems run.state.time items)).run run ∧
        Value.toJsons true (Node.givenItems run.state.time items) = .ok items ∧
        ∀ reply ended, (node.act plan replay).run run = (some (.ok reply), ended) →
          reply = .plain (Plan.loopOutput (Node.givenItems run.state.time items)) := by
  refine ⟨jsonText_toValue h, fun context mark => ?_, Act.evaluate_compact h, ?_⟩
  · rw [Context.evaluate, evaluate?_compact context h, Option.getD_some]
  · rintro items rfl node mark hkind hsetting plan replay run
    have hitems := Node.loopItems_given h hsetting run.toBench
    have hrun : (node.act plan replay).run run =
        (node.replayAll plan replay (Node.givenItems run.state.time items)).run run := by
      rw [Node.act_loop plan replay hkind, Node.runLoop_eq, run_bind, run_ofAct, hitems]
    refine ⟨hrun, toJsons_fill true _ items h [] 0, fun reply ended hreply => ?_⟩
    exact Node.replayAll_answer (hrun ▸ hreply)

/-- A list whose texts look like a placeholder and like a root. -/
def bracedList : Json := .list [.text "\x7b\x7bx\x7d\x7d", .object [("$input", .bool true)]]

/-- A loop over the text of that list. -/
def bracedLoop : Node where
  id := .text "l"
  type := .text "loop"
  label := .text "l"
  settings := .dict [(.text "items", .text bracedList.compact)]
  cls := { name := "LoopNode", kind := .loop }

theorem Json.evaluates_back_braced :
    bracedList.Readable ∧
    bracedList.compact = "[\"\x7b\x7bx\x7d\x7d\", \x7b\"$input\": true\x7d]" ∧
    ({} : Context).evaluate (.text bracedList.compact) = bracedList.toValue ∧
    bracedLoop.setting "items" = .ok (.text bracedList.compact) ∧
    ∀ plan replay run, (bracedLoop.act plan replay).run run =
      (bracedLoop.replayAll plan replay (Node.givenItems run.state.time
        [.text "\x7b\x7bx\x7d\x7d", .object [("$input", .bool true)]])).run run := by
  have hreadable : bracedList.Readable := ⟨trivial, ⟨by decide, trivial, trivial⟩, trivial⟩
  obtain ⟨-, hevaluate, -, hloop⟩ := evaluates_back hreadable
  have hreplayed := hloop _ rfl bracedLoop none rfl rfl
  exact ⟨hreadable, by rfl, hevaluate {} none, rfl,
    fun plan replay run => (hreplayed plan replay run).1⟩

end WorkflowEngine
