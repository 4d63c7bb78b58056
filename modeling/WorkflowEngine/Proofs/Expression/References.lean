import WorkflowEngine.Expression.Evaluate
import WorkflowEngine.Proofs.Expression.Paths
import WorkflowEngine.Proofs.Expression.Templates
import WorkflowEngine.Proofs.Storage.Paths

/-!
# Two ways to refer to the output of a node

An expression can name the output of a node after the root `$nodes`, or in a placeholder that begins
with `$node.`. The root takes one walk from the table of all outputs (`evaluate_nodesText`), the
placeholder looks the output up and walks from there (`evaluate_nodeHole`). With a path behind the
identifier both walks take the same steps (`Value.nested_outputs`), so they lead to the same value,
and differ only in how they show that there is none. Without a path they differ on outputs that a
path cannot lead into: the root gives such an output itself, the placeholder stays as it is
(`Context.evaluate_output`).
-/

namespace WorkflowEngine

open Text

/-! ## Texts without blanks at their ends -/

namespace Text

variable {cs ds : List Char}

/-- A text that neither begins nor ends with a blank. -/
structure Bare (cs : List Char) : Prop where
  front : ∀ c ∈ cs.head?, isBlank c = false
  back : ∀ c ∈ cs.getLast?, isBlank c = false

theorem dropWhile_blank (h : ∀ c ∈ cs.head?, isBlank c = false) : cs.dropWhile isBlank = cs := by
  cases cs with
  | nil => rfl
  | cons c cs => rw [List.dropWhile_cons, h c rfl, if_neg Bool.false_ne_true]

/-- There is nothing to be removed from such a text. -/
theorem Bare.trim_eq (h : Bare cs) : trimBack (trimFront cs) = cs := by
  have hback : ∀ c ∈ cs.reverse.head?, isBlank c = false := by
    simpa only [List.head?_reverse] using h.back
  rw [trimFront, dropWhile_blank h.front, trimBack, dropWhile_blank hback, List.reverse_reverse]

theorem Bare.append (hcs : Bare cs) (hds : Bare ds) : Bare (cs ++ ds) where
  front := by
    cases cs with
    | nil => exact hds.front
    | cons c cs => exact hcs.front
  back := by
    intro c hc
    rw [List.getLast?_append] at hc
    cases hlast : ds.getLast? with
    | none => exact hcs.back c (by simpa only [hlast, Option.none_or] using hc)
    | some d => exact hds.back c (by simpa only [hlast, Option.some_or] using hc)

theorem bare_of_all (h : ∀ c ∈ cs, isBlank c = false) : Bare cs where
  front := fun c hc => h c (List.mem_of_mem_head? hc)
  back := fun c hc => h c (List.mem_of_mem_getLast? hc)

end Text

theorem Template.single?_eq_none {cs : List Char} (hbare : Bare cs) (hhole : hole? cs = none) :
    single? cs = none := by
  rw [single?, trimFront, dropWhile_blank hbare.front, hhole]

/-! ## Walks -/

namespace Value

variable {scopes : Scopes} {v output : Value} {id path : List Char}

/-- **The walk from the table of outputs.** Its first step finds the output, and from there it is
the walk from the output itself. -/
theorem nested_outputs (hid : '.' ∉ id) (houtput : scopes.outputs.lookup (.text (String.ofList id)) =
    some output) (hpath : path ≠ []) :
    (Value.live .outputs).nested scopes (id ++ '.' :: path) = output.nested scopes path := by
  have hstep : step scopes (.live .outputs) id = output := by
    rw [step, Scopes.table, houtput]
    rfl
  rw [nested_eq_steps (by simp), nested_eq_steps hpath, pieces_append path hid, List.foldl_cons,
    hstep]

theorem nested_outputs_bare (hid : '.' ∉ id) (hne : id ≠ [])
    (houtput : scopes.outputs.lookup (.text (String.ofList id)) = some output) :
    (Value.live .outputs).nested scopes id = output := by
  rw [nested_eq_steps hne, pieces_of_not_mem hid, List.foldl_cons, List.foldl_nil, step,
    Scopes.table, houtput]
  rfl

theorem nested_nil : v.nested scopes [] = if v.isContainer then v else .null := by
  cases h : v.isContainer <;> simp [nested, h]

end Value

/-! ## The two references -/

namespace Context

variable {context : Context} {id path suffix : List Char} {output : Value} {mark : Option Stamp}

/-- The reference to an output after the root of all outputs. -/
def nodesText (id suffix : List Char) : String :=
  String.ofList ("$nodes.".toList ++ (id ++ suffix))

/-- The reference to an output in a placeholder. -/
def nodeHole (id suffix : List Char) : String :=
  String.ofList (Template.braced ("$node.".toList ++ (id ++ suffix)))

/-- What can stand behind the identifier in a reference: nothing, or a path behind a dot. -/
inductive IsSuffix : List Char → Prop where
  | none : IsSuffix []
  | path (path : List Char) (some : path ≠ []) (brace : '\x7d' ∉ path) (bare : Bare path) :
    IsSuffix ('.' :: path)

/-- An identifier that a reference can hold as a whole. -/
def IsPlain (id : List Char) : Prop := ∀ c ∈ id, c ≠ '.' ∧ c ≠ '\x7d' ∧ isBlank c = false

theorem IsSuffix.bare (h : IsSuffix suffix) : Bare suffix := by
  cases h with
  | none => exact bare_of_all fun _ hc => absurd hc List.not_mem_nil
  | path path some brace bare =>
    have hdot : Bare ['.'] := bare_of_all (by simp [isBlank])
    exact hdot.append bare

theorem IsSuffix.brace (h : IsSuffix suffix) : '\x7d' ∉ suffix := by
  cases h with
  | none => exact List.not_mem_nil
  | path path some brace bare => simpa using brace

theorem bare_nodesRoot : Bare "$nodes.".toList := bare_of_all (by simp [isBlank])

theorem bare_nodeRoot : Bare "$node.".toList := bare_of_all (by simp [isBlank])

theorem bare_reference {root : List Char} (hroot : Bare root) (hid : IsPlain id)
    (hsuffix : IsSuffix suffix) : Bare (root ++ (id ++ suffix)) :=
  hroot.append ((bare_of_all fun c hc => (hid c hc).2.2).append hsuffix.bare)

theorem fromRoot?_nodes (path : List Char) : context.fromRoot? ("$nodes.".toList ++ path) =
    some ((Value.live .outputs).nested context.toScopes path) := by
  have hbehind : behind? ("$nodes".toList ++ ['.']) ("$nodes.".toList ++ path) = some path :=
    behind?_append "$nodes.".toList path
  have hnotRoot : ∀ root : String, '.' ∉ root.toList → "$nodes.".toList ++ path ≠ root.toList :=
    fun root hdot heq => hdot (heq ▸ List.mem_append_left _ (by simp))
  have hnotInput : behind? ("$input".toList ++ ['.']) ("$nodes.".toList ++ path) = none := by
    simp [behind?]
  have hnotVars : behind? ("$vars".toList ++ ['.']) ("$nodes.".toList ++ path) = none := by
    simp [behind?]
  simp only [fromRoot?, roots, List.findSome?_cons, hnotRoot "$input" (by simp),
    hnotRoot "$vars" (by simp), hnotRoot "$nodes" (by simp), hnotInput, hnotVars, hbehind,
    if_false, Option.map_none, Option.map_some]

theorem evaluate_text (context : Context) (s : String) (mark : Option Stamp) :
    context.evaluate (.text s mark) = (context.evaluate? s).getD (.text s mark) := rfl

theorem evaluate?_single {cs reference : List Char} (hbare : Bare cs)
    (hsingle : Template.single? cs = some reference) : context.evaluate? (String.ofList cs) =
      some ((context.lookup reference).getD (.text (String.ofList cs))) := by
  rw [evaluate?, String.toList_ofList, hbare.trim_eq]
  simp only [hsingle]

theorem evaluate?_root {cs : List Char} {v : Value} (hbare : Bare cs)
    (hsingle : Template.single? cs = none) (hroot : context.fromRoot? cs = some v) :
    context.evaluate? (String.ofList cs) = some v := by
  rw [evaluate?, String.toList_ofList, hbare.trim_eq]
  simp only [hsingle, hroot]

/-- **The reference after the root is a walk from the table of outputs.** -/
theorem evaluate_nodesText (hid : IsPlain id) (hsuffix : IsSuffix suffix) :
    context.evaluate (.text (nodesText id suffix) mark) =
      (Value.live .outputs).nested context.toScopes (id ++ suffix) := by
  have hbare := bare_reference bare_nodesRoot hid hsuffix
  have hhole : Template.hole? ("$nodes.".toList ++ (id ++ suffix)) = none := by
    simp [Template.hole?]
  have hread : context.evaluate? (nodesText id suffix) = _ :=
    evaluate?_root hbare (Template.single?_eq_none hbare hhole) (fromRoot?_nodes (id ++ suffix))
  rw [evaluate_text, hread, Option.getD_some]

/-- **The reference in a placeholder is looked up, with a walk from the output it finds.** -/
theorem evaluate_nodeHole (hid : IsPlain id) (hsuffix : IsSuffix suffix) :
    context.evaluate (.text (nodeHole id suffix) mark) =
      (context.lookup ("$node.".toList ++ (id ++ suffix))).getD (.text (nodeHole id suffix)) := by
  have hreference : Template.IsReference ("$node.".toList ++ (id ++ suffix)) := by
    refine ⟨by simp, fun hmem => ?_⟩
    rcases List.mem_append.1 hmem with hroot | hrest
    · exact absurd hroot (by decide)
    · rcases List.mem_append.1 hrest with hmem | hmem
      · exact (hid _ hmem).2.1 rfl
      · exact hsuffix.brace hmem
  have hopening : Bare ['\x7b', '\x7b'] := bare_of_all (by simp [isBlank])
  have hbraced : Bare (Template.braced ("$node.".toList ++ (id ++ suffix))) :=
    hopening.append
      ((bare_reference bare_nodeRoot hid hsuffix).append (bare_of_all (by simp [isBlank])))
  have hsingle : Template.single? (Template.braced ("$node.".toList ++ (id ++ suffix))) =
      some ("$node.".toList ++ (id ++ suffix)) :=
    Template.single?_eq_some_iff.2 ⟨[], [], by simp, by simp, by simp, hreference⟩
  rw [evaluate_text, nodeHole, evaluate?_single hbraced hsingle, Option.getD_some]

/-- What a placeholder refers to is the output, or what a path leads to from it, if not null. -/
theorem lookup_node (hid : IsPlain id) (hsuffix : IsSuffix suffix)
    (houtput : context.outputs.lookup (.text (String.ofList id)) = some output) :
    context.lookup ("$node.".toList ++ (id ++ suffix)) =
      if (output.nested context.toScopes suffix.tail).isNull then none
      else some (output.nested context.toScopes suffix.tail) := by
  have hcut : cutFirst '.' (id ++ suffix) =
      (id, if suffix = [] then none else some suffix.tail) := by
    have hdot : '.' ∉ id := fun hmem => (hid _ hmem).1 rfl
    cases hsuffix with
    | none => rw [List.append_nil, cutFirst_of_not_mem hdot, if_pos rfl]
    | path path some brace bare => exact cutFirst_append path hdot
  have hinner : (if suffix = [] then none else some suffix.tail).getD [] = suffix.tail := by
    cases suffix <;> rfl
  rw [lookup, (bare_reference bare_nodeRoot hid hsuffix).trim_eq, behind?_append]
  simp only [hcut, houtput, hinner, Option.bind_some]

/-- **The two references to an output.** With a path behind the identifier both lead to what the
path leads to from the output; if that is null, the one after the root gives null and the
placeholder stays as it is. Without a path the one after the root gives the output itself (for the
empty identifier, the table of all outputs), and so does the placeholder for an output that a path
can lead into; for any other output the placeholder stays as it is. -/
theorem evaluate_output (context : Context) {id : List Char} {output : Value} (hid : IsPlain id)
    (houtput : context.outputs.lookup (.text (String.ofList id)) = some output)
    (mark : Option Stamp) :
    (∀ path, path ≠ [] → '\x7d' ∉ path → Bare path →
      context.evaluate (.text (nodesText id ('.' :: path)) mark) =
        output.nested context.toScopes path ∧
      context.evaluate (.text (nodeHole id ('.' :: path)) mark) =
        if (output.nested context.toScopes path).isNull then .text (nodeHole id ('.' :: path))
        else output.nested context.toScopes path) ∧
    context.evaluate (.text (nodesText id []) mark) =
      (if id = [] then .live .outputs else output) ∧
    context.evaluate (.text (nodeHole id []) mark) =
      if output.isContainer then output else .text (nodeHole id []) := by
  have hdot : '.' ∉ id := fun hmem => (hid _ hmem).1 rfl
  refine ⟨fun path hsome hbrace hbare => ?_, ?_, ?_⟩
  · have hsuffix := IsSuffix.path path hsome hbrace hbare
    rw [evaluate_nodesText hid hsuffix, Value.nested_outputs hdot houtput hsome,
      evaluate_nodeHole hid hsuffix, lookup_node hid hsuffix houtput, List.tail_cons]
    exact ⟨rfl, by split <;> rfl⟩
  · rw [evaluate_nodesText hid .none, List.append_nil]
    split
    · next hempty =>
      rw [hempty]
      rfl
    · next hne => exact Value.nested_outputs_bare hdot hne houtput
  · rw [evaluate_nodeHole hid .none, lookup_node hid .none houtput, List.tail_nil, Value.nested_nil]
    cases output <;> rfl

/-- A context in which one output is an object and another a number. -/
def countedContext : Context where
  outputs := [(.text "n", .int 5), (.text "m", .object [("a", .list [.int 7])])]

theorem evaluate_output_counted :
    countedContext.evaluate (.text "\x7b\x7b$node.n\x7d\x7d") = .text "\x7b\x7b$node.n\x7d\x7d" ∧
    countedContext.evaluate (.text "$nodes.n") = .int 5 ∧
    countedContext.evaluate (.text "\x7b\x7b$node.m.a.0\x7d\x7d") = .int 7 ∧
    countedContext.evaluate (.text "$nodes.m.a.0") = .int 7 := by
  have hn : IsPlain ['n'] := by simp [IsPlain, isBlank]
  have hm : IsPlain ['m'] := by simp [IsPlain, isBlank]
  obtain ⟨-, hroot, hhole⟩ := evaluate_output countedContext hn rfl none
  obtain ⟨hpath, -, -⟩ := evaluate_output countedContext hm rfl none
  obtain ⟨hroot', hhole'⟩ := hpath ['a', '.', '0'] (by decide) (by decide)
    (bare_of_all (by simp [isBlank]))
  exact ⟨hhole, hroot, hhole', hroot'⟩

end Context

end WorkflowEngine
