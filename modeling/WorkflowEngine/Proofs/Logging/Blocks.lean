import WorkflowEngine.Logging.Program

/-!
# What programs that log print

A block sets parts of the tag for what is done inside it. Seen from outside it leaves the tag as it
was, however it ends (`Step.perform_tag`): what is done inside leaves the tag as the block has set
it, and then the tokens put back what was there before (`Tag.leave_enter`). So what a log call
prints is decided by the blocks that stand around it, and not by what has been done before. The
calls that a program reaches, each with these blocks, are `Step.callsAll`; each prints its message
under what the innermost of its blocks give (`Step.performAll_scoped`).
-/

namespace WorkflowEngine

/-! ## Setting parts of a tag and putting them back -/

namespace Tag

@[simp] theorem set_get (tag : Tag) (part : Part) : tag.set (tag.get part) part = tag := by
  cases part <;> rfl

@[simp] theorem set_set (tag : Tag) (v w : Value) (part : Part) :
    (tag.set v part).set w part = tag.set w part := by
  cases part <;> rfl

/-- **The tokens of a block put back the tag that it was entered with.** -/
theorem leave_enter (given : Tag) (parts : List Part) (tag : Tag) :
    leave (given.enter parts tag).1 (given.enter parts tag).2 = tag := by
  induction parts generalizing tag with
  | nil => rfl
  | cons part rest ih =>
    rw [enter]
    split
    · exact ih tag
    · dsimp only
      rw [leave, ih, set_set, set_get]

/-- Inside a block a part is what the block gives, or what it was outside if that is null. -/
theorem enter_parts (given tag : Tag) : (given.enter parts tag).2 = tag.within given := by
  obtain ⟨execution, node⟩ := given
  cases hexecution : execution.isNull <;> cases hnode : node.isNull <;>
    simp [parts, enter, within, get, set, hexecution, hnode]

end Tag

namespace Logging

/-! ## The blocks around a call -/

/-- A log call that is reached, with what the blocks around it give, the innermost in front. -/
structure Call where
  around : List Tag
  level : Level
  logger : Logger
  message : String

/-- What the innermost of some blocks gives for a part, those that give null passed over; null if
all do. -/
def innermost (around : List Tag) (part : Tag.Part) : Value :=
  ((around.map (·.get part)).find? fun v => !v.isNull).getD .null

/-- What the innermost of some blocks give for the parts. -/
def innermostTag (around : List Tag) : Tag :=
  ⟨innermost around .execution, innermost around .node⟩

/-- What is logged by a call. -/
def Call.record (c : Call) : Record := ⟨c.logger.name, c.level, innermostTag c.around, c.message⟩

/-- The lines of a call: that of its record, if the logger prints at its level and the format can be
filled in. -/
def Call.lines (c : Call) : List String :=
  if c.logger.prints c.level then (c.logger.format.line? c.record).toList else []

mutual

/-- The log calls that a step reaches inside some blocks, and whether it is carried to its end. -/
def Step.calls (around : List Tag) : Step → Bool × List Call
  | .log level logger message => (true, [⟨around, level, logger, message⟩])
  | .block given steps => callsAll (given :: around) steps
  | .fail => (false, [])
  | .shield steps => (true, (callsAll around steps).2)

/-- The log calls that steps reach one after another, until one of them is given up. -/
def Step.callsAll (around : List Tag) : List Step → Bool × List Call
  | [] => (true, [])
  | step :: rest =>
    let (completed, calls) := step.calls around
    if completed then
      let (completed, others) := callsAll around rest
      (completed, calls ++ others)
    else (false, calls)

end

/-! ## What is printed -/

theorem innermost_cons (given : Tag) (around : List Tag) (part : Tag.Part) :
    innermost (given :: around) part =
      if (given.get part).isNull then innermost around part else given.get part := by
  rw [innermost, List.map_cons, List.find?_cons]
  cases h : (given.get part).isNull <;> simp [innermost]

/-- One block more around is one block more entered. -/
theorem innermostTag_cons (given : Tag) (around : List Tag) :
    innermostTag (given :: around) = (innermostTag around).within given := by
  rw [innermostTag, innermost_cons, innermost_cons]
  rfl

theorem innermostTag_singleton (tag : Tag) : innermostTag [tag] = tag := by
  have hnull : ∀ v : Value, (if v.isNull then Value.null else v) = v := by
    intro v
    cases v <;> rfl
  rw [innermostTag, innermost_cons, innermost_cons]
  change Tag.mk (if tag.execution.isNull then .null else tag.execution)
    (if tag.node.isNull then .null else tag.node) = tag
  rw [hnull, hnull]

namespace Step

mutual

/-- A step that is done under what some blocks give reaches the calls inside these blocks. It adds
their lines, and leaves the tag. -/
theorem perform_calls (step : Step) (around : List Tag) (lines : List String) :
    step.perform ⟨innermostTag around, lines⟩ = ((step.calls around).1,
      ⟨innermostTag around, lines ++ (step.calls around).2.flatMap Call.lines⟩) :=
  match step with
  | .log level logger message => by
    rw [perform, calls, List.flatMap_singleton]
    rfl
  | .block given steps => by
    have hinner : (given.enter Tag.parts (innermostTag around)).2 =
        innermostTag (given :: around) := by
      rw [Tag.enter_parts, innermostTag_cons]
    have hback := Tag.leave_enter given Tag.parts (innermostTag around)
    rw [hinner] at hback
    rw [perform, calls]
    simp only [hinner, performAll_calls steps (given :: around) lines, hback]
  | .fail => by
    rw [perform, calls, List.flatMap_nil, List.append_nil]
  | .shield steps => by
    rw [perform, calls]
    simp only [performAll_calls steps around lines]

/-- The same for steps one after another. -/
theorem performAll_calls (steps : List Step) (around : List Tag) (lines : List String) :
    performAll steps ⟨innermostTag around, lines⟩ = ((callsAll around steps).1,
      ⟨innermostTag around, lines ++ (callsAll around steps).2.flatMap Call.lines⟩) :=
  match steps with
  | [] => by
    rw [performAll, callsAll, List.flatMap_nil, List.append_nil]
  | step :: rest => by
    rw [performAll, callsAll]
    simp only [perform_calls step around lines]
    split
    · simp only [performAll_calls rest around, List.flatMap_append, List.append_assoc]
    · rfl

end

/-- **A step leaves the tag as it was**, whether it is carried to its end or given up. -/
theorem perform_tag (step : Step) (p : Printing) : (step.perform p).2.tag = p.tag := by
  have h := perform_calls step [p.tag] p.lines
  rw [innermostTag_singleton] at h
  exact congrArg (·.2.tag) h

/-- **What a program prints is decided by the blocks around its log calls.** The lines that it adds
are those of the calls it reaches, each under the execution and the node of the innermost blocks
around it that give one; the tag at the beginning counts as a block around all, and where no block
gives one there is none. A block, be it carried to its end or given up at whatever depth, leaves
both parts of the tag as they were before it. -/
theorem performAll_scoped (steps : List Step) :
    (∀ p, performAll steps p = ((callsAll [p.tag] steps).1,
      { p with lines := p.lines ++ (callsAll [p.tag] steps).2.flatMap Call.lines })) ∧
    printedText steps =
      String.join (((callsAll [] steps).2.flatMap Call.lines).map (· ++ "\n")) ∧
    ∀ given p, ((Step.block given steps).perform p).2.tag = p.tag := by
  refine ⟨fun p => ?_, ?_, fun given p => perform_tag (.block given steps) p⟩
  · have h := performAll_calls steps [p.tag] p.lines
    rwa [innermostTag_singleton] at h
  · have h : performAll steps {} = _ := performAll_calls steps [] []
    rw [printedText, h, List.nil_append]

/-- A block that is given up inside another one, and is shielded there. -/
example :
    let engine : Logger := ⟨partName "engine", 10, (Format.read? standardFormat).getD []⟩
    printedText [
      .block { execution := .text "0123456789abcdef" } [
        .shield [.block { node := .text "cond" } [.log .info engine "inner", .fail]],
        .log .info engine "outer"],
      .log .info engine "after"] =
      "[INFO] flowline_core.engine [run=01234567 node=cond]: inner\n" ++
      "[INFO] flowline_core.engine [run=01234567]: outer\n" ++
      "[INFO] flowline_core.engine: after\n" := by
  decide +kernel

end Step

end Logging

end WorkflowEngine
