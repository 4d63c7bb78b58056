import WorkflowEngine.State

/-!
# What is written to the state of a run

What the engine's writes do to each table of a state: to the executed nodes, the replays, the
outputs, the variables and the output before.
-/

namespace WorkflowEngine

namespace RunState

theorem mem_markExecuted (s : RunState) (ids : List Key) (id : Key) :
    id ∈ (s.markExecuted ids).executed ↔ id ∈ s.executed ∨ id ∈ ids := by
  simp only [markExecuted, List.mem_append, List.mem_eraseDups, List.mem_filter, List.contains_eq_mem,
    Bool.not_eq_true', decide_eq_false_iff_not]
  constructor
  · rintro (h | ⟨h, _⟩)
    · exact .inl h
    · exact .inr h
  · rintro (h | h)
    · exact .inl h
    · by_cases hold : id ∈ s.executed
      · exact .inl hold
      · exact .inr ⟨h, hold⟩

theorem inLoop_eq_false {s : RunState} : s.inLoop = false ↔ s.frames = [] := by
  simp [inLoop]

theorem shouldSkip_of_inLoop {s : RunState} (h : s.inLoop = true) (id : Key) :
    s.shouldSkip id = false := by
  rw [shouldSkip, h, Bool.not_true, Bool.and_false]

theorem setIndex_frames {s : RunState} {frame : Frame} {rest : List Frame} (index : Int)
    (h : s.frames = frame :: rest) :
    (s.setIndex index).frames = { frame with index := index } :: rest := by
  unfold setIndex
  rw [h]

theorem setIndex_eq_self {s : RunState} (index : Int) (h : s.frames = []) :
    s.setIndex index = s := by
  unfold setIndex
  rw [h]

@[simp] theorem setIndex_inLoop (s : RunState) (index : Int) :
    (s.setIndex index).inLoop = s.inLoop := by
  unfold setIndex inLoop
  split <;> simp [*]

theorem leaveLoop_frames {s : RunState} {frame : Frame} {rest : List Frame}
    (h : s.frames = frame :: rest) : s.leaveLoop.frames = rest := by
  unfold leaveLoop
  rw [h]

theorem leaveLoop_previous {s : RunState} {frame : Frame} {rest : List Frame}
    (h : s.frames = frame :: rest) : s.leaveLoop.previous = frame.saved := by
  unfold leaveLoop
  rw [h]

@[simp] theorem setIndex_executed (s : RunState) (index : Int) :
    (s.setIndex index).executed = s.executed := by
  unfold setIndex
  split <;> rfl

@[simp] theorem leaveLoop_executed (s : RunState) : s.leaveLoop.executed = s.executed := by
  unfold leaveLoop
  split <;> rfl

@[simp] theorem setIndex_outputs (s : RunState) (index : Int) :
    (s.setIndex index).outputs = s.outputs := by
  unfold setIndex
  split <;> rfl

@[simp] theorem leaveLoop_outputs (s : RunState) : s.leaveLoop.outputs = s.outputs := by
  unfold leaveLoop
  split <;> rfl

@[simp] theorem record_frames (s : RunState) (id : Key) (output : Value) :
    (s.record id output).frames = s.frames := by
  unfold record
  dsimp only
  split <;> rfl

@[simp] theorem record_previous (s : RunState) (id : Key) (output : Value) :
    (s.record id output).previous = output := by
  unfold record
  dsimp only
  split <;> rfl

@[simp] theorem record_outputs (s : RunState) (id : Key) (output : Value) :
    (s.record id output).outputs = Entries.put id output s.outputs := by
  unfold record
  dsimp only
  split <;> rfl

@[simp] theorem setIndex_vars (s : RunState) (index : Int) : (s.setIndex index).vars = s.vars := by
  unfold setIndex
  split <;> rfl

@[simp] theorem leaveLoop_vars (s : RunState) : s.leaveLoop.vars = s.vars := by
  unfold leaveLoop
  split <;> rfl

@[simp] theorem record_vars (s : RunState) (id : Key) (output : Value) :
    (s.record id output).vars = s.vars := by
  unfold record
  dsimp only
  split <;> rfl

/-- Outside loops a node whose output is kept counts as executed. -/
theorem mem_record_executed (s : RunState) (id : Key) (output : Value) (id' : Key) :
    id' ∈ (s.record id output).executed ↔ id' ∈ s.executed ∨ (s.frames = [] ∧ id' = id) := by
  unfold record
  dsimp only
  split
  · rename_i hin
    have hframes : s.frames ≠ [] := by
      intro hnil
      rw [inLoop, hnil] at hin
      cases hin
    simp [hframes]
  · rename_i hin
    have hframes : s.frames = [] := by simpa [inLoop] using hin
    rw [mem_markExecuted, List.mem_singleton]
    simp [hframes]

end RunState

end WorkflowEngine
