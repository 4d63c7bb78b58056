import WorkflowEngine.Text.Pieces

/-!
# Pieces of joined texts

A separator between two texts keeps their pieces apart, and the first separator of a text is where
it is cut in two.
-/

namespace WorkflowEngine.Text

variable {c : Char} {cs : List Char}

theorem pieces_ne_nil (separator : Char) (cs : List Char) : pieces separator cs ≠ [] := by
  cases cs with
  | nil => exact List.cons_ne_nil _ _
  | cons c cs =>
    rw [pieces]
    split
    · exact List.cons_ne_nil _ _
    · split <;> exact List.cons_ne_nil _ _

/-- **A separator keeps the pieces of two texts apart.** -/
theorem pieces_separated (separator : Char) (cs ds : List Char) :
    pieces separator (cs ++ separator :: ds) = pieces separator cs ++ pieces separator ds := by
  induction cs with
  | nil => rw [List.nil_append, pieces.eq_2, if_pos rfl, pieces.eq_1, List.singleton_append]
  | cons c cs ih =>
    rw [List.cons_append, pieces, pieces, ih]
    split
    · rw [List.cons_append]
    · obtain ⟨w, ws, hpieces⟩ := List.exists_cons_of_ne_nil (pieces_ne_nil separator cs)
      rw [hpieces, List.cons_append, List.cons_append]

theorem pieces_of_not_mem (h : c ∉ cs) : pieces c cs = [cs] := by
  induction cs with
  | nil => rfl
  | cons d ds ih =>
    obtain ⟨hd, hds⟩ := List.ne_and_not_mem_of_not_mem_cons h
    rw [pieces, if_neg (Ne.symm hd), ih hds]

theorem pieces_append (ds : List Char) (h : c ∉ cs) :
    pieces c (cs ++ c :: ds) = cs :: pieces c ds := by
  rw [pieces_separated, pieces_of_not_mem h, List.singleton_append]

theorem behind?_append (beginning rest : List Char) :
    behind? beginning (beginning ++ rest) = some rest := by
  rw [behind?, if_pos (List.isPrefixOf_iff_prefix.2 (List.prefix_append _ _)), List.drop_left]

theorem cutFirst_append (rest : List Char) (h : c ∉ cs) :
    cutFirst c (cs ++ c :: rest) = (cs, some rest) := by
  induction cs with
  | nil => rw [List.nil_append, cutFirst, if_pos rfl]
  | cons d cs ih =>
    obtain ⟨hd, hcs⟩ := List.ne_and_not_mem_of_not_mem_cons h
    rw [List.cons_append, cutFirst, if_neg (Ne.symm hd), ih hcs]

theorem cutFirst_of_not_mem (h : c ∉ cs) : cutFirst c cs = (cs, none) := by
  induction cs with
  | nil => rfl
  | cons d cs ih =>
    obtain ⟨hd, hcs⟩ := List.ne_and_not_mem_of_not_mem_cons h
    rw [cutFirst, if_neg (Ne.symm hd), ih hcs]

end WorkflowEngine.Text
