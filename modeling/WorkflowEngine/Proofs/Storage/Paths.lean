import WorkflowEngine.Proofs.Json.Values
import WorkflowEngine.Proofs.Node.Modesty
import WorkflowEngine.Proofs.Text.Pieces

/-!
# Identifiers that name files

A safe identifier has no slash, so that the name made of it is a single part of a path. Such a name
leads to a place right in its folder, wherever the folder is (`LocalStore.resolve_name`), so that the
check of the place refuses no safe identifier (`LocalStore.recordFile_text`).
-/

namespace WorkflowEngine

open Number Text

/-! ## Safe identifiers -/

theorem mem_of_isWithin {c : Char} {part cs : List Char} (h : isWithin (c :: part) cs = true) :
    c ∈ cs := by
  induction cs with
  | nil => cases h
  | cons d ds ih =>
    rcases Bool.or_eq_true_iff.1 h with hprefix | hwithin
    · rw [List.isPrefixOf_cons_cons, Bool.and_eq_true, beq_iff_eq] at hprefix
      exact hprefix.1 ▸ List.mem_cons_self
    · exact List.mem_cons_of_mem _ (ih hwithin)

/-- A text that is not empty and in which no unsafe part can begin is safe. -/
theorem isSafeId_of_all {id : String} (hne : id ≠ "")
    (h : ∀ c ∈ id.toList, c ≠ '/' ∧ c ≠ '\\' ∧ c ≠ '.' ∧ c ≠ '\x00') : isSafeId id = true := by
  -- each unsafe part begins with one of these characters
  have hparts : unsafeParts.any (fun part => isWithin part.toList id.toList) = false := by
    rw [List.any_eq_false]
    intro part hpart hwithin
    simp only [unsafeParts, List.mem_cons, List.not_mem_nil, or_false] at hpart
    obtain rfl | rfl | rfl | rfl := hpart
    · exact (h _ (mem_of_isWithin hwithin)).1 rfl
    · exact (h _ (mem_of_isWithin hwithin)).2.1 rfl
    · exact (h _ (mem_of_isWithin hwithin)).2.2.1 rfl
    · exact (h _ (mem_of_isWithin hwithin)).2.2.2 rfl
  simp [isSafeId, hne, hparts]

theorem isWithin_singleton {c : Char} {cs : List Char} (h : c ∈ cs) : isWithin [c] cs = true := by
  induction cs with
  | nil => cases h
  | cons d ds ih =>
    rcases List.mem_cons.1 h with rfl | h
    · simp [isWithin]
    · simp [isWithin, ih h]

theorem isSafeId_noSlash {id : String} (h : isSafeId id = true) : '/' ∉ id.toList := by
  intro hslash
  simp [isSafeId, unsafeParts, isWithin_singleton hslash] at h

/-- The identifiers that records are given are safe. -/
theorem isSafeId_newId (w : World) : isSafeId w.newId.1 = true := by
  have hdigit : ∀ d < 10, digitChar d ≠ '/' ∧ digitChar d ≠ '\\' ∧ digitChar d ≠ '.' ∧
      digitChar d ≠ '\x00' := by decide
  have htail : "-0000-4000-8000-000000000000".toList.all
      (fun c => c != '/' && c != '\\' && c != '.' && c != '\x00') = true := by decide
  refine isSafeId_of_all (by simp [World.newId]) fun c hc => ?_
  simp only [World.newId, padded, natText, String.toList_append, List.append_assoc,
    List.mem_append, String.toList_ofList, List.mem_replicate, List.mem_map] at hc
  obtain ⟨-, rfl⟩ | ⟨d, hd, rfl⟩ | hc := hc
  · decide
  · exact hdigit d (digitsOf_digit _ d hd)
  · simpa [and_assoc] using List.all_eq_true.1 htail c hc

/-! ## The place of a name -/

/-- A name without a slash that is no dots is a path of one part. -/
theorem Path.ofText_name {name : String} (slash : '/' ∉ name.toList) (hne : name ≠ "")
    (dot : name ≠ ".") : Path.ofText name = ⟨false, [name]⟩ := by
  have hhead : (name.toList.head? == some '/') = false := by
    cases hname : name.toList with
    | nil => rfl
    | cons c cs =>
      have hc : c ≠ '/' := fun hc => slash (by simp [hname, hc])
      simpa using hc
  simp only [ofText, hhead, pieces_of_not_mem slash, List.map_cons, List.map_nil,
    String.ofList_toList, List.filter_cons, List.filter_nil]
  rw [if_pos (by simp [hne, dot])]

/-- Such a name leads right into the folder that it is joined to. -/
theorem Path.resolve_join_name {name : String} (slash : '/' ∉ name.toList) (hne : name ≠ "")
    (dot : name ≠ ".") (dots : name ≠ "..") (p : Path) (here : List String) :
    (p.join (.ofText name)).resolve here = p.resolve here ++ [name] := by
  rw [ofText_name slash hne dot]
  simp only [join, resolve, Bool.false_eq_true, if_false, List.foldl_append, List.foldl_cons,
    List.foldl_nil, enter, dots]

namespace LocalStore

/-- The file of the record with an identifier in a folder. -/
def recordPath (folder id : String) : String := folder ++ "/" ++ id ++ extension

/-- The file of an execution record. -/
def executionFile (id : String) : String := executionFolder ++ "/" ++ id ++ extension

/-- The name that a text makes is no dots. -/
theorem fileName_ne (id : String) : id ++ extension ≠ "" ∧ id ++ extension ≠ "." ∧
    id ++ extension ≠ ".." := by
  have hlength : (id ++ extension).length = id.length + 5 := String.length_append _ _
  refine ⟨fun h => ?_, fun h => ?_, fun h => ?_⟩
  all_goals
    rw [h] at hlength
    have hshort : id.length + 5 ≤ 2 := by rw [← hlength]; decide
    omega

theorem fileName_noSlash {id : String} (h : '/' ∉ id.toList) :
    '/' ∉ (id ++ extension).toList := by
  have hextension : '/' ∉ extension.toList := by decide
  simp [h, hextension]

/-- **The file of a safe identifier is right in the folder**, wherever that is. -/
theorem resolve_name {id : String} (h : isSafeId id = true) (folder : String) (w : World) :
    ((directory w folder).join (.ofText (id ++ extension))).resolve w.workingFolder =
      (directory w folder).resolve w.workingFolder ++ [id ++ extension] := by
  obtain ⟨hne, hdot, hdots⟩ := fileName_ne id
  exact Path.resolve_join_name (fileName_noSlash (isSafeId_noSlash h)) hne hdot hdots _ _

/-- A safe identifier names the file of its record. -/
theorem recordFile_text {id : String} (h : isSafeId id = true) (mark : Option Stamp)
    (folder : String) (w : World) :
    recordFile w folder (.text id mark) = .ok (recordPath folder id) := by
  have hinto : leadsInto w folder (id ++ extension) = true := by
    rw [leadsInto, resolve_name h, Path.parent, List.dropLast_concat, beq_self_eq_true]
  simp only [recordFile, isSafe, h, bind, Except.bind, Value.plain, hinto, Bool.not_true,
    Bool.false_eq_true, if_false, recordPath, String.append_assoc]
  rfl

/-- The file of a record is named by the plain form of its identifier. -/
theorem recordFile_ok {w : World} {folder path : String} {id : Value}
    (h : recordFile w folder id = .ok path) :
    ∃ name, id.plain = .ok name ∧ path = recordPath folder name := by
  obtain ⟨safe, -, h⟩ := Attempt.bind_ok h
  cases safe with
  | false =>
    obtain ⟨_, -, h⟩ := Attempt.bind_ok h
    cases h
  | true =>
    obtain ⟨name, hname, h⟩ := Attempt.bind_ok h
    refine ⟨name, hname, ?_⟩
    cases hinto : leadsInto w folder (name ++ extension) with
    | true =>
      simp only [hinto] at h
      cases h
      simp only [recordPath, String.append_assoc]
    | false =>
      simp only [hinto] at h
      obtain ⟨_, -, h⟩ := Attempt.bind_ok h
      cases h

/-- Where a store is decides which file a record has, and nothing else does. -/
theorem recordFile_congr {w w' : World}
    (place : w'.settings = w.settings ∧ w'.workingFolder = w.workingFolder) (folder : String)
    (id : Value) : recordFile w' folder id = recordFile w folder id := by
  have hinto : leadsInto w' folder = leadsInto w folder := by
    funext name
    rw [leadsInto, leadsInto, directory, directory, place.1, place.2]
  rw [recordFile, recordFile, hinto]

/-! ## Names that the system takes -/

/-- Whether the system takes the name of a file. -/
def Accepts (path : String) : Prop :=
  (toUtf8 (String.ofList (behindLast '/' path.toList))).length ≤ nameLimit

instance (path : String) : Decidable (Accepts path) := inferInstanceAs (Decidable (_ ≤ _))

/-- Whether the folder of a file is there. -/
def Housed (path : String) : Prop :=
  (pieces '/' path.toList).dropLast.map String.ofList ∈
    [[], [workflowFolder], [executionFolder]]

instance (path : String) : Decidable (Housed path) :=
  inferInstanceAs (Decidable (_ ∈ _))

theorem housed_dataFile : Housed dataFile := by decide

theorem accepts_dataFile : Accepts dataFile := by decide +kernel

/-- The file of a safe identifier is in a folder that is there. -/
theorem housed_recordPath {folder id : String} (hfolder : folder ∈ [workflowFolder, executionFolder])
    (h : isSafeId id = true) : Housed (recordPath folder id) := by
  have hslash := fileName_noSlash (isSafeId_noSlash h)
  have hhome : '/' ∉ folder.toList := by
    simp only [List.mem_cons, List.not_mem_nil, or_false] at hfolder
    obtain rfl | rfl := hfolder
    · decide
    · decide
  have hpath : (recordPath folder id).toList =
      folder.toList ++ '/' :: (id ++ extension).toList := by
    simp [recordPath]
  rw [Housed, hpath, pieces_append _ hhome, pieces_of_not_mem hslash]
  simp only [List.dropLast_cons_cons, List.dropLast_singleton, List.map_cons, List.map_nil,
    String.ofList_toList]
  simpa using hfolder

end LocalStore

end WorkflowEngine
