import WorkflowEngine.Proofs.Value.Spoken

/-!
# What templates become

A template is written piece by piece: literal pieces, and placeholders between double braces. Read
from the left it falls into the same pieces again (`scan_written`), so that filling it in leaves the
literal pieces as they are and puts in place of each placeholder the text of what it refers to, in
which nothing is looked for any more (`interpolate_segments`). A text that is a single placeholder
between blanks is told apart from all others, and only there the two ways to read a template differ
(`resolve_interpolate`).
-/

namespace WorkflowEngine

open Text

namespace Template

variable {context : Context} {cs rest reference : List Char}

/-! ## Templates piece by piece -/

/-- A piece of a template as it is written. -/
inductive Segment where
  | literal (cs : List Char)
  | placeholder (reference : List Char)
  deriving DecidableEq, Repr

/-- Whether a reference can stand in a placeholder. -/
def IsReference (reference : List Char) : Prop := reference ≠ [] ∧ '\x7d' ∉ reference

namespace Segment

/-- The characters of a piece. -/
def written : Segment → List Char
  | literal cs => cs
  | placeholder reference => braced reference

/-- A literal piece opens no placeholder, not even together with what follows it. -/
def Proper : Segment → Prop
  | literal cs => ¬ ['\x7b', '\x7b'] <:+: cs ∧ ¬ ['\x7b'] <:+ cs
  | placeholder reference => IsReference reference

/-- The pieces that are read where this one is written. -/
def reading : Segment → List Piece
  | literal cs => cs.map .char
  | placeholder reference => [.hole reference]

/-- What becomes of a piece: a literal one stays, and a placeholder gives way to the text of what it
refers to, if it refers to anything. -/
def filled (context : Context) : Segment → Attempt (List Char)
  | literal cs => .ok cs
  | placeholder reference =>
    match context.lookup reference with
    | some v => (v.toText context.toScopes).map String.toList
    | none => .ok (braced reference)

end Segment

/-! ## Placeholders in front -/

theorem hole?_braced (h : IsReference reference) (rest : List Char) :
    hole? (braced reference ++ rest) = some (reference, rest) := by
  have hinside : ∀ c ∈ reference, (c != '\x7d') = true := fun c hc => by
    simpa using fun heq : c = '\x7d' => h.2 (heq ▸ hc)
  have hbody : (reference ++ '\x7d' :: '\x7d' :: rest).takeWhile (· != '\x7d') = reference := by
    rw [List.takeWhile_append_of_pos hinside]
    simp
  have hshape : braced reference ++ rest =
      '\x7b' :: '\x7b' :: (reference ++ '\x7d' :: '\x7d' :: rest) := by
    simp [braced]
  rw [hshape, hole?, hbody, List.drop_left]
  simp [h.1]

/-- **A placeholder stands in front exactly if the text begins with one.** -/
theorem hole?_eq_some_iff : hole? cs = some (reference, rest) ↔
    IsReference reference ∧ cs = braced reference ++ rest := by
  constructor
  · intro h
    unfold hole? at h
    split at h
    · next inner =>
      -- The body and what is behind it make up the text behind the two braces.
      have hsplit := List.prefix_iff_eq_append.1 (List.takeWhile_prefix (l := inner) (· != '\x7d'))
      simp only at h
      split at h
      · next tail hdrop =>
        rw [hdrop] at hsplit
        split at h
        · cases h
        · next hbody =>
          cases h
          refine ⟨⟨by simpa using hbody, fun hmem => ?_⟩, ?_⟩
          · simpa using List.mem_takeWhile_imp hmem
          · rw [braced, List.append_assoc, List.cons_append, List.cons_append]
            exact congrArg (fun inner => '\x7b' :: '\x7b' :: inner) hsplit.symm
      · cases h
    · cases h
  · rintro ⟨h, rfl⟩
    exact hole?_braced h rest

/-! ## Reading what is written -/

theorem scan_skip (skip : Nat) (cs : List Char) : scan skip cs = scan 0 (cs.drop skip) := by
  induction skip generalizing cs with
  | zero => rfl
  | succ skip ih =>
    cases cs with
    | nil => rfl
    | cons c cs => exact ih cs

theorem scan_braced (h : IsReference reference) (rest : List Char) :
    scan 0 (braced reference ++ rest) = .hole reference :: scan 0 rest := by
  have hhole := hole?_braced h rest
  rw [braced, List.append_assoc, List.cons_append] at hhole ⊢
  rw [scan, hhole]
  simp only
  rw [scan_skip]
  simp

theorem scan_literal (h : (Segment.literal cs).Proper) (rest : List Char) :
    scan 0 (cs ++ rest) = cs.map .char ++ scan 0 rest := by
  induction cs with
  | nil => rfl
  | cons c cs ih =>
    have htail : (Segment.literal cs).Proper :=
      ⟨fun hin => h.1 (List.infix_cons hin), fun hend => h.2 (hend.trans (List.suffix_cons c cs))⟩
    -- A placeholder in front takes two braces: both from the piece, or its last character and one
    -- from what follows.
    have hnone : hole? (c :: (cs ++ rest)) = none := by
      rw [Option.eq_none_iff_forall_ne_some]
      rintro ⟨reference, behind⟩ hhole
      obtain ⟨-, hbraced⟩ := hole?_eq_some_iff.1 hhole
      obtain ⟨rfl, hbehind⟩ := List.cons.inj hbraced
      cases cs with
      | nil => exact h.2 (List.suffix_refl _)
      | cons c' cs =>
        obtain ⟨rfl, -⟩ := List.cons.inj hbehind
        exact h.1 ⟨[], cs, rfl⟩
    rw [List.cons_append, scan, hnone, ih htail]
    rfl

/-- **What is written piece by piece is read piece by piece.** -/
theorem scan_written {segments : List Segment} (h : ∀ s ∈ segments, s.Proper) :
    scan 0 (segments.flatMap Segment.written) = segments.flatMap Segment.reading := by
  induction segments with
  | nil => rfl
  | cons s segments ih =>
    rw [List.flatMap_cons, List.flatMap_cons, ← ih fun s hs => h s (List.mem_cons_of_mem _ hs)]
    cases s with
    | literal cs => exact scan_literal (h _ List.mem_cons_self) _
    | placeholder reference => exact scan_braced (h _ List.mem_cons_self) _

/-! ## Filling in what is read -/

/-- The characters that some pieces become. -/
def fill (context : Context) (read : List Piece) : Attempt (List Char) :=
  (read.mapM (Piece.fill context)).map List.flatten

theorem interpolate_eq (template : String) : interpolate context template =
    (fill context (scan 0 template.toList)).map String.ofList := by
  rw [interpolate, fill]
  cases (scan 0 template.toList).mapM (Piece.fill context) <;> rfl

theorem fill_cons (p : Piece) (read : List Piece) : fill context (p :: read) =
    p.fill context >>= fun front => (fill context read).map (front ++ ·) := by
  rw [fill, fill, List.mapM_cons]
  cases p.fill context with
  | error f => rfl
  | ok front => cases read.mapM (Piece.fill context) <;> rfl

theorem fill_append (read read' : List Piece) : fill context (read ++ read') =
    fill context read >>= fun front => (fill context read').map (front ++ ·) := by
  rw [fill, fill, fill, List.mapM_append]
  cases read.mapM (Piece.fill context) with
  | error f => rfl
  | ok parts =>
    cases read'.mapM (Piece.fill context) with
    | error f => rfl
    | ok parts' => exact congrArg Except.ok List.flatten_append

theorem fill_char (cs : List Char) : fill context (cs.map .char) = .ok cs := by
  induction cs with
  | nil => rfl
  | cons c cs ih =>
    rw [List.map_cons, fill_cons, ih]
    rfl

open Segment in
theorem fill_reading (s : Segment) : fill context s.reading = s.filled context := by
  cases s with
  | literal cs => exact fill_char cs
  | placeholder reference =>
    have hhole : (Piece.hole reference).fill context = (placeholder reference).filled context := rfl
    rw [reading, fill_cons, hhole]
    cases (placeholder reference).filled context with
    | error f => rfl
    | ok part => exact congrArg Except.ok (List.append_nil part)

/-- Pieces that are filled in become what the pieces that were written become. -/
theorem fill_written (segments : List Segment) : fill context (segments.flatMap Segment.reading) =
    (segments.mapM (Segment.filled context)).map List.flatten := by
  induction segments with
  | nil => rfl
  | cons s segments ih =>
    rw [List.flatMap_cons, fill_append, fill_reading, ih, List.mapM_cons]
    cases s.filled context with
    | error f => rfl
    | ok front => cases segments.mapM (Segment.filled context) <;> rfl

/-- **A template that is written piece by piece is filled in piece by piece.** -/
theorem interpolate_written {segments : List Segment} (h : ∀ s ∈ segments, s.Proper) :
    interpolate context (String.ofList (segments.flatMap Segment.written)) =
      (segments.mapM (Segment.filled context)).map fun parts => String.ofList parts.flatten := by
  rw [interpolate_eq, String.toList_ofList, scan_written h, fill_written]
  cases segments.mapM (Segment.filled context) <;> rfl

theorem fill_hole_some {v : Value} (hv : context.lookup reference = some v) :
    (Piece.hole reference).fill context = (v.toText context.toScopes).map String.toList := by
  simp only [Piece.fill, hv]

theorem fill_hole_none (hnone : context.lookup reference = none) :
    (Piece.hole reference).fill context = .ok (braced reference) := by
  simp only [Piece.fill, hnone]

theorem fill_hole_ok (h : context.SaysJson) (reference : List Char) :
    ∃ part, (Piece.hole reference).fill context = .ok part := by
  cases hv : context.lookup reference with
  | none => exact ⟨_, fill_hole_none hv⟩
  | some v =>
    obtain ⟨s, hs⟩ : ∃ s, v.toText context.toScopes = .ok s := (h.lookup hv).toText_ok
    exact ⟨s.toList, by rw [fill_hole_some hv, hs]; rfl⟩

/-- **In a context of JSON values every template can be filled in.** -/
theorem interpolate_ok (h : context.SaysJson) (template : String) :
    ∃ s, interpolate context template = .ok s := by
  obtain ⟨parts, hparts⟩ : ∃ parts,
      (scan 0 template.toList).mapM (Piece.fill context) = .ok parts := by
    refine Attempt.mapM_total fun piece _ => ?_
    cases piece with
    | char c => exact ⟨[c], rfl⟩
    | hole reference => exact fill_hole_ok h reference
  exact ⟨String.ofList parts.flatten, by rw [interpolate, hparts]; rfl⟩

/-- **What a template becomes.** Written of literal pieces that open no placeholder and of
placeholders, it becomes what its pieces become, one after the other: the literal ones themselves,
and for a placeholder the text of the value it refers to, whatever braces that has, or the
placeholder itself. In a context of JSON values nothing of this can fail. -/
theorem interpolate_segments (context : Context) {segments : List Segment}
    (proper : ∀ s ∈ segments, s.Proper) :
    interpolate context (String.ofList (segments.flatMap Segment.written)) =
      (segments.mapM (Segment.filled context)).map (fun parts => String.ofList parts.flatten) ∧
    (context.SaysJson → ∃ parts, segments.mapM (Segment.filled context) = .ok parts ∧
      interpolate context (String.ofList (segments.flatMap Segment.written)) =
        .ok (String.ofList parts.flatten)) := by
  refine ⟨interpolate_written proper, fun hcontext => ?_⟩
  obtain ⟨parts, hparts⟩ : ∃ parts, segments.mapM (Segment.filled context) = .ok parts := by
    refine Attempt.mapM_total fun s _ => ?_
    cases s with
    | literal cs => exact ⟨cs, rfl⟩
    | placeholder reference => exact fill_hole_ok hcontext reference
  exact ⟨parts, hparts, by rw [interpolate_written proper, hparts]; rfl⟩

/-- A context in which one variable holds the placeholder of another. -/
def bracedContext : Context where
  vars := [(.text "\x7bx", .text "\x7b\x7by\x7d\x7d"), (.text "y", .bool true)]

theorem bracedContext_saysJson : bracedContext.SaysJson where
  vars := by
    intro e he
    simp only [bracedContext, List.mem_cons, List.not_mem_nil, or_false] at he
    rcases he with rfl | rfl
    · exact .text _ none
    · exact .bool true
  outputs := fun _ he => absurd he List.not_mem_nil
  previous := .null

/-- The pieces of a template: braces at their borders, a placeholder that refers to a text which
looks like a placeholder, and one that refers to nothing. -/
def bracedSegments : List Segment :=
  [.literal ['\x7d', '\x7b', 'a'], .placeholder ['\x7b', 'x'], .literal ['\x7d', ' '],
    .placeholder ['z']]

theorem interpolate_segments_braced :
    (∀ s ∈ bracedSegments, s.Proper) ∧ bracedContext.SaysJson ∧
    interpolate bracedContext "\x7d\x7ba\x7b\x7b\x7bx\x7d\x7d\x7d \x7b\x7bz\x7d\x7d" =
      .ok "\x7d\x7ba\x7b\x7by\x7d\x7d\x7d \x7b\x7bz\x7d\x7d" := by
  have hproper : ∀ s ∈ bracedSegments, s.Proper := by
    simp only [bracedSegments, List.mem_cons, List.not_mem_nil, or_false]
    rintro s (rfl | rfl | rfl | rfl)
    · exact ⟨by decide, by decide⟩
    · exact ⟨by decide, by decide⟩
    · exact ⟨by decide, by decide⟩
    · exact ⟨by decide, by decide⟩
  obtain ⟨parts, hparts, hfilled⟩ :=
    (interpolate_segments bracedContext hproper).2 bracedContext_saysJson
  obtain rfl : parts = [['\x7d', '\x7b', 'a'], braced ['y'], ['\x7d', ' '], braced ['z']] :=
    (Except.ok.inj hparts).symm
  exact ⟨hproper, bracedContext_saysJson, hfilled⟩

/-! ## Texts that are a single placeholder -/

/-- A text is a single placeholder with nothing but blanks around. -/
structure Lone (cs front reference back : List Char) : Prop where
  shape : cs = front ++ braced reference ++ back
  blankFront : ∀ c ∈ front, isBlank c = true
  blankBack : ∀ c ∈ back, isBlank c = true
  reference : IsReference reference

theorem trimFront_blank {front : List Char} (h : ∀ c ∈ front, isBlank c = true)
    (reference back : List Char) :
    trimFront (front ++ (braced reference ++ back)) = braced reference ++ back := by
  rw [trimFront, List.dropWhile_append_of_pos h]
  rfl

/-- **A text is read as a single placeholder exactly if it is one between blanks.** -/
theorem single?_eq_some_iff :
    single? cs = some reference ↔ ∃ front back, Lone cs front reference back := by
  constructor
  · intro h
    unfold single? at h
    split at h
    · next body tail hhole =>
      split at h
      · next hback =>
        obtain rfl := Option.some.inj h
        obtain ⟨hreference, hrest⟩ := hole?_eq_some_iff.1 hhole
        refine ⟨cs.takeWhile isBlank, tail, ⟨?_, ?_, ?_, hreference⟩⟩
        · rw [List.append_assoc, ← hrest]
          exact List.takeWhile_append_dropWhile.symm
        · exact fun c hc => List.mem_takeWhile_imp hc
        · simpa using hback
      · cases h
    · cases h
  · rintro ⟨front, back, h⟩
    have hback : back.all isBlank = true := by simpa using h.blankBack
    rw [h.shape, List.append_assoc, single?, trimFront_blank h.blankFront,
      hole?_braced h.reference]
    exact if_pos hback

theorem proper_blank (h : ∀ c ∈ cs, isBlank c = true) : (Segment.literal cs).Proper := by
  have hbrace : '\x7b' ∉ cs := fun hmem => absurd (h _ hmem) (by decide)
  exact ⟨fun hin => hbrace (hin.subset List.mem_cons_self),
    fun hend => hbrace (hend.subset List.mem_cons_self)⟩

theorem interpolate_lone {template : String} {front back : List Char}
    (h : Lone template.toList front reference back) : interpolate context template =
      ((Piece.hole reference).fill context).map fun part =>
        String.ofList front ++ String.ofList part ++ String.ofList back := by
  -- Blanks open no placeholder, so the text is written of three proper pieces.
  have hproper : ∀ s ∈ [Segment.literal front, .placeholder reference, .literal back],
      s.Proper := by
    simpa using ⟨proper_blank h.blankFront, h.reference, proper_blank h.blankBack⟩
  have htemplate : template = String.ofList
      ([Segment.literal front, .placeholder reference, .literal back].flatMap Segment.written) := by
    rw [← String.ofList_toList (s := template), h.shape]
    simp [Segment.written]
  have hhole : (Segment.placeholder reference).filled context =
      (Piece.hole reference).fill context := rfl
  rw [htemplate, interpolate_written hproper, List.mapM_cons, List.mapM_cons, List.mapM_cons, hhole,
    Segment.filled, Segment.filled]
  cases (Piece.hole reference).fill context with
  | error f => rfl
  | ok part =>
    refine congrArg Except.ok ?_
    simp [String.append_assoc]

theorem resolve_lone {template : String} {front back : List Char} {mark : Option Stamp}
    (h : Lone template.toList front reference back) : resolve context (.text template mark) =
      .ok ((context.lookup reference).getD (.text template mark)) := by
  have hsingle := single?_eq_some_iff.2 ⟨front, back, h⟩
  simp only [resolve, hsingle]

/-- A text in which no placeholder is found is read as its characters. -/
theorem scan_of_no_hole (h : ∀ reference, .hole reference ∉ scan 0 cs) :
    scan 0 cs = cs.map .char := by
  induction cs with
  | nil => rfl
  | cons c cs ih =>
    rw [scan] at h ⊢
    split at h
    · exact absurd List.mem_cons_self (h _)
    · exact congrArg (Piece.char c :: ·)
        (ih fun reference hmem => h reference (List.mem_cons_of_mem _ hmem))

theorem interpolate_of_no_hole {template : String} (h : hasHole template = false) :
    interpolate context template = .ok template := by
  have hnone : ∀ reference, .hole reference ∉ scan 0 template.toList := fun reference hmem =>
    List.any_eq_false.1 h _ hmem rfl
  rw [interpolate_eq, scan_of_no_hole hnone, fill_char]
  exact congrArg Except.ok String.ofList_toList

theorem resolve_of_not_lone {template : String} (mark : Option Stamp)
    (h : single? template.toList = none) : ∃ mark',
      resolve context (.text template mark) = (interpolate context template).map (.text · mark') := by
  simp only [resolve, h]
  -- Without any placeholder the text itself is handed on, with the place where it was made.
  cases hhole : hasHole template with
  | true => exact ⟨none, rfl⟩
  | false =>
    rw [interpolate_of_no_hole hhole]
    exact ⟨mark, rfl⟩

/-- **The two ways to read a template agree.** A text that is one placeholder between blanks is
resolved to the value that the placeholder refers to and filled in with the text of that value
between the blanks; if it refers to nothing it stays in both. Any other text is resolved to what it
is filled in to. In a context of JSON values nothing of this can fail. -/
theorem resolve_interpolate (context : Context) (template : String) (mark : Option Stamp) :
    (∀ front reference back, Lone template.toList front reference back →
      (∀ v, context.lookup reference = some v →
        resolve context (.text template mark) = .ok v ∧
        interpolate context template = (v.toText context.toScopes).map fun s =>
          String.ofList front ++ s ++ String.ofList back) ∧
      (context.lookup reference = none →
        resolve context (.text template mark) = .ok (.text template mark) ∧
        interpolate context template = .ok template)) ∧
    ((¬ ∃ front reference back, Lone template.toList front reference back) → ∃ mark',
      resolve context (.text template mark) =
        (interpolate context template).map (.text · mark')) ∧
    (context.SaysJson → ∃ s, interpolate context template = .ok s) := by
  refine ⟨fun front reference back hlone => ⟨fun v hv => ?_, fun hnone => ?_⟩, fun hnot => ?_,
    fun hcontext => interpolate_ok hcontext template⟩
  · rw [resolve_lone hlone, interpolate_lone hlone, fill_hole_some hv, hv]
    refine ⟨rfl, ?_⟩
    cases v.toText context.toScopes with
    | error f => rfl
    | ok s => exact congrArg (fun s => Except.ok (_ ++ s ++ _)) String.ofList_toList
  · rw [resolve_lone hlone, interpolate_lone hlone, fill_hole_none hnone, hnone]
    refine ⟨rfl, congrArg Except.ok ?_⟩
    simp only [← String.ofList_append, ← hlone.shape, String.ofList_toList]
  · refine resolve_of_not_lone mark (Option.eq_none_iff_forall_ne_some.2 fun reference hsingle => ?_)
    obtain ⟨front, back, hlone⟩ := single?_eq_some_iff.1 hsingle
    exact hnot ⟨front, reference, back, hlone⟩

theorem lone_y : Lone [' ', '\x7b', '\x7b', 'y', '\x7d', '\x7d', '\n'] [' '] ['y'] ['\n'] where
  shape := rfl
  blankFront := List.forall_mem_singleton.2 rfl
  blankBack := List.forall_mem_singleton.2 rfl
  reference := ⟨by decide, by decide⟩

theorem resolve_interpolate_braced :
    Lone [' ', '\x7b', '\x7b', 'y', '\x7d', '\x7d', '\n'] [' '] ['y'] ['\n'] ∧
    resolve bracedContext (.text " \x7b\x7by\x7d\x7d\n") = .ok (.bool true) ∧
    interpolate bracedContext " \x7b\x7by\x7d\x7d\n" = .ok " true\n" := by
  obtain ⟨hlone, -, -⟩ := resolve_interpolate bracedContext " \x7b\x7by\x7d\x7d\n" none
  obtain ⟨hresolved, hfilled⟩ := (hlone [' '] ['y'] ['\n'] lone_y).1 (.bool true) rfl
  exact ⟨lone_y, hresolved, hfilled⟩

end Template

end WorkflowEngine
