import WorkflowEngine.Value.Basic

/-!
# Comparing values

Two relations. Values are equal if they look alike, numbers counting by their size; two references
are the same if they lead to one value, which the place where it was made decides. Values of which
there is one copy only are the same whenever they are equal.
-/

namespace WorkflowEngine.Value

/-- Whether two values that can be looked up by are equal. -/
def equalKeys (v w : Value) : Bool :=
  match v.key?, w.key? with
  | some k, some k' => k.same k'
  | _, _ => false

mutual

/-- Whether two values look alike. -/
def equal : Value → Value → Bool
  | .list vs _, .list ws _ => equalAll vs ws
  | .tuple vs _, .tuple ws _ => equalAll vs ws
  | .set ks _ _, .set ks' _ _ =>
    ks.all (fun k => ks'.any k.same) && ks'.all (fun k => ks.any k.same)
  | .dict es _, .dict es' _ => es.length == es'.length && equalFields es es'
  | .live s, .live s' => s == s'
  | .enclosing bracket up, .enclosing bracket' up' => bracket == bracket' && up == up'
  | v, w => equalKeys v w

/-- Whether two rows of values look alike. -/
def equalAll : List Value → List Value → Bool
  | [], [] => true
  | v :: vs, w :: ws => equal v w && equalAll vs ws
  | _, _ => false

/-- Whether every entry is one of the others. -/
def equalFields : Fields → Fields → Bool
  | [], _ => true
  | (k, v) :: rest, es =>
    (match es.find? fun e => e.1.same k with
      | some (_, w) => equal v w
      | none => false) && equalFields rest es

end

/-- Where the value was made, for the values of which there may be several copies. -/
def mark? : Value → Option Stamp
  | .null | .bool _ | .ellipsis | .live _ | .enclosing _ _ => none
  | .int _ m | .float _ m | .text _ m | .bytes _ m | .moment _ m | .day _ m | .complex _ _ m
  | .thing _ m | .list _ m | .tuple _ m | .set _ _ m | .dict _ m => m

/-- Whether all copies of the value are one: small integers, texts of at most one Latin character,
and whatever is a constant. -/
def isShared : Value → Bool
  | .null | .bool _ | .ellipsis | .live _ | .enclosing _ _ => true
  | .int n _ => -5 ≤ n && n ≤ 256
  | .text s _ =>
    match s.toList with
    | [] => true
    | [c] => c.toNat < 256
    | _ => false
  | .bytes bs _ => bs.isEmpty
  | .tuple items _ => items.isEmpty
  | _ => false

/-- Whether two references lead to one value. -/
def same (v w : Value) : Bool :=
  if v.isShared && w.isShared then v.equal w
  else
    match v.mark?, w.mark? with
    | some m, some m' => m == m'
    | _, _ => false

mutual

/-- Notes, for every part that does not know yet where it was made, that it was made here. -/
def fill (source : Source) (path : List Nat) : Value → Value
  | .int n none => .int n (some ⟨source, path⟩)
  | .float x none => .float x (some ⟨source, path⟩)
  | .text s none => .text s (some ⟨source, path⟩)
  | .bytes bs none => .bytes bs (some ⟨source, path⟩)
  | .moment t none => .moment t (some ⟨source, path⟩)
  | .day d none => .day d (some ⟨source, path⟩)
  | .complex re im none => .complex re im (some ⟨source, path⟩)
  | .thing t none => .thing t (some ⟨source, path⟩)
  | .set ks frozen none => .set ks frozen (some ⟨source, path⟩)
  | .list vs none => .list (fillAll source path 0 vs) (some ⟨source, path⟩)
  | .tuple vs none => .tuple (fillAll source path 0 vs) (some ⟨source, path⟩)
  | .dict es none => .dict (fillFields source path 0 es) (some ⟨source, path⟩)
  | v => v

/-- The same for the items of a row, counted from `i`. -/
def fillAll (source : Source) (path : List Nat) (i : Nat) : List Value → List Value
  | [] => []
  | v :: vs => fill source (i :: path) v :: fillAll source path (i + 1) vs

/-- The same for the entries of an object, counted from `i`. -/
def fillFields (source : Source) (path : List Nat) (i : Nat) : Fields → Fields
  | [] => []
  | (k, v) :: rest => (k, fill source (i :: path) v) :: fillFields source path (i + 1) rest

end

/-- Where a value was made does not show in whether it counts as true. -/
@[simp] theorem isTrue_fill (scopes : Scopes) (source : Source) (path : List Nat) (v : Value) :
    (v.fill source path).isTrue scopes = v.isTrue scopes := by
  cases v with
  | list vs mark => cases mark <;> cases vs <;> rfl
  | tuple vs mark => cases mark <;> cases vs <;> rfl
  | dict es mark => cases mark <;> cases es <;> rfl
  | int _ mark | float _ mark | text _ mark | bytes _ mark | moment _ mark | day _ mark
  | complex _ _ mark | thing _ mark | set _ _ mark => cases mark <;> rfl
  | null | bool | ellipsis | live | enclosing => rfl

/-- An entry of a table is found under its key, made where the table says. -/
theorem lookup_fillFields (source : Source) (path : List Nat) (i : Nat) (es : Fields) (k : Key) :
    ∃ path', (fillFields source path i es).lookup k = (es.lookup k).map (fill source path') := by
  induction es generalizing i with
  | nil => exact ⟨[], rfl⟩
  | cons e rest ih =>
    obtain ⟨k', v⟩ := e
    simp only [fillFields, List.lookup_cons]
    cases k == k' with
    | true => exact ⟨i :: path, rfl⟩
    | false => exact ih (i + 1)

/-- The value, made by the given source. -/
def madeBy (source : Source) (v : Value) : Value := v.fill source []

end WorkflowEngine.Value
