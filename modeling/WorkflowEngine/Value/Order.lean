import WorkflowEngine.Value.Compare

/-!
# Order of keys and values

Texts are ordered by their code points and numbers by their size. Keys of different kinds have no
order, and a row of which two have none cannot be sorted. Of the values that JSON can say lists have
an order too, that of the first items in which they differ.
-/

namespace WorkflowEngine.Key

/-- The order of two numbers; `none` if they are not both numbers. -/
def compareNumbers? (a b : Key) : Option Ordering :=
  match a.canonical, b.canonical with
  | .int m, .int n => some (compare m n)
  | .int m, .float y => Number.compareInt? m y
  | .float x, .int n => (Number.compareInt? n x).map Ordering.swap
  | .float x, .float y => Number.compare? x y
  | _, _ => none

/-- The order of two keys, if they have one. -/
def compare? (a b : Key) : Option Ordering :=
  match a, b with
  | .text s, .text t => some (compare s t)
  | _, _ => compareNumbers? a b

/-- Whether every two of some keys have an order. -/
def areOrdered (ks : List Key) : Bool := ks.all fun a => ks.all fun b => (compare? a b).isSome

/-- Things sorted by their keys, equal ones in their former order; a row of one needs no order. -/
def sortBy {α : Type} (key : α → Key) (before : Ordering) (items : List α) : Attempt (List α) :=
  if items.length ≤ 1 then .ok items
  else if areOrdered (items.map key) then
    .ok (items.mergeSort fun a b =>
      match compare? (key a) (key b) with
      | some o => o == before || o == .eq
      | none => true)
  else .fault .mismatched

/-- Keys in ascending order. -/
def sorted (ks : List Key) : Attempt (List Key) := sortBy id .lt ks

/-- Whether a key is a number that has an order. -/
def isReal : Key → Bool
  | .bool _ | .int _ | .float _ => true
  | _ => false

/-- Whether a key comes before another; `none` if they are of kinds without an order. What is no
number in spite of its type (NaN) comes neither before a number nor behind it. -/
def less? (a b : Key) : Option Bool :=
  match a, b with
  | .text s, .text t => some (decide (s < t))
  | _, _ => if a.isReal && b.isReal then some (compareNumbers? a b == some .lt) else none

end WorkflowEngine.Key

namespace WorkflowEngine.Value

mutual

/-- Whether a value that JSON can say comes before another; `none` if there is no order. -/
def less? : Value → Value → Option Bool
  | .list vs _, .list ws _ => lessAll? vs ws
  | v, w =>
    match v.key?, w.key? with
    | some a, some b => a.less? b
    | _, _ => none

/-- The order of two rows is that of the first items in which they differ, and if there are none that
of their lengths. -/
def lessAll? : List Value → List Value → Option Bool
  | v :: vs, w :: ws => if v.equal w then lessAll? vs ws else less? v w
  | [], _ :: _ => some true
  | _, [] => some false

end

end WorkflowEngine.Value
