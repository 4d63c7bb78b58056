import WorkflowEngine.Failure

/-!
# Sorting by a comparison

Stable sorting: the longest run that is in order already, or in strictly falling order and then
turned round, is taken as it is, and every further item is put into its place by binary search. Of
items that compare equal the earlier stays in front, in descending order too. A comparison may fail,
and then the sort does, but only two items that meet are compared.
-/

namespace WorkflowEngine.Sorting

variable {m : Type → Type} [Monad m] {α : Type}

/-- Puts an item into a sorted row, behind the items that do not come after it. -/
def insertBinary (less : α → α → m Bool) (x : α) (xs : List α) : m (List α) :=
  match _h : xs.drop (xs.length / 2) with
  | [] => pure [x]
  | middle :: right => do
    if ← less x middle then
      let front ← insertBinary less x (xs.take (xs.length / 2))
      pure (front ++ middle :: right)
    else
      let back ← insertBinary less x right
      pure (xs.take (xs.length / 2) ++ middle :: back)
termination_by xs.length
decreasing_by
  · have := congrArg List.length _h
    simp only [List.length_drop, List.length_cons] at this
    simp only [List.length_take]
    omega
  · have := congrArg List.length _h
    simp only [List.length_drop, List.length_cons] at this
    omega

/-- The items in front that follow `last` in falling order, or without falling, and the rest. -/
def runBehind (falling : Bool) (less : α → α → m Bool) (last : α) :
    List α → m (List α × List α)
  | [] => pure ([], [])
  | x :: xs => do
    let falls ← less x last
    if falls == falling then
      let (run, rest) ← runBehind falling less x xs
      pure (x :: run, rest)
    else pure ([], x :: xs)

/-- The run in front, in rising order, and the rest. -/
def firstRun (less : α → α → m Bool) : List α → m (List α × List α)
  | [] => pure ([], [])
  | [x] => pure ([x], [])
  | x :: y :: xs => do
    let falling ← less y x
    let (run, rest) ← runBehind falling less y xs
    let run := x :: y :: run
    pure (if falling then run.reverse else run, rest)

/-- The items in rising order. -/
def sort (less : α → α → m Bool) (xs : List α) : m (List α) := do
  let (run, rest) ← firstRun less xs
  rest.foldlM (fun sorted x => insertBinary less x sorted) run

/-- The items in rising or falling order. -/
def sortIn (descending : Bool) (less : α → α → m Bool) (xs : List α) : m (List α) :=
  if descending then List.reverse <$> sort less xs.reverse else sort less xs

end WorkflowEngine.Sorting
