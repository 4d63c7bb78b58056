import WorkflowEngine.Journal
import WorkflowEngine.Settings
import WorkflowEngine.Storage.Files
import WorkflowEngine.Time.Calendar

/-!
# The world of a run

What lies outside a workflow and yet decides what its nodes do: the clock, the answers to requests,
the store, and the journal. Everything a run does to the world can be read off it afterwards.
-/

namespace WorkflowEngine

open Number

/-- An answer to a request. -/
structure Response where
  status : Int
  /-- What the status stands for, if the answer says so. -/
  reason : Option String
  headers : List (String × Value)
  body : String
  deriving Inhabited

/-- A call to the hosted store: its name, its arguments, and its arguments by name. -/
structure Call where
  name : String
  arguments : List Value := []
  named : List (String × Value) := []
  deriving Inhabited

/-- The hosted store: what it answers, the call at which it fails, and the calls it has received. -/
structure Hosted where
  answer : Value := .null
  failure : Option (String × Failure) := none
  calls : List Call := []
  deriving Inhabited

/-- What serves the runs of a mode: the store that the mode chooses. Containers are numbered, so
that one that is built anew can be told from the one before. -/
structure Container where
  number : Nat
  mode : String
  backend : Backend
  deriving DecidableEq, Inhabited, Repr

/-- The world of a run. -/
structure World where
  settings : Settings := .standard
  clock : Instant := 0
  /-- The waits so far, in seconds. -/
  sleeps : List Float := []
  /-- The wait, counted from the present one, at which the user interrupts. -/
  interruptAfter : Option Nat := none
  /-- The answers to the requests to come. -/
  replies : List (Attempt Response) := []
  /-- What a request meets when no answer is left. -/
  silence : Failure := .outside "ConnectionError" "no connection"
  /-- The requests so far. -/
  requests : List Value := []
  backend : Backend := .local
  /-- The place of the folder in which the program was started. -/
  workingFolder : List String := []
  files : Files := []
  hosted : Hosted := {}
  /-- The number of records that have been given an identifier. -/
  issued : Nat := 0
  /-- The containers that are kept, by mode. -/
  containers : List (String × Container) := []
  /-- The number of containers that have been built. -/
  built : Nat := 0
  tag : Tag := {}
  /-- The entries so far, the last in front. -/
  journal : List Entry := []
  deriving Inhabited

namespace World

/-- The world with an event in its journal. -/
def note (w : World) (event : Event) : World := { w with journal := ⟨w.tag, event⟩ :: w.journal }

/-- The lines of the journal, in order. -/
def lines (w : World) : List String := w.journal.reverse.map Entry.line

/-- The time of the clock as it is written. -/
def now (w : World) : String := isoText w.clock

/-- The time of the clock in seconds. -/
def seconds (w : World) : Float := ofQuotient w.clock 1000000

/-- The world after a wait, of which the clock counts whole microseconds. -/
def afterSleep (w : World) (seconds : Float) : World :=
  let micro := (roundEven? (seconds * 1000000)).getD 0
  { w with clock := w.clock + micro.toNat, sleeps := w.sleeps ++ [seconds] }

/-- Waits. A wait in which the user interrupts takes no time. -/
def sleep (w : World) (seconds : Float) : Attempt Unit × World :=
  match w.interruptAfter with
  | some 0 => (.ok (), w.afterSleep seconds)
  | some 1 =>
    (.error .interrupted, { w with sleeps := w.sleeps ++ [seconds], interruptAfter := some 0 })
  | some (n + 2) => (.ok (), { w.afterSleep seconds with interruptAfter := some (n + 1) })
  | none => (.ok (), w.afterSleep seconds)

/-- Sends a request. -/
def request (w : World) (arguments : Value) : Attempt Response × World :=
  let w := { w with requests := w.requests ++ [arguments] }
  match w.replies with
  | reply :: rest => (reply, { w with replies := rest })
  | [] => (.error w.silence, w)

/-- The identifier of the next record. -/
def newId (w : World) : String × World :=
  let n := w.issued + 1
  (padded 8 n ++ "-0000-4000-8000-000000000000", { w with issued := n })

end World

end WorkflowEngine
