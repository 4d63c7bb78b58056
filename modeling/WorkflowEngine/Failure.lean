import WorkflowEngine.Number.Printed
import WorkflowEngine.Text.Quoted

/-!
# Failures

The causes for which a piece of work is given up, their kinds and their wording. A cause is data;
`Failure.message?` is the only place that words it.
-/

namespace WorkflowEngine

open Number Text

/-- What is wrong with the settings of a node. -/
inductive SettingFault where
  /-- Something that the node cannot do without is missing. -/
  | requires (node what : String)
  /-- The items of a loop are no list. -/
  | itemsNotListed
  /-- An entry of a set-variable node has no key. -/
  | entryWithoutKey
  /-- The rules of a switch are no list. -/
  | rulesNotListed
  /-- A rule of a switch compares in an unknown way. -/
  | unknownOperator (operator : String)
  /-- A wait is given in an unknown unit. -/
  | unknownUnit (unit : String)
  /-- A wait is negative or no number. -/
  | durationNotANumber
  /-- A wait is longer than the settings allow. -/
  | durationTooLong
  deriving DecidableEq, Repr

/-- The wording of a fault in the settings of a node. -/
def SettingFault.message : SettingFault → String
  | .requires node what => node ++ " requires " ++ what
  | .itemsNotListed => "Loop items must be an array"
  | .entryWithoutKey => "Set Variable entries require a key"
  | .rulesNotListed => "Switch node rules must be a list"
  | .unknownOperator operator => "Switch node has unsupported operator '" ++ operator ++ "'"
  | .unknownUnit unit => "Wait node has unsupported unit '" ++ unit ++ "'"
  | .durationNotANumber => "Wait duration must be a non-negative number"
  | .durationTooLong => "Wait duration cannot exceed 1 hour"

/-- What is wrong with the definition of a workflow. -/
inductive FormatFault where
  /-- The text is no JSON; the reader's complaint. -/
  | notJson (complaint : String)
  /-- The definition is no object. -/
  | notAnObject
  /-- The nodes or the edges are no list. -/
  | notListed (part : String)
  /-- The identifier of the workflow cannot name a file. -/
  | unsafeId (id : String)
  /-- A node or an edge is no object. -/
  | itemNotAnObject (item : String) (index : Nat)
  /-- A node or an edge lacks a part. -/
  | lacks (item name what : String)
  /-- The data or the settings of a node are no object. -/
  | partNotAnObject (name part : String)
  deriving DecidableEq, Repr

/-- The wording of a fault in the definition of a workflow. -/
def FormatFault.message : FormatFault → String
  | .notJson complaint => "Workflow is not valid JSON: " ++ complaint
  | .notAnObject => "Workflow must be a JSON object"
  | .notListed part => "Workflow " ++ part ++ " must be a list"
  | .unsafeId id =>
    "Workflow id " ++ quoted id ++ " must not contain path separators or '..'"
  | .itemNotAnObject item index => item ++ " " ++ natText index ++ " must be an object"
  | .lacks item name what => item ++ " " ++ name ++ " is missing " ++ what
  | .partNotAnObject name part => "Node " ++ name ++ " " ++ part ++ " must be an object"

/-- What goes wrong with data of an unexpected shape or size. -/
inductive DataFault where
  /-- An entry is missing; the quoted key. -/
  | missingKey (quotedKey : String)
  /-- A row has no such place. -/
  | missingPlace
  /-- A value has no part or operation of that name. -/
  | missingMember
  /-- A value is of a kind that an operation does not take. -/
  | mismatched
  /-- A value is of the right kind and yet unusable. -/
  | malformed
  /-- A number is too large. -/
  | tooLarge
  /-- Bytes do not write a text. -/
  | undecodable
  /-- A text cannot be encoded. -/
  | unencodable
  /-- The system refuses a file operation. -/
  | refused
  /-- A file is to be written in a folder that is not there. -/
  | absent
  /-- A value that is no text stands where only texts can be shown. -/
  | unshowable
  deriving DecidableEq, Repr

/-- The kind of a data fault, as records name it. -/
def DataFault.kind : DataFault → String
  | .missingKey _ => "KeyError"
  | .missingPlace => "IndexError"
  | .missingMember => "AttributeError"
  | .mismatched => "TypeError"
  | .malformed => "ValueError"
  | .tooLarge => "OverflowError"
  | .undecodable => "UnicodeDecodeError"
  | .unencodable => "UnicodeEncodeError"
  | .refused => "OSError"
  | .absent => "FileNotFoundError"
  | .unshowable => "NotRenderableError"

/-- The cause for which a piece of work is given up. -/
inductive Failure where
  /-- The settings of a node are unusable. -/
  | setting (fault : SettingFault)
  /-- The definition of a workflow is unusable. -/
  | format (fault : FormatFault)
  /-- No node of the workflow can start a run. -/
  | noTrigger
  /-- A run has made more visits than its budget allows. -/
  | visitLimit (budget : Int)
  /-- A run is started for a reason that is not known. -/
  | unknownReason (reason : String)
  /-- A workflow without an identifier cannot be saved. -/
  | workflowWithoutId
  /-- An identifier that cannot name a file; the quoted identifier. -/
  | unsafeRecordId (quotedId : String)
  /-- The hosted store is chosen without its address or its key. -/
  | noCredentials
  /-- A branching executor has answered without a branch. -/
  | noBranch
  /-- A store-data node has nowhere to store. -/
  | noStorage
  /-- A loop is executed outside a run. -/
  | loopOutsideRun (loop : String)
  /-- Something outside the library has failed, with its own kind and wording. -/
  | outside (kind message : String)
  /-- Data of an unexpected shape or size. -/
  | data (fault : DataFault)
  /-- The user has interrupted the work. -/
  | interrupted
  deriving DecidableEq, Repr

/-- The reasons for which a run may be started. -/
def triggerReasons : List String := ["manual", "webhook", "schedule"]

/-- The name of the kind of a failure, as records show it. -/
def Failure.kind : Failure → String
  | .setting _ => "ConfigurationError"
  | .format _ => "WorkflowFormatError"
  | .noTrigger => "MissingTriggerError"
  | .visitLimit _ => "ExecutionLimitError"
  | .unknownReason _ | .workflowWithoutId | .unsafeRecordId _ | .noCredentials => "ValueError"
  | .noBranch => "TypeError"
  | .noStorage | .loopOutsideRun _ => "RuntimeError"
  | .outside kind _ => kind
  | .data fault => fault.kind
  | .interrupted => "KeyboardInterrupt"

/-- The wording of a failure, for the causes that have one. -/
def Failure.message? : Failure → Option String
  | .setting fault => some fault.message
  | .format fault => some fault.message
  | .noTrigger => some "No trigger node found in workflow"
  | .visitLimit budget =>
    some ("Run exceeded " ++ intText budget ++ " node visits (possible cycle in a loop body)")
  | .unknownReason reason =>
    some ("Unknown trigger reason '" ++ reason ++ "' (expected one of " ++
      ", ".intercalate triggerReasons ++ ")")
  | .workflowWithoutId => some "Workflow requires an id"
  | .unsafeRecordId quotedId => some ("Invalid record id: " ++ quotedId)
  | .noCredentials => some "SUPABASE_URL and SUPABASE_KEY required for prod mode"
  | .noBranch => some "Branching executor must return \x7b'output': ..., 'branch': ...\x7d"
  | .noStorage => some "Store Data node requires a storage backend"
  | .loopOutsideRun loop => some ("Loop node " ++ loop ++ " was not set up by the engine")
  | .outside _ message => some message
  | .data _ | .interrupted => none

/-- The wording of a failure, its kind in angle brackets where it has none of its own. -/
def Failure.text (failure : Failure) : String :=
  failure.message?.getD ("<" ++ failure.kind ++ ">")

/-- The text under which a failure is recorded: its wording, or its kind if that is empty. -/
def Failure.recorded (failure : Failure) : String :=
  if failure.text.isEmpty then failure.kind else failure.text

/-- The text of a failure on a line that shows the bare key of a missing entry. -/
def Failure.shown : Failure → String
  | .data (.missingKey quotedKey) => quotedKey
  | failure => failure.text

/-- Whether running work may take note of the failure and go on: all but an interruption. -/
def Failure.isRecordable : Failure → Bool
  | .interrupted => false
  | _ => true

/-- A computation that may be given up for a cause. -/
abbrev Attempt (α : Type) := Except Failure α

/-- What a sequence comes to, it comes to by way of its first part, whatever it may be given up
for. -/
theorem Attempt.bind_ok {ε α β : Type} {a : Except ε α} {next : α → Except ε β} {b : β}
    (h : (a >>= next) = .ok b) : ∃ v, a = .ok v ∧ next v = .ok b := by
  cases a with
  | error f => cases h
  | ok v => exact ⟨v, rfl, h⟩

/-- Of a first part that comes to a value only the value counts. -/
theorem Attempt.ok_bind {ε α β : Type} (v : α) (next : α → Except ε β) :
    (Except.ok v >>= next) = next v :=
  rfl

/-- What a list of values is made into is made from one of them, item by item. -/
theorem Attempt.mapM_ok {ε α β : Type} {f : α → Except ε β} {items : List α} {made : List β}
    (h : items.mapM f = .ok made) : ∀ b ∈ made, ∃ a ∈ items, f a = .ok b := by
  induction items generalizing made with
  | nil =>
    cases h
    simp
  | cons item rest ih =>
    rw [List.mapM_cons] at h
    obtain ⟨b, hb, h⟩ := Attempt.bind_ok h
    obtain ⟨others, hothers, h⟩ := Attempt.bind_ok h
    cases h
    intro b' hb'
    rcases List.mem_cons.1 hb' with rfl | hb'
    · exact ⟨item, by simp, hb⟩
    · obtain ⟨a, ha, hfa⟩ := ih hothers b' hb'
      exact ⟨a, by simp [ha], hfa⟩

/-- If something can be made of each item, it can be made of all of them. -/
theorem Attempt.mapM_total {ε α β : Type} {f : α → Except ε β} {items : List α}
    (h : ∀ a ∈ items, ∃ b, f a = .ok b) : ∃ made, items.mapM f = .ok made := by
  induction items with
  | nil => exact ⟨[], rfl⟩
  | cons item rest ih =>
    obtain ⟨b, hb⟩ := h item (by simp)
    obtain ⟨others, hothers⟩ := ih fun a ha => h a (by simp [ha])
    exact ⟨b :: others, by rw [List.mapM_cons, hb, hothers]; rfl⟩

/-- What each item is made into, all of them are. -/
theorem Attempt.mapM_eq_map {ε α β : Type} {f : α → Except ε β} {g : α → β} {items : List α}
    (h : ∀ a ∈ items, f a = .ok (g a)) : items.mapM f = .ok (items.map g) := by
  induction items with
  | nil => rfl
  | cons item rest ih =>
    rw [List.mapM_cons, h item (by simp), ih fun a ha => h a (by simp [ha])]
    rfl

/-- Gives up for a data fault. -/
def Attempt.fault {α : Type} (fault : DataFault) : Attempt α := .error (.data fault)

end WorkflowEngine
