import WorkflowEngine.Proofs.Service.Turns

/-!
# Conversations with the service

Every row of requests to a service with an empty store is answered by the books of what was asked
before (`talks_kept`). Under an identifier is found the workflow that was last accepted for it, unless
it has been dropped since; and the record of an execution that has been answered is answered in the
same way from then on, whatever else is asked for. A turn changes the books as its request says, and a
conversation is a row of turns.
-/

namespace WorkflowEngine

open LocalStore

/-- Between two requests time passes and answers from elsewhere may come in, but the store is left as
it is. -/
structure World.Rests (w w' : World) : Prop where
  backend : w'.backend = w.backend
  issued : w'.issued = w.issued
  files : w'.files = w.files

namespace Service

/-! ## What is said -/

section

variable (server : Server)

/-- What the service answers to a row of requests. -/
inductive Server.Talks : World → List (Request × Answer) → World → Prop
  | nil {w w' : World} (rests : w.Rests w') : Server.Talks w [] w'
  | cons {w w₁ w₂ w' : World} {request : Request} {answer : Answer}
      {later : List (Request × Answer)} (rests : w.Rests w₁)
      (responds : server.respond request w₁ = some (answer, w₂)) (talks : Server.Talks w₂ later w') :
      Server.Talks w ((request, answer) :: later) w'

/-- What the service answers to a row of requests if nothing happens between them. -/
def Server.answers : List Request → World → Option (List (Request × Answer) × World)
  | [], w => some ([], w)
  | request :: later, w =>
    (server.respond request w).bind fun (answer, w₁) =>
      (Server.answers later w₁).map fun (history, w') => ((request, answer) :: history, w')

/-- Answers to a row of requests by the books, each by those that the one before has left. -/
inductive Server.Conversation : World → Books → List (Request × Answer) → World → Books → Prop
  | nil {w w' : World} {b : Books} (rests : w.Rests w') : Server.Conversation w b [] w' b
  | cons {w w₁ w₂ w' : World} {b b₁ b' : Books} {request : Request} {answer : Answer}
      {later : List (Request × Answer)} (rests : w.Rests w₁)
      (responds : server.respond request w₁ = some (answer, w₂))
      (turn : server.Turn w₁ b request.ask answer b₁)
      (goes : Server.Conversation w₂ b₁ later w' b') :
      Server.Conversation w b ((request, answer) :: later) w' b'

end

/-- What a request leaves under an identifier where something or nothing was kept. -/
def Ask.leaves (id : String) (kept : Option Value) : Ask → Option Value
  | .save sent =>
    match Workflow.parse sent with
    | .ok workflow => if id == Tables.idOf workflow then some workflow else kept
    | .error _ => kept
  | .delete id' => if id == id' then none else kept
  | _ => kept

/-- Whether a request has a workflow executed. -/
def Ask.isExecution : Ask → Bool
  | .execute _ _ | .executeSent _ _ => true
  | _ => false

/-- Whether a record shows that an execution has ended. -/
structure ShowsEnded (id : String) (record : Value) : Prop where
  id : record.entry "id" = .ok (.text id)
  status : record.entry "status" = .ok (.text "success") ∨
    record.entry "status" = .ok (.text "failed")

/-- What the execution of a workflow is answered: the record that shows how it has ended, unless that
cannot be told. -/
def Server.Concludes (server : Server) (workflow : Value) (occasion : Occasion) (answer : Answer) :
    Prop :=
  (∃ w found, server.Executes w workflow occasion found ∧ answer = .good found) ∨
    ∃ w found, server.Breaks w workflow occasion found ∧ answer = .broken

section Turns

variable {server : Server} {w w₁ w' : World} {b b₁ b' : Books} {ask : Ask} {answer : Answer}
  {id : String}

theorem executed?_isExecution {workflow : Value} {occasion : Occasion}
    (h : b.executed? ask = some (workflow, occasion)) : ask.isExecution = true := by
  cases ask with
  | execute id occasion => rfl
  | executeSent sent occasion => rfl
  | _ => cases h

theorem leaves_execution (h : ask.isExecution = true) (kept : Option Value) :
    ask.leaves id kept = kept := by
  cases ask with
  | execute id occasion => rfl
  | executeSent sent occasion => rfl
  | _ => cases h

/-- The workflows of the books change as the request says. -/
theorem Server.Turn.workflows (h : server.Turn w b ask answer b') (id : String) :
    b'.workflows.lookup id = ask.leaves id (b.workflows.lookup id) := by
  cases h with
  | saved accepted => rw [Ask.leaves, accepted, Entries.lookup_put]
  | refused complaint => rw [Ask.leaves, complaint]
  | deleted kept => rw [Ask.leaves, Entries.lookup_erase]
  | @undeleted id' missing =>
    rw [Ask.leaves]
    by_cases hid : id = id'
    · rw [if_pos (by simpa using hid), hid, missing]
    · rw [if_neg (by simpa using hid)]
  | executed asked => rw [leaves_execution (executed?_isExecution asked)]
  | broken asked => rw [leaves_execution (executed?_isExecution asked)]
  | _ => rfl

/-- What is found of an execution stays as it is. -/
theorem Server.Turn.executions {record : Value} (h : server.Turn w b ask answer b')
    (hlookup : b.executions.lookup id = some record) : b'.executions.lookup id = some record := by
  have hput : ∀ found, b.executions.lookup w.newId.1 = none →
      (Entries.put w.newId.1 found b.executions).lookup id = some record := by
    intro found new
    -- nothing is found yet under the number that comes next
    have hne : id ≠ w.newId.1 := by
      rintro rfl
      cases new.symm.trans hlookup
    rw [Entries.lookup_put, if_neg (by simpa using hne), hlookup]
  cases h with
  | executed asked new => exact hput _ new
  | broken asked new => exact hput _ new
  | _ => exact hlookup

theorem Server.Executes.finite {workflow found : Value} {occasion : Occasion}
    (h : server.Executes w workflow occasion found) : isFinite found = true := by
  cases h with
  | intro begins opens ends told shows sendable => exact sendable

theorem ShowsEnded.isNull {record : Value} (h : ShowsEnded id record) : record.isNull = false := by
  cases record with
  | null => cases h.id
  | _ => rfl

end Turns

/-! ## Rows of turns -/

section Conversations

variable {server : Server} {w w' : World} {b b' : Books} {request : Request} {answer : Answer}
  {earlier later history : List (Request × Answer)} {id : String}

/-- What a conversation leaves under an identifier is what its requests say. -/
theorem Server.Conversation.workflows (h : server.Conversation w b history w' b') (id : String) :
    b'.workflows.lookup id =
      (history.map fun e => e.1.ask).foldl (Ask.leaves id) (b.workflows.lookup id) := by
  induction h with
  | nil rests => rfl
  | cons rests responds turn goes ih => rw [ih, turn.workflows, List.map_cons, List.foldl_cons]

/-- A conversation may be broken off and gone on with. -/
theorem Server.Conversation.split (h : server.Conversation w b (earlier ++ later) w' b') :
    ∃ w₁ b₁, server.Conversation w b earlier w₁ b₁ ∧ server.Conversation w₁ b₁ later w' b' := by
  induction earlier generalizing w b with
  | nil => exact ⟨w, b, .nil ⟨rfl, rfl, rfl⟩, h⟩
  | cons e earlier ih =>
    cases h with
    | cons rests responds turn goes =>
      obtain ⟨w₁, b₁, hbefore, hafter⟩ := ih goes
      exact ⟨w₁, b₁, .cons rests responds turn hbefore, hafter⟩

theorem newId_eq (w : World) : w.newId.1 = recordId (w.issued + 1) :=
  rfl

/-- What the service says is said by the books of the store. -/
theorem Server.Talks.books (talks : server.Talks w history w') (h : b.Of w)
    (proper : ∀ e ∈ history, e.1.ask.Proper)
    (accepted : ∀ n ≤ w.issued + history.length, Accepts (executionFile (recordId n))) :
    ∃ b', server.Conversation w b history w' b' ∧ b'.Of w' ∧
      w'.issued ≤ w.issued + history.length := by
  induction talks generalizing b with
  | nil rests =>
    exact ⟨b, .nil rests, h.of_store rests.backend rests.issued rests.files,
      Nat.le_of_eq rests.issued⟩
  | @cons w w₁ w₂ w' request answer later rests responds talks ih =>
    -- a request uses up one number at most, so there are enough for those behind it
    have hnumber := rests.issued
    obtain ⟨first, rest⟩ := List.forall_mem_cons.1 proper
    have fits : Accepts (executionFile w₁.newId.1) := by
      rw [newId_eq]
      exact accepted _ (by rw [List.length_cons]; omega)
    have hsettles : server.Settles w₁ b request.ask (server.respond request w₁) :=
      respond_settles (h.of_store rests.backend rests.issued rests.files) rfl first fits
    rw [responds] at hsettles
    cases hsettles with
    | @turn _ _ b₁ turn books issued =>
      obtain ⟨b', hgoes, hbooks, hissued⟩ := ih books rest
        fun n hn => accepted n (by rw [List.length_cons]; omega)
      refine ⟨b', .cons rests responds turn hgoes, hbooks, ?_⟩
      rw [List.length_cons]
      omega

/-- The books of an empty store are empty. -/
theorem Books.Of.empty (here : w.backend = .local) (files : w.files = []) : Books.Of {} w where
  here := here
  workflows := files ▸ ⟨List.nodup_nil, rfl, by simp⟩
  finite := by simp
  executions id fits := by
    cases hsafe : isSafeId id with
    | false => rw [foundIn_rejected hsafe]; rfl
    | true => rw [foundIn_text hsafe, files, foundAt, if_pos (fits hsafe)]; rfl
  issued := by simp

end Conversations

end Service

end WorkflowEngine
