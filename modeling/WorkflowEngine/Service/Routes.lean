import WorkflowEngine.Containers
import WorkflowEngine.Intake
import WorkflowEngine.Service.Address
import WorkflowEngine.Service.Request

/-!
# Routes

What each path of the service stands for, the methods that it takes, and the answers.
-/

namespace WorkflowEngine.Service

/-- What a path stands for. -/
inductive Resource where
  | root
  | liveness
  | health
  | nodeTypes
  | workflows
  | workflow (id : String)
  | executionOf (workflow : String)
  | execute
  | executions
  | execution (id : String)
  | config

/-- What a path below the common beginning stands for. -/
def Resource.ofLevels? : List String → Option Resource
  | ["health"] => some .health
  | ["node-types"] => some .nodeTypes
  | ["workflows"] => some .workflows
  | ["workflows", id] => if id.isEmpty then none else some (.workflow id)
  | ["workflows", id, "execute"] => if id.isEmpty then none else some (.executionOf id)
  | ["execute"] => some .execute
  | ["executions"] => some .executions
  | ["executions", id] => if id.isEmpty then none else some (.execution id)
  | ["config"] => some .config
  | _ => none

/-- What a path stands for. -/
def Resource.ofPath? (path : List Char) : Option Resource :=
  match (Text.pieces '/' path).map String.ofList with
  | ["", ""] => some .root
  | ["", "health"] => some .liveness
  | "" :: "api" :: "v1" :: levels => ofLevels? levels
  | _ => none

/-- The methods that a resource takes. -/
def Resource.methods : Resource → List String
  | .workflows => ["GET", "POST"]
  | .workflow _ => ["GET", "DELETE"]
  | .executionOf _ | .execute => ["POST"]
  | _ => ["GET"]

/-- Whether what is sent along with a request to a resource is read. -/
def Resource.takesBody (resource : Resource) (method : String) : Bool :=
  match resource with
  | .workflows => method == "POST"
  | .executionOf _ | .execute => true
  | _ => false

/-- The path without the slashes at its end. -/
def withoutSlashes (path : List Char) : List Char :=
  (path.reverse.dropWhile (· == '/')).reverse

/-- What an address stands for; slashes at its end do not count. -/
def Resource.ofAddress? (a : Address) : Option Resource :=
  match ofPath? a.path with
  | some resource => some resource
  | none => if a.path.getLast? = some '/' then ofPath? (withoutSlashes a.path) else none

/-- The service: what serves the runs, and how many steps a walk is granted. -/
structure Server where
  container : Container
  fuel : Nat

/-- What comes of the handling of a request: an answer, also where the handling is cut short. -/
abbrev Handling := ExceptT Answer Job

namespace Handling

/-- A job, as a part of the handling. -/
def ofJob {α : Type} (job : Job α) : Handling α := ExceptT.lift job

/-- Work in the world, as a part of the handling. -/
def ofWork {α : Type} (work : Work α) : Handling α := ofJob (.ofWork work)

/-- Cuts the handling short. -/
def answer {α : Type} (a : Answer) : Handling α := throw a

/-- What has the right form, or else the answer that it has not. -/
def formed {α : Type} : Option α → Handling α
  | some a => pure a
  | none => answer .malformed

end Handling

/-- Complains that something is not there. -/
def notFound {α : Type} (what id : String) : Handling α :=
  Handling.answer (.detail 404 (what ++ " " ++ id ++ " not found"))

/-- Takes in a workflow that has been sent. -/
def takeIn (sent : Value) : Handling Value := do
  match Workflow.ofValue sent with
  | .error (.format fault) => Handling.answer (.detail 400 fault.message)
  | reading => Handling.ofWork (Workflow.takeIn reading)

/-- What is found under an identifier, or else the answer that nothing is. -/
def found (what id : String) (search : Value → Work Value) : Handling Value := do
  let v ← Handling.ofWork (search (.text id))
  if v.isNull then notFound what id else pure v

/-- What runs the workflows of requests. -/
def Server.runner (server : Server) : Handling Runner := do
  return { budget := (← Handling.ofJob get).settings.visitLimit, fuel := server.fuel }

/-- Executes a workflow. -/
def Server.execute (server : Server) (workflow : Value) (occasion : Occasion) :
    Handling Value := do
  let runner ← server.runner
  Handling.ofJob (runner.execute workflow occasion)

/-- The settings that are no secret. -/
def settingsBody (s : Settings) : Value :=
  .object [("mode", .text s.mode), ("wait_max_seconds", s.waitMax),
    ("max_node_visits", s.visitLimit.elim .null fun n => .int n),
    ("http_timeout", s.requestTimeout)]

/-- The workflows that are kept, or a workflow to keep. -/
def handleWorkflows (method : String) (body : Option Value) : Handling Value := do
  if method == "POST" then
    let sent ← Handling.formed (body.bind readWorkflow?)
    let workflow ← takeIn sent
    Handling.ofWork (Store.saveWorkflow workflow)
  else
    return .object [("workflows", ← Handling.ofWork Store.listWorkflows)]

/-- A workflow that is kept, or one to drop. -/
def handleWorkflow (method id : String) : Handling Value := do
  if method == "DELETE" then
    if (← Handling.ofWork (Store.deleteWorkflow (.text id))).holds then
      return .object [("deleted", .bool true), ("id", .text id)]
    else notFound "Workflow" id
  else found "Workflow" id Store.getWorkflow

/-- Executes a workflow that is kept; the occasion may be left out. -/
def Server.executeKept (server : Server) (id : String) (body : Option Value) :
    Handling Value := do
  let occasion ← Handling.formed (match body with
    | none | some .null => some {}
    | some v => readOccasion? v)
  server.execute (← found "Workflow" id Store.getWorkflow) occasion

/-- Executes a workflow that is sent along. -/
def Server.executeSent (server : Server) (body : Option Value) : Handling Value := do
  let (sent, occasion) ← Handling.formed (body.bind readExecution?)
  server.execute (← takeIn sent) occasion

/-- The most executions of a list for which no limit is given. -/
def standardLimit : Int := 50

/-- The executions that are kept, of one workflow or of all. -/
def handleExecutions (a : Address) : Handling Value := do
  let limit ← Handling.formed (match a.value? "limit" with
    | some s => readLimit? s
    | none => some standardLimit)
  let workflow := (a.value? "workflow_id").elim .null fun s => .text s
  return .object [("executions", ← Handling.ofWork (Store.listExecutions workflow (.int limit)))]

/-- The body of the answer to a request to a resource. -/
def Server.handle (server : Server) (resource : Resource) (method : String) (a : Address)
    (body : Option Value) : Handling Value := do
  let settings := (← Handling.ofJob get).settings
  match resource with
  | .root =>
    return .object [("service", .text "Flowline Core"), ("version", .text "0.1.0"),
      ("mode", .text settings.mode), ("status", .text "running")]
  | .liveness => return .object [("status", .text "healthy"), ("mode", .text settings.mode)]
  | .health =>
    return .object [("status", .text "healthy"), ("mode", .text server.container.mode),
      ("storage", .text server.container.backend.name)]
  | .nodeTypes => return .object [("node_types", .list Registry.builtin.listing)]
  | .workflows => handleWorkflows method body
  | .workflow id => handleWorkflow method id
  | .executionOf id => server.executeKept id body
  | .execute => server.executeSent body
  | .executions => handleExecutions a
  | .execution id => found "Execution" id Store.getExecution
  | .config => return settingsBody settings

mutual

/-- Whether all numbers in a value are finite, as they are in all JSON that leaves the service. -/
def isFinite : Value → Bool
  | .float x _ => x.isFinite
  | .list items _ | .tuple items _ => areFinite items
  | .dict entries _ => fieldsAreFinite entries
  | _ => true

/-- Whether all numbers in some values are finite. -/
def areFinite : List Value → Bool
  | [] => true
  | v :: vs => isFinite v && areFinite vs

/-- Whether all numbers in some entries are finite. -/
def fieldsAreFinite : Fields → Bool
  | [] => true
  | (_, v) :: rest => isFinite v && fieldsAreFinite rest

end

/-- The answer that comes of the handling of a request. Whatever is given up, and whatever cannot be
written as JSON, breaks the service. -/
def answerOf (result : Attempt (Except Answer Value)) : Answer :=
  match result with
  | .ok (.ok body) => if isFinite body then .good body else .broken
  | .ok (.error a) => a
  | .error _ => .broken

/-- Answers a request. There is no outcome if the steps that were granted are used up. -/
def Server.respond (server : Server) (request : Request) (w : World) :
    Option (Answer × World) :=
  let a := Address.read request.address
  let a := { a with query := a.query ++ request.query }
  match Resource.ofAddress? a with
  | none => some (.detail 404 "Not Found", w)
  | some resource =>
    if resource.methods.contains request.method then
      match if resource.takesBody request.method then readBody request.body else .ok none with
      | .error answer => some (answer, w)
      | .ok body => do
        let handling := server.handle resource request.method a body
        let (result, w) ← (ExceptT.run handling).runIn w
        pure (answerOf result, w)
    else some (.detail 405 "Method Not Allowed", w)

/-- Starts the service in the mode of the settings. -/
def Server.start (fuel : Nat) : Work Server := do
  return ⟨← Container.serve "", fuel⟩

end WorkflowEngine.Service
