import WorkflowEngine.Node.Basic
import WorkflowEngine.Text.Case

/-!
# Requests and responses

The node that calls an outside service and gives its response as output, and the node that describes
the response to the caller of the run.
-/

namespace WorkflowEngine.Node

/-- Refuses a request without an address. -/
def validateRequest (node : Node) : Attempt Unit :=
  node.require "url" "HTTP Request node" "a URL"

/-- The methods of requests that have a body. -/
def bodyMethods : List String := ["POST", "PUT", "PATCH"]

/-- What is sent along as body, if anything: JSON where the text is JSON, and the text otherwise. -/
def bodyArgument (node : Node) (method : String) : Act (List (String × Value)) := do
  let body ← Act.ofAttempt (node.setting "body")
  if !body.holds || !bodyMethods.contains method then return []
  match body with
  | .text _ _ =>
    match ← Act.fillIn body with
    | .text s mark =>
      match Json.read? s with
      | some j => return [("json", j.toValue)]
      | none => return [("data", .text s mark)]
    | _ => return []
  | _ => return [("json", body)]

/-- What identifies the caller: a name and a word, or a header with a token. -/
def credentials (node : Node) : Attempt (List (String × Value) × Fields) := do
  let auth ← node.settingOr "auth" (.dict [])
  let type ← auth.get "type"
  let user ← auth.get "username"
  let word ← auth.get "password"
  let token ← auth.get "token"
  if type.isText "basic" && user.holds && word.holds then
    pure ([("auth", .tuple [user, word])], [])
  else if type.isText "bearer" && token.holds then
    pure ([], [(.text "Authorization", .text ("Bearer " ++ (← token.plain)))])
  else pure ([], [])

/-- The method of a request, in capitals. -/
def requestMethod (node : Node) : Attempt String := do
  match ← node.settingOr "method" (.text "GET") with
  | .text s _ => pure (Text.toUpper s)
  | _ => .fault .missingMember

/-- The arguments of the request that a node makes. -/
def buildRequest (node : Node) : Act Value := do
  let method ← Act.ofAttempt (requestMethod node)
  let url ← Act.fillIn (← Act.ofAttempt (node.settings.entry "url"))
  let headers ← Act.ofAttempt (do (← node.settingOr "headers" (.dict [])).asFields)
  let timeout := (← get).world.settings.requestTimeout
  let body ← bodyArgument node method
  let (auth, authHeaders) ← Act.ofAttempt (credentials node)
  return .object ([("method", .text method), ("url", url),
    ("headers", .dict (Entries.putAll headers authHeaders)), ("timeout", timeout)] ++ body ++ auth)

/-- The headers of a response. Names that differ in letter case alone are one, and the last
spelling counts. -/
def headerFields (headers : List (String × Value)) : Fields :=
  let rows := headers.foldl
    (fun rows (name, v) => Entries.put (Text.toLower name) (name, v) rows) []
  rows.map fun (_, name, v) => (.text name, v)

/-- Whether a response reports an error. -/
def Response.isError (r : Response) : Bool := 400 ≤ r.status && r.status < 600

/-- The content of a response: JSON where it is JSON, and the text otherwise. -/
def Response.content (r : Response) : Value :=
  match Json.read? r.body with
  | some j => j.toValue
  | none => .text r.body

/-- Makes a request. -/
def runRequest (node : Node) : Act Reply := do
  let request ← buildRequest node
  let url ← Act.ofAttempt (do (← request.entry "url").plain)
  let method ← Act.ofAttempt (do (← request.entry "method").plain)
  Act.remark .info "http_request" (method ++ " " ++ url)
  let response ← Act.ofWork (Work.ofStep fun w => w.request request)
  let fields := [("status", Value.int response.status),
    ("statusText", response.reason.elim .null fun reason => .text reason),
    ("headers", .dict (headerFields response.headers)), ("data", Response.content response)]
  if Response.isError response then
    Act.remark .warning "http_request"
      ("HTTP request returned " ++ Number.intText response.status ++ " for " ++ url)
    return .plain (.object (fields ++ [("error", .bool true)]))
  else return .plain (.object fields)

/-- Refuses a response without a status. -/
def validateResponse (node : Node) : Attempt Unit := do
  if (← node.setting "statusCode").isNull then
    throw (.setting (.requires "Webhook Response node" "a status code"))

/-- Describes the response to the caller. -/
def runResponse (node : Node) : Act Reply := do
  let body ← Act.ofAttempt (node.settingOr "body" (.text ""))
  let status := (← Act.ofAttempt (node.settings.entry "statusCode")).orElse (.int 200)
  let headers ← Act.ofAttempt (node.settingOr "headers" (.dict []))
  let body ← match body with
    | .text _ _ => Act.fillIn body
    | _ => pure body
  return .plain (.object [("statusCode", status), ("headers", headers), ("body", body),
    ("responded", .bool true)])

end WorkflowEngine.Node
