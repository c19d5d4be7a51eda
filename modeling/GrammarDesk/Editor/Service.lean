import GrammarDesk.Editor.Protocol
import GrammarDesk.Editor.Server
import GrammarDesk.Live.Wire

/-! The server as a JSON-RPC service: messages in, a response and notifications
out. It answers nothing before it is initialized, and nothing after its exit. -/
namespace GrammarDesk

inductive Lifecycle where
  | fresh | running | stopped | exited
deriving DecidableEq, Repr, Inhabited

/-- An exited service takes no message. -/
inductive ServiceError where
  | exited
deriving DecidableEq, Repr

def ServiceError.message : ServiceError → String
  | exited => "language server has exited"

inductive RpcError where
  | invalidRequest
  | notOffered
  /-- A method that the protocol does not have. -/
  | unknownMethod (method : String)
  | missingParams
  | unexpectedParams (params : Json)
  | invalidParams (mismatch : Mismatch)
  | internal
  | notInitialized
deriving Repr, Inhabited

namespace RpcError

def code : RpcError → Int
  | invalidRequest => -32600
  | notOffered | unknownMethod _ => -32601
  | missingParams | unexpectedParams _ | invalidParams _ => -32602
  | internal => -32603
  | notInitialized => -32002

def message : RpcError → String
  | invalidRequest => "Invalid request"
  | notOffered | unknownMethod _ => "Method not found"
  | missingParams => "Missing params field"
  | unexpectedParams params => "Unexpected params: " ++ params.compact
  | invalidParams mismatch => mismatch.message
  | internal => "Internal error"
  | notInitialized => "Server not initialized"

/-- An unknown method is named beside the message. -/
def toJson (error : RpcError) : Json :=
  let named := match error with
    | unknownMethod method => [("data", Json.str method)]
    | _ => []
  .obj ([("code", .int error.code), ("message", .str error.message)] ++ named)

end RpcError

namespace Notice

def notification (method : String) (params : List (String × Json)) : Json :=
  .obj [("jsonrpc", .str "2.0"), ("method", .str method), ("params", .obj params)]

/-- The version is left out where there is none. -/
def toJson : Notice → Json
  | .findings uri version found =>
    let versionField := match version with
      | some version => [("version", Json.int version)]
      | none => []
    notification "textDocument/publishDiagnostics" <|
      [("uri", .str uri), ("diagnostics", .arr (found.map Finding.toJson))] ++ versionField
  | .highlight h =>
    notification "ebnf/matchHighlights" [("uri", .str h.key), ("phase", .str h.phase.label),
      ("segments", .arr (h.segments.map Segment.toJson))]

end Notice

structure Service where
  lifecycle : Lifecycle := .fresh
  server : Server := {}
deriving Repr, Inhabited

namespace Service

def serverName : String := "ebnf-lsp"

def version : String := "0.1.0"

/-- Whole documents are synchronized, and completion is offered. -/
def greeting : Json :=
  .obj [
    ("capabilities", .obj [("textDocumentSync", .int 1), ("completionProvider", .obj [])]),
    ("serverInfo", .obj [("name", .str serverName), ("version", .str version)])]

def call? (method : String) (params : Json) : Option Server.Call := do
  match method with
  | "textDocument/didOpen" =>
    let document ← params.field? "textDocument"
    let uri ← (← document.field? "uri").str?
    let text ← (← document.field? "text").str?
    let version ← (← document.field? "version").int?
    return .opened uri text.toList version
  | "textDocument/didChange" =>
    let document ← params.field? "textDocument"
    let uri ← (← document.field? "uri").str?
    let version ← (← document.field? "version").int?
    let changes ← (← params.field? "contentChanges").arr?
    let texts ← changes.mapM fun change => do (← change.field? "text").str?
    return .changed uri (texts.map String.toList) version
  | "textDocument/didClose" =>
    let document ← params.field? "textDocument"
    return .closed (← (← document.field? "uri").str?)
  | "ebnf/didChangeSample" =>
    let uri ← (← params.field? "uri").str?
    let text ← (← params.field? "text").str?
    return .sampled uri text.toList
  | _ => none

def completionPlace? (params : Json) : Option (Uri × Place) := do
  let uri ← (← (← params.field? "textDocument").field? "uri").str?
  let position ← params.field? "position"
  let line ← (← position.field? "line").int?
  let column ← (← position.field? "character").int?
  return (uri, ⟨line.toNat, column.toNat⟩)

def readParams (shape : Shape) : Option Json → Except RpcError Json
  | none => .error .missingParams
  | some params =>
    match shape.read false params with
    | .ok params => .ok params
    | .error mismatch => .error (.invalidParams mismatch)

def result (service : Service) (method : String) (params : Json) : Except RpcError Json :=
  if method = "textDocument/completion" then
    match completionPlace? params with
    | none => .error .internal
    | some (uri, place) =>
      match service.server.complete uri place with
      | .ok (some names) => .ok (.arr (names.map Completion.itemJson))
      | .ok none => .ok .null
      | .error _ => .error .internal
  else .error .notOffered

/-- Takes a notification. What cannot be read changes nothing. -/
def notify (service : Service) (method : String) (shape : Shape) (params : Option Json) :
    Service × List Notice :=
  match readParams shape params with
  | .error _ => (service, [])
  | .ok params =>
    match call? method params with
    | some call =>
      let (server, notices) := service.server.handle call
      ({ service with server }, notices)
    | none => (service, [])

def refusal : Lifecycle → RpcError
  | .fresh => .notInitialized
  | _ => .invalidRequest

/-- The answer to a message, which is sent if the message has an id, and the
service after it. A notification is not taken from a message with an id, nor is
the service started by one without. -/
def answer (service : Service) (method : String) (isRequest : Bool) (params : Option Json) :
    Service × Except RpcError Json × List Notice :=
  match Protocol.method method, service.lifecycle with
  | .exit, _ => ({ service with lifecycle := .exited }, .ok .null, [])
  | .start, .fresh =>
    match readParams Shape.introduction params with
    | .error e => (service, .error e, [])
    | .ok _ =>
      (if isRequest then { service with lifecycle := .running } else service, .ok greeting, [])
  | .start, _ => (service, .error .invalidRequest, [])
  | .shutdown, .running =>
    let answer := match params with
      | none => .ok .null
      | some params => .error (.unexpectedParams params)
    ({ service with lifecycle := .stopped }, answer, [])
  | .request shape, .running =>
    (service, readParams shape params >>= service.result method, [])
  | .notification shape, .running =>
    if isRequest then (service, .error .invalidRequest, [])
    else
      let (service, notices) := service.notify method shape params
      (service, .ok .null, notices)
  | .cancel, _ => (service, .error .invalidRequest, [])
  | .unknown, _ => (service, .error (.unknownMethod method), [])
  | .shutdown, lifecycle | .request _, lifecycle | .notification _, lifecycle =>
    (service, .error (refusal lifecycle), [])

/-- Whether a request gets no response. Methods with a dollar sign may be unknown
to a service. -/
def isSilent (method : String) : Bool :=
  match Protocol.method method with
  | .exit => true
  | .unknown => method.startsWith "$/"
  | _ => false

/-- One message: a request has an id and gets a response. -/
def handle (service : Service) (message : Json) :
    Except ServiceError (Service × Option Json × List Json) :=
  if service.lifecycle = .exited then .error .exited
  else
    let method := ((message.field? "method").bind Json.str?).getD ""
    let id := message.field? "id"
    let (service, answer, notices) :=
      service.answer method id.isSome (message.field? "params")
    let respond (id : Json) : Json :=
      let body := match answer with
        | .ok result => ("result", result)
        | .error e => ("error", e.toJson)
      .obj [("jsonrpc", .str "2.0"), body, ("id", id)]
    let response := if isSilent method then none else id.map respond
    .ok (service, response, notices.map Notice.toJson)

/-- Lets time pass. Nothing is sent after the exit. -/
def elapse (service : Service) (time : Nat) : Service × List Json :=
  let (server, notices) := service.server.elapse time
  ({ service with server },
    if service.lifecycle = .exited then [] else notices.map Notice.toJson)

end Service
end GrammarDesk
