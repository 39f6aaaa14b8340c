import Marginalia.Request.Payload
import Marginalia.Source

/-!
# Requests

A client asks by a method and a payload, both plain data of any kind. `Request.serve` gives the
answer or the fault; `Request.respond` always gives a document, where a fault that has a place
carries a report cut from the very text that was served.

The payload names a text by `source`, or a file by `input_path`. Anything that is not a text is
taken as messages would show it.
-/

namespace Marginalia

/-- The names of the methods, in order. -/
def methodNames : List String :=
  ["capabilities", "format", "parse", "run"]

namespace Request

/-- The files that requests may name. -/
abbrev Files := Path → Except ReadFault String

/-- A payload that says nothing is an empty object. -/
def payloadOf (payload : Payload) : Payload :=
  if payload.isVoid then .object [] else payload

/-- The source that a payload names. -/
def source (files : Files) (payload : Payload) : Except Fault Source :=
  match payload with
  | .object _ =>
    match payload.given? "source", payload.given? "input_path" with
    | some _, some _ => throw (.request .twoSources)
    | none, some input =>
      let path := Path.parse input.shown
      match files path with
      | .ok text => return ⟨text, path.shown⟩
      | .error (.missing _) => throw (.request (.fileNotFound path.shown))
      | .error fault => throw (.unreadable fault)
    | some text, none =>
      return ⟨text.shown, ((payload.member? "filename").map Payload.shown).getD "<inline>"⟩
    | none, none => throw (.request .noSource)
  | other => throw (.unusablePayload other.kindWord)

/-- The echo of a source that ran to its end, and what was read. -/
def runSource (source : Source) : Except Fault Document := do
  let (parsed, run) ← source.run none
  match run.fault with
  | some fault => throw fault
  | none =>
    return .object [("echo", .text run.machine.echo),
      ("metrics", .object [("tokens", .number parsed.tokens.length),
        ("statements", .number parsed.program.length)])]

/-- What the service offers. -/
def capabilities : Document :=
  .object [("service", .text "coem"), ("version", .text "0.1.0"),
    ("methods", .list (methodNames.map .text)),
    ("directives", .list [.text "as palimpsest", .text "in dialogue"])]

/-- Serves a request. -/
def serve (files : Files) (method payload : Payload) : Except Fault Document :=
  match method with
  | .text "run" => do runSource (← source files (payloadOf payload))
  | .text "parse" => do (← source files (payloadOf payload)).explain
  | .text "format" => do
    return .object [("formatted", .text (← (← source files (payloadOf payload)).format))]
  | .text "capabilities" => return capabilities
  | .list _ | .object _ => throw (.unusableMethod method.kindWord)
  | _ => throw (.request (.unknownMethod method.shown))

/-- The text that a report about a request is cut from. -/
def reportText (files : Files) (payload : Payload) : String :=
  match source files (payloadOf payload) with
  | .ok source => source.text
  | .error _ => ""

/-- The answer to a request that failed. -/
def refusal (files : Files) (payload : Payload) (fault : Fault) : Document :=
  match fault.diagnostic? with
  | none =>
    .object [("error", .object [("code", .text "SRV999"),
      ("message", .text (fault.report "").oneLiner),
      ("hint", .text "Inspect server logs for details.")])]
  | some diagnostic =>
    .object (("error", diagnostic.document) ::
      match diagnostic.span with
      | none => []
      | some _ => [("report", (diagnostic.report (reportText files payload)).document)])

/-- Answers a request: whether it was served, and what is sent back. -/
def respond (files : Files) (method payload : Payload) : Bool × Document :=
  match serve files method payload with
  | .ok answer => (true, answer)
  | .error fault => (false, refusal files payload fault)

end Request

end Marginalia
