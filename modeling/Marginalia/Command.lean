import Marginalia.Command.Arguments
import Marginalia.Request
import Marginalia.Store.View

/-!
# The command line

`Command.perform` does what a command line asks and says how it ends: the exit code, and what is
written to the two channels. Files and answers come from outside as data, so a run is a function
of them; an interactive session gives one more answer and performs the command again from the
start, since the same answers lead to the same questions.

The exit code is zero when the work is done, one when the program is at fault, two when the
command line is, and three otherwise.
-/

namespace Marginalia

/-- How a command ends. -/
structure Exit where
  code : UInt32
  out : String
  err : String
  /-- The program asked and there was no answer. -/
  awaits : Bool
deriving DecidableEq, Repr

namespace Exit

/-- The end of work that is done. -/
def done (out err : String) : Exit := ⟨0, out, err, false⟩

/-- The end of a command line that leads to no command. -/
def ofRefusal : Refusal → Exit
  | .help form => done (form.usage ++ "\n" ++ form.details) ""
  | .misuse form message =>
    ⟨2, "", form.usage ++ "\n" ++ form.program ++ ": error: " ++ message ++ "\n", false⟩

/-- The end of a command that names no text to work on. -/
def ofUsage (message : String) : Exit :=
  let diagnostic : Diagnostic :=
    ⟨.request, "CLI001", message, none, "Run coem --help for usage."⟩
  ⟨2, "", diagnostic.line ++ "\n", false⟩

/-- The end of work on a text that stopped short, after `out` and `err` were written. -/
def ofFault (text out err : String) (fault : Fault) : Exit :=
  match fault.diagnostic? with
  | none => ⟨3, out, err ++ (fault.report text).oneLiner ++ "\n", fault = .noAnswer⟩
  | some diagnostic =>
    let picture :=
      match (diagnostic.report text).sections with
      | none => ""
      | some sections => String.ofList sections.picture ++ "\n"
    ⟨1, out, err ++ diagnostic.line ++ "\n" ++ picture, false⟩

end Exit

namespace Command

/-- What a command works on. -/
inductive Subject where
  | file (path : Path)
  | inline (text : String)
  /-- A text was given, but dropped. -/
  | void
deriving DecidableEq, Repr

/-- The subject of a command. An empty path, and beside a path an empty or dropped text, is as good
as none. -/
def subject (choices : Choices) : Except String Subject :=
  match choices.input.filter (· ≠ ""), choices.code with
  | some path, some (.text text) =>
    if text.isEmpty then return .file (.parse path)
    else throw "Use either input file path or --code, not both."
  | some path, _ => return .file (.parse path)
  | none, some (.text text) => return .inline text
  | none, some .dropped => return .void
  | none, none => throw "No source provided. Pass input file path or --code."

/-- Runs a source. Questions are written before the echo, and the echo ends its last line. -/
def performRun (choices : Choices) (source : Source) (answers : List String) : Exit :=
  let answers := if choices.interactive then some answers else none
  let (notes, outcome) :=
    if choices.debug then source.runNoted answers else ("", source.run answers)
  match outcome with
  | .error fault => .ofFault source.text "" notes fault
  | .ok (_, run) =>
    let questions := String.join run.machine.asked
    match run.fault with
    | some fault => .ofFault source.text questions notes fault
    | none =>
      let echo := run.machine.echo
      let counts :=
        "debug: bindings=" ++ toString (run.machine.store.bindings Store.root).length ++
          " lines=" ++ toString (countRows echo.toList) ++ "\n"
      .done (questions ++ echo ++ if echo.toList.getLast? = some '\n' then "" else "\n")
        (notes ++ if choices.debug then counts else "")

/-- Does to a source what the verb says. -/
def performOn (command : Command) (source : Source) (answers : List String) : Exit :=
  match command.verb with
  | .run => performRun command.choices source answers
  | .parse =>
    match source.explain with
    | .error fault => .ofFault source.text "" "" fault
    | .ok document => .done (document.written .full ++ "\n") ""
  | .format =>
    match source.format with
    | .error fault => .ofFault source.text "" "" fault
    | .ok text => .done text ""

/-- Does what the verb says where there is no text. It reads as an empty one, but it has no lines
to run on. -/
def performOnVoid (command : Command) (answers : List String) : Exit :=
  let empty : Source := ⟨"", "<inline>"⟩
  match command.verb with
  | .run =>
    .ofFault "" "" (if command.choices.debug then (empty.runNoted none).1 else "") .noLines
  | _ => command.performOn empty answers

/-- Does what a command says. -/
def performCommand (command : Command) (files : Request.Files) (answers : List String) : Exit :=
  match subject command.choices with
  | .error message => .ofUsage message
  | .ok .void => command.performOnVoid answers
  | .ok (.inline text) => command.performOn ⟨text, "<inline>"⟩ answers
  | .ok (.file path) =>
    match files path with
    | .error fault => .ofFault "" "" "" (.unreadable fault)
    | .ok text => command.performOn ⟨text, path.shown⟩ answers

/-- Does what a command line says. -/
def perform (arguments : List String) (files : Request.Files) (answers : List String) : Exit :=
  match parse arguments with
  | .error refusal => .ofRefusal refusal
  | .ok command => command.performCommand files answers

end Command

end Marginalia
