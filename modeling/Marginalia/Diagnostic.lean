import Marginalia.Document
import Marginalia.Text.Lines

/-!
# Diagnostics and reports

A `Diagnostic` is what an author is told about a program that cannot go on: a code, a message, the
place, and a hint. It is written on one line (`Diagnostic.line`, `Diagnostic.summary`), as a
document, or as a `Report` that cuts the program's text around the place: what stands before it on
its line, the place itself, and what follows up to the end of the line.

The search for the beginning of the line includes the first character of the place, so a place
that begins with a line feed has nothing before it.
-/

namespace Marginalia

/-- At which stage a diagnostic arose. -/
inductive Stage where
  | scan | parse | run | request
deriving DecidableEq, Repr

/-- The word a report uses for the stage. -/
def Stage.word : Stage → String
  | .run => "Runtime"
  | _ => "Parse"

/-- What an author is told. -/
structure Diagnostic where
  stage : Stage
  code : String
  message : String
  span : Option Span
  hint : String
deriving DecidableEq, Repr

/-- The place of a span as file, line and column, the column counted from one. -/
def Span.place (span : Span) : String :=
  span.file ++ ":" ++ toString span.start.line ++ ":" ++ toString (span.start.column + 1)

/-- The pieces of a text from one index up to another; empty where they are out of order. -/
def slice (text : List Char) (start stop : Nat) : List Char :=
  (text.take stop).drop start

/-- The index of the last line feed of a text. -/
def lastFeed? (text : List Char) : Option Nat :=
  (text.reverse.findIdx? (· = '\n')).map fun back => text.length - 1 - back

/-- The text around a place. -/
structure Sections where
  /-- From the line feed before the place up to the place. -/
  before : List Char
  /-- The place itself. -/
  within : List Char
  /-- From the place to the end of its last line. -/
  behind : List Char
deriving DecidableEq, Repr

/-- Cuts a text around the indices of a span. -/
def Sections.cut (text : List Char) (span : Span) : Sections :=
  let start := reach text span.start.index
  let stop := reach text span.stop.index
  let front := (lastFeed? (text.take (reach text (span.start.index + 1)))).getD 0
  { before := slice text front start
    within := slice text start stop
    behind := (text.drop stop).takeWhile (· ≠ '\n') }

/-- A caret under every character of the first line of the place, and one under an empty place. -/
def Sections.picture (sections : Sections) : List Char :=
  let lead := sections.before.dropWhile (· = '\n')
  let marked := max 1 (sections.within.takeWhile (· ≠ '\n')).length
  lead ++ sections.within ++ sections.behind ++
    '\n' :: List.replicate lead.length ' ' ++ List.replicate marked '^'

/-- An error as it is reported: one line, and the text around the place if there is one. -/
structure Report where
  oneLiner : String
  sections : Option Sections
deriving DecidableEq, Repr

/-- The report of an error that says nothing but its text. -/
def Report.plain (text : String) : Report :=
  ⟨"Unexpected internal error: " ++ text, none⟩

/-- A report as a document. -/
def Report.document (report : Report) : Document :=
  .object (("oneLiner", .text report.oneLiner) ::
    match report.sections with
    | none => []
    | some sections =>
      [("preErrorSection", .text (String.ofList sections.before)),
       ("errorSection", .text (String.ofList sections.within)),
       ("postErrorSection", .text (String.ofList sections.behind))])

namespace Diagnostic

/-- Code and message, and the place in brackets. -/
def summary (diagnostic : Diagnostic) : String :=
  "[" ++ diagnostic.code ++ "] " ++ diagnostic.message ++
    match diagnostic.span with
    | none => ""
    | some span => " (" ++ span.place ++ ")"

/-- Code, place, message and hint on one line. -/
def line (diagnostic : Diagnostic) : String :=
  let place :=
    match diagnostic.span with
    | none => ""
    | some span => " " ++ span.place
  let hint := if diagnostic.hint.isEmpty then "" else " Hint: " ++ diagnostic.hint
  diagnostic.code ++ place ++ ": " ++ diagnostic.message ++ hint

/-- A diagnostic as a document; the span is left out where there is none. -/
def document (diagnostic : Diagnostic) : Document :=
  .object ([("code", .text diagnostic.code), ("message", .text diagnostic.message),
    ("hint", .text diagnostic.hint)] ++
    match diagnostic.span with
    | none => []
    | some span => [("span", span.document)])

/-- The report of a diagnostic about a text. The one-liner names where the place ends. -/
def report (diagnostic : Diagnostic) (text : String) : Report :=
  match diagnostic.span with
  | none => .plain diagnostic.summary
  | some span =>
    ⟨diagnostic.stage.word ++ " Error: " ++ diagnostic.message ++ " at " ++
      toString span.stop.line ++ ":" ++ toString (span.stop.column + 1),
     some (.cut text.toList span)⟩

end Diagnostic

end Marginalia
