import Marginalia.Diagnostic
import Marginalia.Folder
import Marginalia.Token

/-!
# Faults

A `Fault` is the reason why scanning, reading, running or serving a program stopped short. Faults
of the first group are the author's or the client's: each has a code, a message and a hint, and
`Fault.diagnostic?` puts them together with the place. The others have a text only.

Two faults stand for limits rather than mistakes. `tooDeep` says that something is nested or
recurses more deeply than the reader and the machine follow; `endless` says that a loop went
round more often than the machine counts.
-/

namespace Marginalia

/-- What a scanner stumbles over. -/
inductive ScanCause where
  | unexpected (c : Char)
  | unfinishedString
deriving DecidableEq, Repr

/-- A part that a program's grammar asks for. -/
inductive Part where
  | remarkText
  | directiveName
  | directiveValue
  | functionName
  | dashAfterFunctionName
  | parameterName
  | dashAfterParameters
  | colonBeforeBody
  | variableName
  | dashAfterIf
  | dashAfterWhile
  | dashAfterCondition
  | dotAfterBlock
  | dashAfterArguments
deriving DecidableEq, Repr

/-- Why a list of tokens is no program. -/
inductive ParseCause where
  | noExpression
  | missing (part : Part)
  | tooManyArguments
  | nestedDirective
deriving DecidableEq, Repr

/-- Why a program cannot go on. -/
inductive RunCause where
  | notAFunction (shown : String)
  | returnAtTop
deriving DecidableEq, Repr

/-- Why a request is not served. -/
inductive RequestCause where
  | unknownMethod (method : String)
  | twoSources
  | fileNotFound (path : String)
  | noSource
deriving DecidableEq, Repr

/-- Why an operation stopped short. -/
inductive Fault where
  | scan (cause : ScanCause) (span : Span)
  | parse (cause : ParseCause) (found : Token)
  | run (cause : RunCause) (place : Token)
  | request (cause : RequestCause)
  | tooDeep
  | endless
  | noAnswer
  | noSuchLine
  | noLines
  | noMoreTokens
  | unknownStatement (kind : String)
  | unknownExpression (kind : String)
  | wrapsNoCall (kind : String)
  | wrapsNoArgument
  | unreadable (cause : ReadFault)
  | unusableMethod (kind : String)
  | unusablePayload (kind : String)
deriving DecidableEq, Repr

/-! ## Wording -/

/-- The message of a missing part. -/
def Part.message : Part → String
  | .remarkText => "Expect comment text after '†'."
  | .directiveName => "Expect directive name after '#'."
  | .directiveValue => "Expect value after directive name."
  | .functionName => "Expect function name."
  | .dashAfterFunctionName => "Expect '—' after function name."
  | .parameterName => "Expect parameter name."
  | .dashAfterParameters => "Expect '—' after parameters."
  | .colonBeforeBody => "Expect ':' before function body."
  | .variableName => "Expect variable name."
  | .dashAfterIf => "Expect '—' after 'if'."
  | .dashAfterWhile => "Expect '—' after 'while'."
  | .dashAfterCondition => "Expect '—' after condition."
  | .dotAfterBlock => "Expect '.' after block."
  | .dashAfterArguments => "Expect '—' after arguments."

/-- The diagnostic of a scanner's fault. -/
def ScanCause.diagnostic (span : Span) : ScanCause → Diagnostic
  | .unexpected c =>
    ⟨.scan, "LEX001", "Unexpected character " ++ quoted (String.ofList [c]) ++ ".", some span,
      "Use letters for names and “ ” quotes for text."⟩
  | .unfinishedString =>
    ⟨.scan, "LEX002", "Unfinished string.", some span, "Close the string with ”."⟩

/-- Code, message and hint of a reader's fault. -/
def ParseCause.wording : ParseCause → String × String × String
  | .noExpression =>
    ("PAR001", "Expect expression.", "Use a name, “text”, true, false, or nothing.")
  | .missing part => ("PAR002", part.message, "Adjust token order to match grammar.")
  | .tooManyArguments => ("PAR003", "Can't have more than 255 arguments.", "")
  | .nestedDirective => ("PAR004", "Directives are only allowed at top level.", "")

/-- The diagnostic of a reader's fault; at the end of the text there is nothing to point at. -/
def ParseCause.diagnostic (found : Token) (cause : ParseCause) : Diagnostic :=
  let (code, message, hint) := cause.wording
  let pointer := if found.kind = .textEnd then "" else found.pointer
  ⟨.parse, code, pointer ++ message, some found.span, hint⟩

/-- The diagnostic of a running program's fault. -/
def RunCause.diagnostic (place : Token) : RunCause → Diagnostic
  | .notAFunction shown =>
    ⟨.run, "RUN001", place.pointer ++ "Can only call functions.", some place.span,
      "'" ++ shown ++ "' is not a function."⟩
  | .returnAtTop =>
    ⟨.run, "RUN002", place.pointer ++ "Can't return from top-level code.", some place.span,
      "Use '&' only inside a function body."⟩

/-- The diagnostic of a request that is not served. -/
def RequestCause.diagnostic : RequestCause → Diagnostic
  | .unknownMethod method =>
    ⟨.request, "SRV001", "Unknown service method '" ++ method ++ "'.", none,
      "Available methods: capabilities, format, parse, run"⟩
  | .twoSources =>
    ⟨.request, "SRV002", "Provide only one of 'source' or 'input_path'.", none,
      "Use inline source for API calls or file path for local source files."⟩
  | .fileNotFound path =>
    ⟨.request, "SRV003", "Input file not found: " ++ path, none,
      "Check input_path and file permissions."⟩
  | .noSource =>
    ⟨.request, "SRV004", "Missing source input.", none, "Provide 'source' or 'input_path'."⟩

namespace Fault

/-- The diagnostic of a fault of the first group. -/
def diagnostic? : Fault → Option Diagnostic
  | .scan cause span => some (cause.diagnostic span)
  | .parse cause found => some (cause.diagnostic found)
  | .run cause place => some (cause.diagnostic place)
  | .request cause => some cause.diagnostic
  | _ => none

/-- The text of a fault that has no diagnostic, and the summary of one that has. -/
def text : Fault → String
  | .scan cause span => (cause.diagnostic span).summary
  | .parse cause found => (cause.diagnostic found).summary
  | .run cause place => (cause.diagnostic place).summary
  | .request cause => cause.diagnostic.summary
  | .tooDeep => "maximum recursion depth exceeded"
  | .endless => "maximum number of rounds exceeded"
  | .noAnswer => "EOF when reading a line"
  | .noSuchLine | .noMoreTokens => "list index out of range"
  | .noLines => "'list' object has no attribute 'split'"
  | .unknownStatement kind => "Unknown statement node: " ++ kind
  | .unknownExpression kind => "Unknown expression node: " ++ kind
  | .wrapsNoCall kind => "'" ++ kind ++ "' object has no attribute 'arguments'"
  | .wrapsNoArgument => "tuple index out of range"
  | .unreadable cause => cause.message
  | .unusableMethod kind => "unhashable type: '" ++ kind ++ "'"
  | .unusablePayload kind => "'" ++ kind ++ "' object has no attribute 'get'"

/-- How a fault is reported about a text. -/
def report (fault : Fault) (text : String) : Report :=
  match fault.diagnostic? with
  | some diagnostic => diagnostic.report text
  | none => .plain fault.text

end Fault

end Marginalia
