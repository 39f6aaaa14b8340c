import Marginalia.Text.Digit
import Marginalia.Text.Quoted

/-!
# Arguments of a command line

A command line names a command and gives it a file, switches, and texts for them. Every argument
is classified first (`Form.classify`): a switch, possibly shortened or with a value after an equals
sign; something that looks like a switch and is none; the divider `--`, after which everything is
plain; or plain. Then they are taken in order.

`Command.parse` is the whole: it gives the choices made, or says that help was asked for, or what
is wrong.
-/

namespace Marginalia

/-- What can be switched. -/
inductive Switch where
  | help | code | debug | interactive
deriving DecidableEq, Repr

namespace Switch

/-- How a switch is written. -/
def names : Switch → List String
  | .help => ["-h", "--help"]
  | .code => ["--code"]
  | .debug => ["--debug"]
  | .interactive => ["--interactive"]

/-- Whether a value follows the switch. -/
def takesValue : Switch → Bool
  | .code => true
  | _ => false

end Switch

/-- A switch as it was met on a command line. -/
structure Hit where
  switch : Switch
  /-- The full name it was met by. -/
  name : String
  /-- The text in the same argument after the name, if any. -/
  attached : Option String
deriving DecidableEq, Repr

/-- What an argument is. -/
inductive Mark where
  | plain
  | divider
  | hit (hit : Hit)
  /-- It looks like a switch and is none. -/
  | stray
deriving DecidableEq, Repr

/-- A kind of command line. -/
structure Form where
  /-- The words that begin it. -/
  program : String
  /-- Its one-line summary. -/
  usage : String
  /-- What follows the summary when help is asked for. -/
  details : String
  switches : List Switch
deriving DecidableEq, Repr

/-- Why a command line leads to no command. -/
inductive Refusal where
  /-- Help was asked for. -/
  | help (form : Form)
  /-- Something is wrong with the arguments. -/
  | misuse (form : Form) (message : String)
deriving DecidableEq, Repr

/-- The arguments look like a negative number. -/
def looksNegative (text : List Char) : Bool :=
  match text with
  | '-' :: rest =>
    let body := if rest.getLast? = some '\n' then rest.dropLast else rest
    let whole := body.takeWhile isDecimalDigit
    match body.dropWhile isDecimalDigit with
    | [] => !whole.isEmpty
    | '.' :: fraction => !fraction.isEmpty && fraction.all isDecimalDigit
    | _ => false
  | _ => false

/-- A text cut at its first equals sign. -/
def cutAtEquals (text : List Char) : List Char × Option (List Char) :=
  match text.dropWhile (· ≠ '=') with
  | [] => (text, none)
  | _ :: value => (text.takeWhile (· ≠ '='), some value)

namespace Form

/-- Every name of every switch, with the switch. -/
def names (form : Form) : List (String × Switch) :=
  form.switches.flatMap fun switch => switch.names.map fun name => (name, switch)

/-- The switches that a written one may stand for. After two dashes a beginning of a name is
enough; after one dash the rest of the argument is attached to the one-letter name. -/
def candidates (form : Form) (text : List Char) : List Hit :=
  match text with
  | '-' :: '-' :: _ =>
    let (written, value) := cutAtEquals text
    form.names.filterMap fun (name, switch) =>
      if written.isPrefixOf name.toList then
        some ⟨switch, name, value.map String.ofList⟩
      else none
  | _ =>
    form.names.filterMap fun (name, switch) =>
      if name.toList = text.take 2 then some ⟨switch, name, some (String.ofList (text.drop 2))⟩
      else if text.isPrefixOf name.toList then some ⟨switch, name, none⟩
      else none

/-- What an argument before the divider is. -/
def mark (form : Form) (argument : String) : Except Refusal Mark :=
  let text := argument.toList
  match text with
  | '-' :: _ :: _ =>
    let (written, value) := cutAtEquals text
    match form.names.lookup argument, value, form.names.lookup (String.ofList written) with
    | some switch, _, _ => return .hit ⟨switch, argument, none⟩
    | none, some value, some switch =>
      return .hit ⟨switch, String.ofList written, some (String.ofList value)⟩
    | none, _, _ =>
      match form.candidates text with
      | [] =>
        if looksNegative text || text.contains ' ' then return .plain else return .stray
      | [hit] => return .hit hit
      | hits =>
        throw (.misuse form ("ambiguous option: " ++ argument ++ " could match " ++
          String.intercalate ", " (hits.map (·.name))))
  | _ => return .plain

/-- What each argument is. -/
def classify (form : Form) : List String → Except Refusal (List (String × Mark))
  | [] => return []
  | argument :: rest =>
    if argument = "--" then
      return (argument, .divider) :: rest.map fun plain => (plain, .plain)
    else return (argument, ← form.mark argument) :: (← form.classify rest)

/-- The message about a switch. -/
def complaint (form : Form) (switch : Switch) (message : String) : Refusal :=
  .misuse form ("argument " ++ String.intercalate "/" switch.names ++ ": " ++ message)

/-- The complaint about a value for a switch that takes none. -/
def ignored (form : Form) (switch : Switch) (value : String) : Refusal :=
  form.complaint switch ("ignored explicit argument " ++ quoted value)

end Form

/-- What was given as the value of a switch. -/
inductive Given where
  | text (text : String)
  /-- The divider stood in the place of the text. Dividers are dropped, so nothing is left. -/
  | dropped
deriving DecidableEq, Repr

/-- What a value of a switch gives. -/
def Given.ofValue (value : String) : Given :=
  if value = "--" then .dropped else .text value

/-- What was chosen on a command line. -/
structure Choices where
  input : Option String
  code : Option Given
  debug : Bool
  interactive : Bool
deriving DecidableEq, Repr

/-- Arguments part of the way. -/
structure Progress where
  choices : Choices
  /-- The file may still come. -/
  expectsInput : Bool
  /-- Arguments that nothing took. -/
  extras : List String
deriving DecidableEq, Repr

namespace Progress

/-- Nothing has been taken. -/
def start : Progress := ⟨⟨none, none, false, false⟩, true, []⟩

/-- Nothing takes the arguments. -/
def leave (progress : Progress) (arguments : List String) : Progress :=
  { progress with extras := progress.extras ++ arguments }

/-- The argument is the file. -/
def takeInput (progress : Progress) (input : Option String) : Progress :=
  { progress with choices := { progress.choices with input }, expectsInput := false }

/-- Turns a switch on; help ends everything. -/
def turnOn (form : Form) (progress : Progress) (switch : Switch) (value : String) :
    Except Refusal Progress :=
  match switch with
  | .help => throw (.help form)
  | .code =>
    return { progress with choices := { progress.choices with code := some (.ofValue value) } }
  | .debug => return { progress with choices := { progress.choices with debug := true } }
  | .interactive =>
    return { progress with choices := { progress.choices with interactive := true } }

/-- Turns on the one-letter switches that stand in one argument: those of `met`, the last of which
is `last`, and one for every further letter. A letter that is no switch begins a value, which the
switch before it does not take; then none of them is turned on. -/
def cluster (form : Form) (progress : Progress) (met : List Switch) (last : Switch) :
    List Char → Except Refusal Progress
  | [] => met.foldlM (fun progress switch => progress.turnOn form switch "") progress
  | letter :: rest =>
    match form.names.lookup (String.ofList ['-', letter]) with
    | some switch => cluster form progress (met ++ [switch]) switch rest
    | none => throw (form.ignored last (String.ofList (letter :: rest)))

/-- Takes a switch that no value follows, or whose value stands in the same argument. -/
def takeHit (form : Form) (progress : Progress) (hit : Hit) : Except Refusal Progress :=
  match hit.attached with
  | none => progress.turnOn form hit.switch ""
  | some value =>
    if hit.switch.takesValue then progress.turnOn form hit.switch value
    else if hit.name.toList.take 2 = ['-', '-'] || value.isEmpty then
      throw (form.ignored hit.switch value)
    else cluster form progress [hit.switch] hit.switch value.toList

/-- Takes what is left once there are no more switches. -/
def takeTail (progress : Progress) (rest : List (String × Mark)) : Progress :=
  if progress.expectsInput then
    let front := rest.takeWhile (·.2 = .divider)
    let behind := rest.dropWhile (·.2 = .divider)
    let input := behind.take 1
    let closing := (behind.drop 1).takeWhile (·.2 = .divider)
    let taken := ((front ++ input ++ closing).map (·.1)).erase "--"
    (progress.takeInput taken.head?).leave
      (((behind.drop 1).dropWhile (·.2 = .divider)).map (·.1))
  else progress.leave (rest.map (·.1))

/-- An argument is a switch or looks like one. -/
def isSwitchLike (argument : String × Mark) : Bool :=
  match argument.2 with
  | .hit _ | .stray => true
  | _ => false

/-- Takes classified arguments in order. -/
def takeAll (form : Form) : Progress → List (String × Mark) → Except Refusal Progress
  | progress, [] => return progress
  | progress, (argument, .stray) :: rest => takeAll form (progress.leave [argument]) rest
  | progress, (_, .hit hit) :: rest => do
    if hit.switch.takesValue && hit.attached.isNone then
      match rest with
      | (value, .plain) :: rest => takeAll form (← progress.turnOn form hit.switch value) rest
      | _ => throw (form.complaint hit.switch "expected one argument")
    else takeAll form (← progress.takeHit form hit) rest
  | progress, (argument, mark) :: rest =>
    if rest.any isSwitchLike then
      if progress.expectsInput then takeAll form (progress.takeInput (some argument)) rest
      else takeAll form (progress.leave [argument]) rest
    else return progress.takeTail ((argument, mark) :: rest)

end Progress

/-! ## The commands -/

/-- What to do with a source. -/
inductive Verb where
  | run | parse | format
deriving DecidableEq, Repr

namespace Verb

/-- All verbs, in the order in which help lists them. -/
def all : List Verb := [.run, .parse, .format]

/-- The word for a verb. -/
def word : Verb → String
  | .run => "run"
  | .parse => "parse"
  | .format => "format"

/-- The command line of a verb. -/
def form : Verb → Form
  | .run =>
    { program := "coem run"
      usage := "usage: coem run [-h] [--code CODE] [--debug] [--interactive] [input]"
      details := "\npositional arguments:\n  input          Input .coem file\n\noptions:\n" ++
        "  -h, --help     show this help message and exit\n" ++
        "  --code CODE    Inline Coem source string\n" ++
        "  --debug        Emit debug info to stderr\n" ++
        "  --interactive  Answer '#in dialogue' prompts from standard input.\n"
      switches := [.help, .code, .debug, .interactive] }
  | verb =>
    { program := "coem " ++ verb.word
      usage := "usage: coem " ++ verb.word ++ " [-h] [--code CODE] [input]"
      details := "\npositional arguments:\n  input        Input .coem file\n\noptions:\n" ++
        "  -h, --help   show this help message and exit\n" ++
        "  --code CODE  Inline Coem source string\n"
      switches := [.help, .code] }

end Verb

/-- The command line as a whole. -/
def topForm : Form where
  program := "coem"
  usage := "usage: coem [-h] \x7brun,parse,format\x7d ..."
  details := "\nCoem interpreter and tooling\n\npositional arguments:\n" ++
    "  \x7brun,parse,format\x7d\n" ++
    "    run               Run a Coem program and print its echo\n" ++
    "    parse             Print the AST as JSON\n" ++
    "    format            Print canonical Coem source\n\noptions:\n" ++
    "  -h, --help          show this help message and exit\n"
  switches := [.help]

/-- A verb and what was chosen for it. -/
structure Command where
  verb : Verb
  choices : Choices
deriving DecidableEq, Repr

namespace Command

/-- Reads the verb and what follows it; `extras` were met before. -/
def ofVerb (extras : List String) (word : String) (rest : List String) :
    Except Refusal Command := do
  match Verb.all.find? (·.word = word) with
  | none =>
    throw (.misuse topForm ("argument command: invalid choice: " ++ quoted word ++
      " (choose from " ++ String.intercalate ", " (Verb.all.map fun verb => quoted verb.word) ++
      ")"))
  | some verb =>
    let progress ← Progress.start.takeAll verb.form (← verb.form.classify rest)
    match extras ++ progress.extras with
    | [] => return ⟨verb, progress.choices⟩
    | extras =>
      throw (.misuse topForm ("unrecognized arguments: " ++ String.intercalate " " extras))

/-- Takes what stands before the verb, then the verb. -/
def beforeVerb (extras : List String) : List (String × Mark) → Except Refusal Command
  | [] => throw (.misuse topForm "the following arguments are required: command")
  | (argument, .stray) :: rest => beforeVerb (extras ++ [argument]) rest
  | (_, .hit hit) :: rest => do
    let progress ← (Progress.start.leave extras).takeHit topForm hit
    beforeVerb progress.extras rest
  | (argument, .divider) :: rest =>
    match rest with
    | [] => throw (.misuse topForm "the following arguments are required: command")
    | _ => ofVerb extras argument (rest.map (·.1))
  | (argument, .plain) :: rest => ofVerb extras argument (rest.map (·.1))

/-- Reads a command line. -/
def parse (arguments : List String) : Except Refusal Command := do
  beforeVerb [] (← topForm.classify arguments)

end Command

end Marginalia
