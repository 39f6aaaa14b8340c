import Marginalia.Document.Written
import Marginalia.Eval
import Marginalia.Program.Layout
import Marginalia.Program.Outline
import Marginalia.Program.Parse
import Marginalia.Token.Scan

/-!
# Sources

A `Source` is a text with a name. It is read (`Source.parse`), laid out (`Source.format`),
described (`Source.explain`) and run (`Source.run`).

Layout and outline follow a tree to its leaves, so they refuse a tree that is too deep; reading
alone does not notice long chains of operators, which nest to the left.
-/

namespace Marginalia

/-- A text with a name. -/
structure Source where
  text : String
  file : String
deriving DecidableEq, Repr

/-- A text that has been read. -/
structure Parsed where
  tokens : List Token
  program : Program
deriving Repr

/-- A run that has ended: why it stopped, if it did, and the machine it leaves behind. -/
structure Run where
  fault : Option Fault
  machine : Machine
deriving Repr

/-- Refuses a program that is too deep to be followed to its leaves. -/
def Program.checkDepth (program : Program) : Except Fault Unit :=
  if depthLimit < Stmt.depths program then throw .tooDeep else return ()

/-- Runs a program on a machine under some limits. -/
def Program.runUnder (limits : Limits) (program : Program) (machine : Machine) : Run :=
  match limits.interpret program machine with
  | .ok _ after => ⟨none, after⟩
  | .error fault after => ⟨some fault, after⟩

/-- Runs a program on a machine. -/
def Program.run (program : Program) (machine : Machine) : Run :=
  program.runUnder .standard machine

/-- The page after a run, as text. -/
def Machine.echo (machine : Machine) : String :=
  String.ofList machine.page.text

/-- Plain settings, with somebody who gives these answers. -/
def Store.answering (store : Store) : Option (List String) → Settings × Store
  | none => (.plain, store)
  | some answers =>
    let (dialogue, store) := store.newDialogue answers
    (⟨false, some dialogue⟩, store)

/-- The outline that notes about a run show. -/
def Parsed.outlineText (parsed : Parsed) : Except Fault String := do
  parsed.program.checkDepth
  return (parsed.program.outline false).written .ascii

/-- How many tokens and statements were read, on one line. -/
def Parsed.counts (parsed : Parsed) : String :=
  "debug: tokens=" ++ toString parsed.tokens.length ++ " statements=" ++
    toString parsed.program.length ++ "\n"

namespace Source

/-- The tokens of a source. -/
def scan (source : Source) : Except Fault (List Token) :=
  Marginalia.scan source.file source.text.toList

/-- The tokens and the program of a source that is read under some limits. -/
def parseUnder (limits : Limits) (source : Source) : Except Fault Parsed := do
  let tokens ← source.scan
  let program ← Program.parseWithin limits.depth tokens
  return ⟨tokens, program⟩

/-- The tokens and the program of a source. -/
def parse (source : Source) : Except Fault Parsed :=
  source.parseUnder .standard

/-- The number of tokens and the outline of a source. -/
def explain (source : Source) : Except Fault Document := do
  let parsed ← source.parse
  parsed.program.checkDepth
  return .object [("tokens", .number parsed.tokens.length), ("ast", parsed.program.outline true)]

/-- The canonical text of a source. -/
def format (source : Source) : Except Fault String := do
  let parsed ← source.parse
  parsed.program.checkDepth
  parsed.program.layout

/-- The machine that a run of the source in a scope of a store begins with. -/
def openedIn (source : Source) (store : Store) (scope : ScopeId)
    (answers : Option (List String)) : Machine :=
  let (settings, store) := store.answering answers
  .start store scope settings source.text.toList

/-- The machine that a run of the source in a fresh store begins with. -/
def opened (source : Source) (answers : Option (List String)) : Machine :=
  source.openedIn .fresh Store.root answers

/-- Reads a source and runs it in a scope of a store, under some limits. -/
def runInUnder (limits : Limits) (source : Source) (store : Store) (scope : ScopeId)
    (answers : Option (List String)) : Except Fault (Parsed × Run) := do
  let parsed ← source.parseUnder limits
  return (parsed, parsed.program.runUnder limits (source.openedIn store scope answers))

/-- Reads a source and runs it in a scope of a store. -/
def runIn (source : Source) (store : Store) (scope : ScopeId) (answers : Option (List String)) :
    Except Fault (Parsed × Run) :=
  source.runInUnder .standard store scope answers

/-- Reads a source and runs it in a fresh store, under some limits. -/
def runUnder (limits : Limits) (source : Source) (answers : Option (List String)) :
    Except Fault (Parsed × Run) :=
  source.runInUnder limits .fresh Store.root answers

/-- Reads a source and runs it in a fresh store. -/
def run (source : Source) (answers : Option (List String)) : Except Fault (Parsed × Run) :=
  source.runUnder .standard answers

/-- Reads a source, notes what was read, and runs it in a fresh store. The notes are there even
where what follows them fails. -/
def runNoted (source : Source) (answers : Option (List String)) :
    String × Except Fault (Parsed × Run) :=
  match source.parse with
  | .error fault => ("", .error fault)
  | .ok parsed =>
    match parsed.outlineText with
    | .error fault => (parsed.counts, .error fault)
    | .ok outline => (parsed.counts ++ outline ++ "\n", source.run answers)

end Source

end Marginalia
