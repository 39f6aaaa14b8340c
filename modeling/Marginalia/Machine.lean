import Marginalia.Limits
import Marginalia.Page
import Marginalia.Store.Render
import Marginalia.Text.Blank

/-!
# The machine

A `Machine` is a program in the middle of its run: the store, the page that is printed on, the
scope that names are looked up in, and a log of what went in and out. An `Action` changes the
machine and gives a result or stops with a fault; either way the machine it leaves behind can be
looked at.

`Action.within` runs an action in another scope and comes back to the one it left, whether the
action succeeds or not. What reads a name or goes down into a value may stop at the limits of the
run, so these actions are parts of `Limits`.
-/

namespace Marginalia

/-- Something that passed between a program and the world. -/
inductive Event where
  /-- The text was printed on the line. -/
  | printed (line : Int) (text : String)
  /-- The text was put to whoever answers. -/
  | asked (text : String)
deriving DecidableEq, Repr

/-- A program in the middle of its run. -/
structure Machine where
  store : Store
  page : Page
  /-- The scope that names are looked up in. -/
  scope : ScopeId
  /-- What went in and out, oldest first. -/
  log : List Event
deriving Repr

/-- A step of a run. -/
abbrev Action := EStateM Fault Machine

/-- Refuses a name whose groups are nested too deeply to be read. -/
def Limits.checkSpelling (limits : Limits) (name : String) : Except Fault Unit :=
  match Pattern.read limits.depth name.toList with
  | .error .tooDeep => throw .tooDeep
  | _ => return ()

/-- Refuses a name that no run can read. -/
def checkSpelling (name : String) : Except Fault Unit :=
  Limits.standard.checkSpelling name

/-- The machine that runs a text in a scope: it has the settings given, an unprinted page, and a
new printer under its names. -/
def Machine.start (store : Store) (scope : ScopeId) (settings : Settings) (text : List Char) :
    Machine :=
  { store := { store with settings }.installPrinter scope
    page := .ofSource text
    scope
    log := [] }

/-- What was asked, oldest first. -/
def Machine.asked (machine : Machine) : List String :=
  machine.log.filterMap fun
    | .asked text => some text
    | .printed _ _ => none

namespace Action

/-- Runs an action in another scope. -/
def within {α : Type} (scope : ScopeId) (action : Action α) : Action α := fun machine =>
  match action { machine with scope } with
  | .ok result after => .ok result { after with scope := machine.scope }
  | .error fault after => .error fault { after with scope := machine.scope }

/-- Changes the store. -/
def onStore (change : Store → Store) : Action Unit :=
  modify fun machine => { machine with store := change machine.store }

/-- Makes a function of the present scope. -/
def declare (name : Token) (params : List Token) (body : List Stmt) : Action Value := do
  let machine ← get
  let (value, store) := machine.store.newFunction (.declared name params body machine.scope)
  set { machine with store }
  return value

/-- A computation on the store that may stop. -/
def consult {α : Type} (query : Store → Except Fault α) : Action α := do
  match query (← get).store with
  | .ok result => return result
  | .error fault => throw fault

end Action

/-! ## Actions that limits may stop -/

namespace Limits

variable (limits : Limits)

/-- Stops at a name whose groups are nested too deeply to be read. -/
def checkName (name : String) : Action Unit :=
  match limits.checkSpelling name with
  | .ok _ => pure ()
  | .error fault => throw fault

/-- The value of a name in the present scope. -/
def lookup (name : String) : Action Value := do
  limits.checkName name
  let machine ← get
  return machine.store.lookup machine.scope name

/-- Writes to a name from the present scope. -/
def assign (name : String) (value : Value) : Action Unit := do
  limits.checkName name
  let machine ← get
  Action.onStore (·.assign machine.scope name value)

/-- Follows a directive in the present scope. -/
def direct (name value : String) : Action Unit := do
  limits.checkName name
  let machine ← get
  Action.onStore (·.direct machine.scope name value)

/-- Prints arguments on a line. -/
def print (line : Int) (arguments : List Value) : Action Unit := do
  let text ← Action.consult (·.renderAll limits.depth arguments)
  let machine ← get
  match machine.page.print? line text.toList with
  | none => throw .noSuchLine
  | some page => set { machine with page, log := machine.log ++ [Event.printed line text] }

/-- Puts arguments to whoever answers in a dialogue, and takes the next answer. -/
def ask (dialogue : Nat) (arguments : List Value) : Action Value := do
  let text ← Action.consult (·.renderAll limits.depth arguments)
  let question := String.ofList (trim text.toList)
  modify fun machine => { machine with log := machine.log ++ [Event.asked question] }
  match (← get).store.dialogues.get? dialogue with
  | some (answer :: _) =>
    Action.onStore fun store =>
      { store with dialogues := store.dialogues.update dialogue List.tail }
    return .text answer
  | _ => throw .noAnswer

end Limits

end Marginalia
