import Marginalia.Pattern.Spelling
import Marginalia.Program
import Marginalia.Store.Heap

/-!
# Stores

A `Store` holds what a running program can reach: scopes with their bindings, the lists that
layered bindings have grown, functions, the dialogues that answers are taken from, and the
settings that directives change.

Names are found by overlap. A scope's binding serves a name when its spelling and the name share a
plain name; the first such binding of the nearest such scope is taken (`Store.resolve?`). A write
goes to that binding, and only if there is none a new binding is added to the scope itself
(`Store.assign`).

In palimpsest mode a write covers nothing: the binding becomes layered, and its value is the list
of everything written, oldest first. The list is one cell of the store, shared by all who hold it.
-/

namespace Marginalia

/-- The address of a scope. -/
abbrev ScopeId := Nat

/-- A value of a running program. Lists and functions are held by their address. -/
inductive Value where
  | nothing
  | truth (value : Bool)
  | text (value : String)
  | layers (list : Nat)
  | function (address : Nat)
deriving DecidableEq, Repr, Inhabited

/-- Only `nothing` and `false` count as false. -/
def Value.isTruthy : Value → Bool
  | .nothing | .truth false => false
  | _ => true

/-- The value of a constant. -/
def Constant.value : Constant → Value
  | .nothing => .nothing
  | .truth value => .truth value
  | .text value => .text value

/-- Something that can be called. -/
inductive Function where
  /-- Writes its arguments into the margin. -/
  | printer
  /-- Asks and takes the next answer of a dialogue. -/
  | listener (dialogue : Nat)
  /-- A declared function and the scope it was declared in. -/
  | declared (name : Token) (params : List Token) (body : List Stmt) (home : ScopeId)
deriving Repr

/-- A spelling with its value. -/
structure Binding where
  spelling : String
  value : Value
  /-- The value is the list of everything written. -/
  layered : Bool
deriving DecidableEq, Repr

/-- A scope: the scopes around it, nearest first, and its bindings, oldest first. -/
structure Scope where
  outer : List ScopeId
  bindings : List Binding
deriving DecidableEq, Repr

/-- What directives change. -/
structure Settings where
  palimpsest : Bool
  /-- The dialogue that a new listener takes its answers from. -/
  dialogue : Option Nat
deriving DecidableEq, Repr

/-- Everything a running program can reach. -/
structure Store where
  scopes : Heap Scope
  lists : Heap (List Value)
  functions : Heap Function
  /-- The answers of each dialogue that have not been taken. -/
  dialogues : Heap (List String)
  settings : Settings
deriving Repr

/-- The place of a binding: its scope, and how many bindings of the scope are older. -/
structure Slot where
  scope : ScopeId
  index : Nat
deriving DecidableEq, Repr

/-- No palimpsest, nobody to ask. -/
def Settings.plain : Settings := ⟨false, none⟩

namespace Store

/-- The scope in which everything begins. -/
def root : ScopeId := 0

/-- A store with nothing in it but the root scope. -/
def fresh : Store :=
  ⟨Heap.empty.alloc ⟨[], []⟩, .empty, .empty, .empty, .plain⟩

/-! ## Making things -/

/-- Makes a scope inside another one, at address `store.scopes.size`. -/
def child (store : Store) (scope : ScopeId) : Store :=
  let outer := (store.scopes.get? scope).elim [] (·.outer)
  { store with scopes := store.scopes.alloc ⟨scope :: outer, []⟩ }

/-- Makes a list. -/
def newList (store : Store) (values : List Value) : Value × Store :=
  (.layers store.lists.size, { store with lists := store.lists.alloc values })

/-- Makes a function. -/
def newFunction (store : Store) (function : Function) : Value × Store :=
  (.function store.functions.size, { store with functions := store.functions.alloc function })

/-- Makes a dialogue of some answers. -/
def newDialogue (store : Store) (answers : List String) : Nat × Store :=
  (store.dialogues.size, { store with dialogues := store.dialogues.alloc answers })

/-! ## Finding names -/

/-- The first binding of the scope itself that shares a name with the spelling. -/
def find? (store : Store) (scope : ScopeId) (name : String) : Option Slot := do
  let found ← store.scopes.get? scope
  let index ← found.bindings.findIdx? fun binding => spellingsOverlap binding.spelling name
  return ⟨scope, index⟩

/-- The scope and the scopes around it, nearest first. -/
def chain (store : Store) (scope : ScopeId) : List ScopeId :=
  scope :: (store.scopes.get? scope).elim [] (·.outer)

/-- The first binding that shares a name with the spelling, in the nearest scope that has one. -/
def resolve? (store : Store) (scope : ScopeId) (name : String) : Option Slot :=
  (store.chain scope).findSome? fun around => store.find? around name

/-- The binding at a place. -/
def binding? (store : Store) (slot : Slot) : Option Binding := do
  let scope ← store.scopes.get? slot.scope
  scope.bindings[slot.index]?

/-- The value of a name; a name that nothing binds means itself. -/
def lookup (store : Store) (scope : ScopeId) (name : String) : Value :=
  match (store.resolve? scope name).bind store.binding? with
  | some binding => binding.value
  | none => .text name

/-! ## Writing -/

/-- Puts a binding in the place of another. -/
def setBinding (store : Store) (slot : Slot) (binding : Binding) : Store :=
  { store with
    scopes := store.scopes.update slot.scope fun scope =>
      { scope with bindings := scope.bindings.set slot.index binding } }

/-- Writes to a binding that is there. In palimpsest mode a layered binding's list grows, and a
plain one becomes layered over the value it had. -/
def overwrite (store : Store) (slot : Slot) (value : Value) : Store :=
  match store.binding? slot with
  | none => store
  | some binding =>
    if store.settings.palimpsest then
      match binding.layered, binding.value with
      | true, .layers list => { store with lists := store.lists.update list (· ++ [value]) }
      | _, old =>
        let (layers, store) := store.newList [old, value]
        store.setBinding slot ⟨binding.spelling, layers, true⟩
    else store.setBinding slot ⟨binding.spelling, value, false⟩

/-- Adds a binding at the end of a scope. -/
def addBinding (store : Store) (scope : ScopeId) (binding : Binding) : Store :=
  { store with
    scopes := store.scopes.update scope fun scope =>
      { scope with bindings := scope.bindings ++ [binding] } }

/-- Binds a name that nothing has bound. -/
def bindNew (store : Store) (scope : ScopeId) (name : String) (value : Value) : Store :=
  if store.settings.palimpsest then
    let (layers, store) := store.newList [value]
    store.addBinding scope ⟨name, layers, true⟩
  else store.addBinding scope ⟨name, value, false⟩

/-- Writes to the name within the scope itself. -/
def define (store : Store) (scope : ScopeId) (name : String) (value : Value) : Store :=
  match store.find? scope name with
  | some slot => store.overwrite slot value
  | none => store.bindNew scope name value

/-- Writes to the nearest binding of the name, or binds it in the scope. -/
def assign (store : Store) (scope : ScopeId) (name : String) (value : Value) : Store :=
  match store.resolve? scope name with
  | some slot => store.overwrite slot value
  | none => store.bindNew scope name value

/-- Writes one value to several names in turn. -/
def assignAll (store : Store) (scope : ScopeId) (names : List String) (value : Value) : Store :=
  names.foldl (fun store name => store.assign scope name value) store

/-! ## Directives and calls -/

/-- The names that are bound to the listener of a dialogue. -/
def listenerNames : List String :=
  ["input", "learn", "listen"]

/-- Binds a new printer to its names. -/
def installPrinter (store : Store) (scope : ScopeId) : Store :=
  let (printer, store) := store.newFunction .printer
  store.assignAll scope printerNames printer

/-- Binds a new listener to its names, if there is somebody to ask. -/
def installListener (store : Store) (scope : ScopeId) : Store :=
  match store.settings.dialogue with
  | none => store
  | some dialogue =>
    let (listener, store) := store.newFunction (.listener dialogue)
    store.assignAll scope listenerNames listener

/-- Follows a directive; one that is not known binds its name to its value. -/
def direct (store : Store) (scope : ScopeId) (name value : String) : Store :=
  if name = "as" ∧ value = "palimpsest" then
    { store with settings := { store.settings with palimpsest := true } }
  else if name = "in" ∧ value = "dialogue" then store.installListener scope
  else store.assign scope name (.text value)

/-- The address of the function that a value calls: its own, or that of the newest layer. -/
def callable? (store : Store) (value : Value) : Option Nat :=
  let top :=
    match value with
    | .layers list => ((store.lists.get? list).bind (·.getLast?)).getD value
    | _ => value
  match top with
  | .function address => some address
  | _ => none

end Store

end Marginalia
