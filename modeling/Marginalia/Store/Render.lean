import Marginalia.Store
import Marginalia.Fault

/-!
# Values as text, and their equality

A list is rendered as its items with commas between them, a function by its name. A list can hold
itself, so both rendering and comparison count how deep they go and give up at a limit.

Two lists are equal when they are equally long and their items are; items that are one and the
same are equal at once, whatever they hold.
-/

namespace Marginalia

namespace Store

/-- The name that a function shows. -/
def functionText : Function → String
  | .printer => "<print()>"
  | .listener _ => "<input()>"
  | .declared name _ _ _ => "<" ++ name.lexeme ++ "()>"

/-- The items of a list. -/
def items (store : Store) (list : Nat) : List Value :=
  (store.lists.get? list).getD []

/-- A value as text. -/
def render (store : Store) : Nat → Value → Except Fault String
  | _, .nothing => return "nothing"
  | _, .truth value => return if value then "true" else "false"
  | _, .text value => return value
  | _, .function address => return (store.functions.get? address).elim "" functionText
  | 0, .layers _ => throw .tooDeep
  | depth + 1, .layers list => do
    let texts ← (store.items list).mapM (store.render depth)
    return String.intercalate ", " texts

/-- Arguments as text: a blank, then the values with blanks between them. -/
def renderAll (store : Store) (depth : Nat) (values : List Value) : Except Fault String := do
  let texts ← values.mapM (store.render depth)
  return " " ++ String.intercalate " " texts

/-- All pairs pass a test; the first that does not ends the search. -/
def allPairs (test : Value → Value → Except Fault Bool) :
    List Value → List Value → Except Fault Bool
  | left :: lefts, right :: rights => do
    if ← test left right then allPairs test lefts rights else return false
  | _, _ => return true

/-- Two values are equal. -/
def equal (store : Store) : Nat → Value → Value → Except Fault Bool
  | 0, .layers _, .layers _ => throw .tooDeep
  | depth + 1, .layers left, .layers right =>
    let lefts := store.items left
    let rights := store.items right
    if lefts.length = rights.length then
      allPairs (fun x y => if x = y then return true else store.equal depth x y) lefts rights
    else return false
  | _, left, right => return left = right

end Store

end Marginalia
