import Marginalia.Store.Render

/-!
# Views of a store

A `View` is a value unfolded for a reader outside the store. Lists are written out; where a list
would stand inside itself, the view says how many lists further out it is.
-/

namespace Marginalia

/-- A value unfolded. -/
inductive View where
  | nothing
  | truth (value : Bool)
  | text (value : String)
  | function (name : String)
  | list (items : List View)
  /-- The list so many lists around this place. -/
  | cycle (levels : Nat)
deriving Repr, Inhabited

namespace Store

/-- A value unfolded inside the lists of `path`, the innermost first. No list is entered twice, so
as many levels as there are lists are enough. -/
def viewWithin (store : Store) : Nat → List Nat → Value → View
  | _, _, .nothing => .nothing
  | _, _, .truth value => .truth value
  | _, _, .text value => .text value
  | _, _, .function address => .function ((store.functions.get? address).elim "" functionText)
  | 0, _, .layers _ => .cycle 0
  | levels + 1, path, .layers list =>
    match path.findIdx? (· = list) with
    | some index => .cycle (index + 1)
    | none => .list ((store.items list).map (store.viewWithin levels (list :: path)))

/-- A value unfolded. -/
def view (store : Store) (value : Value) : View :=
  store.viewWithin (store.lists.size + 1) [] value

/-- The bindings of a scope, oldest first. -/
def bindings (store : Store) (scope : ScopeId) : List Binding :=
  (store.scopes.get? scope).elim [] (·.bindings)

end Store

end Marginalia
