import Marginalia.Document
import Marginalia.Text.Binary64
import Marginalia.Text.Quoted

/-!
# Payloads

A `Payload` is plain data that a client sends. It has all that a `Document` has, and numbers with a
fraction besides, which no answer has.

`Payload.shown` is the form of a payload that messages use: a text stands for itself, and everything
inside a list or object is shown by `Payload.inner`, where texts are quoted.
-/

namespace Marginalia

/-- Plain data as clients send it. -/
inductive Payload where
  | null
  | bool (value : Bool)
  | whole (value : Int)
  | fractional (value : Binary64)
  | text (value : String)
  | list (items : List Payload)
  | object (members : List (String × Payload))
deriving Repr, Inhabited

namespace Payload

mutual

/-- A document as a client sends it. -/
def ofDocument : Document → Payload
  | .null => .null
  | .bool value => .bool value
  | .number value => .whole value
  | .text value => .text value
  | .list items => .list (ofItems items)
  | .object members => .object (ofMembers members)

/-- The items of a list as a client sends them. -/
def ofItems : List Document → List Payload
  | [] => []
  | item :: items => ofDocument item :: ofItems items

/-- The members of an object as a client sends them. -/
def ofMembers : List (String × Document) → List (String × Payload)
  | [] => []
  | (name, item) :: members => (name, ofDocument item) :: ofMembers members

end

instance : Coe Document Payload := ⟨ofDocument⟩

/-- The member of that name, for an object that has one. -/
def member? (name : String) : Payload → Option Payload
  | .object members => members.lookup name
  | _ => none

/-- The member of that name, unless it is absent or null. -/
def given? (payload : Payload) (name : String) : Option Payload :=
  match payload.member? name with
  | none | some .null => none
  | some value => some value

/-- The payload says nothing: null, false, zero, or empty. -/
def isVoid : Payload → Bool
  | .null | .bool false | .whole 0 | .text "" | .list [] | .object [] => true
  | .fractional value => value.isZero
  | _ => false

/-- The word that faults use for the kind of a payload. -/
def kindWord : Payload → String
  | .null => "NoneType"
  | .bool _ => "bool"
  | .whole _ => "int"
  | .fractional _ => "float"
  | .text _ => "str"
  | .list _ => "list"
  | .object _ => "dict"

mutual

/-- A payload inside another one, as messages show it. -/
def inner : Payload → String
  | .null => "None"
  | .bool value => if value then "True" else "False"
  | .whole value => toString value
  | .fractional value => value.text
  | .text value => quoted value
  | .list [] => "[]"
  | .list (item :: items) => "[" ++ item.inner ++ innerItems items ++ "]"
  | .object [] => "\x7b\x7d"
  | .object ((name, item) :: members) =>
    "\x7b" ++ quoted name ++ ": " ++ item.inner ++ innerMembers members ++ "\x7d"

/-- The items after the first, as messages show them. -/
def innerItems : List Payload → String
  | [] => ""
  | item :: items => ", " ++ item.inner ++ innerItems items

/-- The members after the first, as messages show them. -/
def innerMembers : List (String × Payload) → String
  | [] => ""
  | (name, item) :: members =>
    ", " ++ quoted name ++ ": " ++ item.inner ++ innerMembers members

end

/-- A payload as messages show it: a text stands for itself. -/
def shown : Payload → String
  | .text value => value
  | payload => payload.inner

end Payload

end Marginalia
