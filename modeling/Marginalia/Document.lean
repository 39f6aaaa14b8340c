import Marginalia.Position

/-!
# Documents

A `Document` is a tree of plain data in the shape that answers have: nothing, truth values, whole
numbers, texts, lists and objects. Members of an object keep the order in which they were put
there, because the written form shows it.
-/

namespace Marginalia

/-- A tree of plain data. -/
inductive Document where
  | null
  | bool (value : Bool)
  | number (value : Int)
  | text (value : String)
  | list (items : List Document)
  | object (members : List (String × Document))
deriving BEq, Repr, Inhabited

namespace Document

/-- The document of an optional part: nothing where the part is absent. -/
def ofOption {α : Type} (describe : α → Document) : Option α → Document
  | none => .null
  | some part => describe part

/-- The member of that name, for an object that has one. -/
def member? (name : String) : Document → Option Document
  | .object members => members.lookup name
  | _ => none

end Document

/-- A point as its three numbers. -/
def Position.document (here : Position) : Document :=
  .object [("index", .number here.index), ("line", .number here.line),
    ("column", .number here.column)]

/-- A span as its text's name and its two ends. -/
def Span.document (span : Span) : Document :=
  .object [("file", .text span.file), ("start", span.start.document),
    ("end", span.stop.document)]

end Marginalia
