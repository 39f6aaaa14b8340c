import Marginalia.Document
import Marginalia.Text.Hex

/-!
# Documents as text

`Document.written` is the exchange form of a document: two blanks of indent a level, one item or
member a line, an empty list or object closed at once. Its `Alphabet` says whether characters
beyond visible ASCII stand as themselves or as escapes of their sixteen-bit units.
-/

namespace Marginalia

/-- Which characters of a text stand as themselves in the exchange form. -/
inductive Alphabet where
  /-- Every character but quotes, backslashes and controls. -/
  | full
  /-- Of those, the visible ASCII ones and the blank; the others are escaped. -/
  | ascii
deriving DecidableEq

/-- The escape of one sixteen-bit unit. -/
def unitEscape (unit : Nat) : List Char :=
  '\\' :: 'u' :: hexDigits 4 unit

/-- The escape of a code point: one unit, or the two units of a code point past the first plane. -/
def codeEscape (code : Nat) : List Char :=
  if code < 0x10000 then unitEscape code
  else
    let offset := code - 0x10000
    unitEscape (0xD800 + offset / 0x400) ++ unitEscape (0xDC00 + offset % 0x400)

/-- One character of a text in the exchange form. -/
def Alphabet.writtenChar (alphabet : Alphabet) (c : Char) : List Char :=
  if c = '\x22' ∨ c = '\\' then ['\\', c]
  else if c = '\n' then ['\\', 'n']
  else if c = '\r' then ['\\', 'r']
  else if c = '\t' then ['\\', 't']
  else if c = '\x08' then ['\\', 'b']
  else if c = '\x0c' then ['\\', 'f']
  else if c.toNat < 0x20 then unitEscape c.toNat
  else if alphabet = .ascii ∧ 0x7F ≤ c.toNat then codeEscape c.toNat
  else [c]

/-- A text between its quotes in the exchange form. -/
def Alphabet.writtenText (alphabet : Alphabet) (text : String) : String :=
  String.ofList ('\x22' :: text.toList.flatMap alphabet.writtenChar ++ ['\x22'])

/-- The break before an item at a depth. -/
def lineBreak (depth : Nat) : String :=
  "\n" ++ String.ofList (List.replicate (2 * depth) ' ')

namespace Document

mutual

/-- The exchange form of a document whose first line begins at a depth. -/
def writtenAt (alphabet : Alphabet) (depth : Nat) : Document → String
  | .null => "null"
  | .bool value => if value then "true" else "false"
  | .number value => toString value
  | .text value => alphabet.writtenText value
  | .list [] => "[]"
  | .list (item :: items) =>
    "[" ++ lineBreak (depth + 1) ++ item.writtenAt alphabet (depth + 1) ++
      writtenItems alphabet (depth + 1) items ++ lineBreak depth ++ "]"
  | .object [] => "\x7b\x7d"
  | .object ((name, item) :: members) =>
    "\x7b" ++ lineBreak (depth + 1) ++ alphabet.writtenText name ++ ": " ++
      item.writtenAt alphabet (depth + 1) ++
      writtenMembers alphabet (depth + 1) members ++ lineBreak depth ++ "\x7d"

/-- The items after the first. -/
def writtenItems (alphabet : Alphabet) (depth : Nat) : List Document → String
  | [] => ""
  | item :: items =>
    "," ++ lineBreak depth ++ item.writtenAt alphabet depth ++ writtenItems alphabet depth items

/-- The members after the first. -/
def writtenMembers (alphabet : Alphabet) (depth : Nat) : List (String × Document) → String
  | [] => ""
  | (name, item) :: members =>
    "," ++ lineBreak depth ++ alphabet.writtenText name ++ ": " ++
      item.writtenAt alphabet depth ++ writtenMembers alphabet depth members

end

/-- The exchange form. -/
def written (alphabet : Alphabet) (document : Document) : String :=
  document.writtenAt alphabet 0

end Document

end Marginalia
