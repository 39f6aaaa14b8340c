import Marginalia.Pattern.Overlap

/-!
# Spellings

A name in a program spells a pattern: `a|b` for one or the other, brackets for a group or for one
character of several, and a question mark after a piece that may be left out. A question mark that
follows no piece, and every other character, stands for itself. A spelling that does not fit this
shape is a plain name that means only itself.

`Reading.step` reads a spelling character by character with a stack of open groups. The stack
never holds more groups than `room` says.
-/

namespace Marginalia

/-- A group that is being read. The pieces are kept last one first. -/
structure Group where
  /-- The alternatives before the last bar. -/
  alternatives : List Pattern
  /-- The pieces since the last bar. -/
  pieces : List Pattern
  /-- A question mark may still mark the last piece. -/
  markable : Bool
deriving DecidableEq, Repr

/-- Why a spelling is not read as a pattern. -/
inductive Misreading where
  | malformed
  | tooDeep
deriving DecidableEq, Repr

/-- A spelling part of the way. -/
structure Reading where
  /-- The innermost group. -/
  group : Group
  /-- The groups around it, from the inside out. -/
  outer : List Group
  /-- The characters of a class that is being read, last one first. -/
  letters : Option (List Char)
deriving DecidableEq, Repr

namespace Group

/-- A group of which nothing has been read. -/
def fresh : Group := ⟨[], [], false⟩

/-- The pieces since the last bar as one pattern. -/
def sequence (group : Group) : Pattern :=
  group.pieces.foldl (fun rest piece => .seq piece rest) .blank

/-- The group as one pattern. -/
def pattern (group : Group) : Pattern :=
  group.alternatives.foldl (fun rest earlier => .alt earlier rest) group.sequence

/-- The group with one more piece. -/
def push (group : Group) (piece : Pattern) : Group :=
  { group with pieces := piece :: group.pieces, markable := true }

/-- The group after a bar. -/
def bar (group : Group) : Group :=
  ⟨group.sequence :: group.alternatives, [], false⟩

/-- The group after a question mark. -/
def mark (group : Group) : Group :=
  match group.markable, group.pieces with
  | true, piece :: pieces => { group with pieces := .opt piece :: pieces, markable := false }
  | _, _ => group.push (.oneOf ['?'])

end Group

namespace Reading

/-- Nothing has been read. -/
def start : Reading := ⟨.fresh, [], none⟩

/-- Reads one character, with room for so many groups inside each other. -/
def step (room : Nat) (reading : Reading) (c : Char) : Except Misreading Reading :=
  match reading.letters with
  | some letters =>
    if c = ']' then
      if letters.isEmpty then .error .malformed
      else
        .ok { reading with group := reading.group.push (.oneOf letters.reverse), letters := none }
    else .ok { reading with letters := some (c :: letters) }
  | none =>
    match c with
    | '(' =>
      if reading.outer.length < room then
        .ok { reading with group := .fresh, outer := reading.group :: reading.outer }
      else .error .tooDeep
    | ')' =>
      match reading.outer with
      | [] => .error .malformed
      | around :: outer =>
        .ok { reading with group := around.push reading.group.pattern, outer }
    | '|' => .ok { reading with group := reading.group.bar }
    | '?' => .ok { reading with group := reading.group.mark }
    | '[' => .ok { reading with letters := some [] }
    | ']' => .error .malformed
    | c => .ok { reading with group := reading.group.push (.oneOf [c]) }

/-- The pattern, once the whole spelling has been read. -/
def finish (reading : Reading) : Except Misreading Pattern :=
  if reading.letters.isSome || !reading.outer.isEmpty then .error .malformed
  else .ok reading.group.pattern

end Reading

namespace Pattern

/-- Reads a spelling with room for so many groups inside each other. -/
def read (room : Nat) (spelling : List Char) : Except Misreading Pattern :=
  (spelling.foldlM (Reading.step room) .start).bind Reading.finish

/-- The pattern of a spelling. The spelling itself bounds how deeply its groups are nested. -/
def ofSpelling (spelling : List Char) : Pattern :=
  match read spelling.length spelling with
  | .ok pattern => pattern
  | .error _ => literal spelling

end Pattern

/-- Two spellings share a name. -/
def spellingsOverlap (left right : String) : Bool :=
  left == right ||
    (Pattern.ofSpelling left.toList).overlaps (Pattern.ofSpelling right.toList)

end Marginalia
