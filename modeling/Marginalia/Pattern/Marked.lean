import Marginalia.Pattern

/-!
# Reading names with marks

A `Marked` pattern has a mark on every letter that the characters read so far may have ended on.
Reading one more character moves the marks (`Marked.shift`): a letter is marked if the character
fits it and a mark, or the beginning of the name, stands right before it. All marks move in one
pass over the pattern, whatever number of ways there are to read the name.

A `Front` adds whether the beginning itself is still where the reading stands. Fronts over one
pattern can be merged, and `Pattern.accepts` reads a name from the front at the beginning.
-/

namespace Marginalia

/-- A pattern with marks on some of its letters. -/
inductive Marked where
  | blank
  | oneOf (mark : Bool) (letters : List Char)
  | seq (first second : Marked)
  | alt (left right : Marked)
  | opt (inner : Marked)
deriving DecidableEq, Repr, Inhabited

namespace Marked

/-- The pattern without a mark. -/
def ofPattern : Pattern → Marked
  | .blank => .blank
  | .oneOf letters => .oneOf false letters
  | .seq first second => .seq (ofPattern first) (ofPattern second)
  | .alt left right => .alt (ofPattern left) (ofPattern right)
  | .opt inner => .opt (ofPattern inner)

/-- The empty name is one of the pattern's. -/
def admitsEmpty : Marked → Bool
  | .blank | .opt _ => true
  | .oneOf _ _ => false
  | .seq first second => first.admitsEmpty && second.admitsEmpty
  | .alt left right => left.admitsEmpty || right.admitsEmpty

/-- A mark stands on a letter that a name may end with. -/
def endsHere : Marked → Bool
  | .blank => false
  | .oneOf mark _ => mark
  | .seq first second => (first.endsHere && second.admitsEmpty) || second.endsHere
  | .alt left right => left.endsHere || right.endsHere
  | .opt inner => inner.endsHere

/-- Moves the marks over one of some characters; `entering` says that a mark stands right before
the pattern. -/
def shift (characters : List Char) (entering : Bool) : Marked → Marked
  | .blank => .blank
  | .oneOf _ letters => .oneOf (entering && letters.any characters.contains) letters
  | .seq first second =>
    .seq (first.shift characters entering)
      (second.shift characters ((entering && first.admitsEmpty) || first.endsHere))
  | .alt left right => .alt (left.shift characters entering) (right.shift characters entering)
  | .opt inner => .opt (inner.shift characters entering)

/-- The marks of two copies of one pattern put together. -/
def merge : Marked → Marked → Marked
  | .oneOf mark letters, .oneOf other _ => .oneOf (mark || other) letters
  | .seq first second, .seq first' second' => .seq (first.merge first') (second.merge second')
  | .alt left right, .alt left' right' => .alt (left.merge left') (right.merge right')
  | .opt inner, .opt inner' => .opt (inner.merge inner')
  | marked, _ => marked

end Marked

/-- Where the reading of a name may stand. -/
structure Front where
  /-- Nothing has been read. -/
  atStart : Bool
  /-- The letters that what was read may have ended on. -/
  marked : Marked
deriving DecidableEq, Repr

namespace Front

/-- The beginning of a pattern's names. -/
def start (pattern : Pattern) : Front :=
  ⟨true, .ofPattern pattern⟩

/-- The name may end here. -/
def accepts (front : Front) : Bool :=
  (front.atStart && front.marked.admitsEmpty) || front.marked.endsHere

/-- Reads one of some characters. -/
def read (characters : List Char) (front : Front) : Front :=
  ⟨false, front.marked.shift characters front.atStart⟩

/-- Either of two fronts over one pattern. -/
def merge (left right : Front) : Front :=
  ⟨left.atStart || right.atStart, left.marked.merge right.marked⟩

end Front

/-- The name is one of the pattern's. -/
def Pattern.accepts (pattern : Pattern) (name : List Char) : Bool :=
  (name.foldl (fun front c => front.read [c]) (Front.start pattern)).accepts

end Marginalia
