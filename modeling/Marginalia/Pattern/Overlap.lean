import Marginalia.Pattern.Marked

/-!
# Overlapping patterns

Two patterns overlap when some name belongs to both. `Pattern.advance` reads every name of one
pattern at once against the other: it moves a front over the whole pattern, merging where the
names part. Neither set of names is ever built, and each letter of the one pattern costs one pass
over the other.
-/

namespace Marginalia

namespace Pattern

/-- The front after any name of the pattern. -/
def advance : Pattern → Front → Front
  | .blank, front => front
  | .oneOf letters, front => front.read letters
  | .seq first second, front => second.advance (first.advance front)
  | .alt left right, front => (left.advance front).merge (right.advance front)
  | .opt inner, front => front.merge (inner.advance front)

/-- Some name belongs to both patterns. -/
def overlaps (left right : Pattern) : Bool :=
  (left.advance (.start right)).accepts

end Pattern

end Marginalia
