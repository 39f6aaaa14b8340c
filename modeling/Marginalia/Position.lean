/-!
# Positions and spans

A `Position` is a point between two characters of a text: how many characters stand before it, on
which line it is, and how far into that line. Lines count from one. A `Span` is the piece of a
named text from one point up to another.

`Position.after` moves a point over one character; a line feed belongs to the line it ends.
The three numbers are integers, because trees and diagnostics that are put together by hand may
place something before the beginning of a text. `reach` reads an index as a point of a text: below
zero it counts back from the end.
-/

namespace Marginalia

/-- A point in a text. -/
structure Position where
  /-- How many characters stand before the point. -/
  index : Int
  /-- The line, counted from one. -/
  line : Int
  /-- How many characters of the line stand before the point. -/
  column : Int
deriving DecidableEq, Repr, Inhabited

/-- The point before the first character. -/
def Position.origin : Position := ⟨0, 1, 0⟩

/-- The point one character further on. -/
def Position.after (here : Position) (c : Char) : Position :=
  if c = '\n' then ⟨here.index + 1, here.line + 1, 0⟩
  else ⟨here.index + 1, here.line, here.column + 1⟩

/-- The point after a whole piece of text. -/
def Position.afterAll (here : Position) (text : List Char) : Position :=
  text.foldl Position.after here

/-- How many characters of a text stand before an index; an index below zero counts back from the
end. -/
def reach (text : List Char) (index : Int) : Nat :=
  if 0 ≤ index then index.toNat else (index + text.length).toNat

/-- The piece of a text from `start` up to `stop`, without the character at `stop`. -/
structure Span where
  /-- The name of the text. -/
  file : String
  /-- Where the piece begins. -/
  start : Position
  /-- Where the piece has ended. -/
  stop : Position
deriving DecidableEq, Repr, Inhabited

/-- From the start of one span to the end of another. -/
def Span.upTo (first last : Span) : Span :=
  ⟨first.file, first.start, last.stop⟩

theorem Position.afterAll_append (here : Position) (left right : List Char) :
    here.afterAll (left ++ right) = (here.afterAll left).afterAll right := by
  simp [afterAll]

theorem Position.index_afterAll (here : Position) (text : List Char) :
    (here.afterAll text).index = here.index + text.length := by
  induction text generalizing here with
  | nil => simp [afterAll]
  | cons c rest ih =>
    have step : (here.after c).index = here.index + 1 := by
      unfold Position.after; split <;> rfl
    change ((here.after c).afterAll rest).index = _
    rw [ih, step, List.length_cons]
    omega

theorem reach_natCast (text : List Char) (index : Nat) : reach text index = index := by
  simp [reach]

end Marginalia
