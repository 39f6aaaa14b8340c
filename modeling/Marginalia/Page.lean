import Marginalia.Text.Lines

/-!
# Pages

A `Page` is a program's text laid out for printing into. Each line has a margin, which begins at
the first dagger after a blank; a line without one has an empty margin until something is printed
there. `Page.text` gives the text with what was printed, and a page that nothing was printed on
gives its source back (`Page.text_ofSource`).
-/

namespace Marginalia

/-- A line and what stands in its margin, if it has one. -/
structure Line where
  text : List Char
  margin : Option (List Char)
deriving DecidableEq, Repr

namespace Line

/-- Splits a line at the first dagger that follows a blank. -/
def ofChars : List Char → Line
  | [] => ⟨[], none⟩
  | ' ' :: '†' :: rest => ⟨[], some rest⟩
  | c :: rest =>
    let tail := ofChars rest
    ⟨c :: tail.text, tail.margin⟩

/-- The line with its margin. -/
def chars (line : Line) : List Char :=
  match line.margin with
  | none => line.text
  | some margin => line.text ++ ' ' :: '†' :: margin

/-- The line with more in its margin. -/
def note (line : Line) (text : List Char) : Line :=
  { line with margin := some (line.margin.getD [] ++ text) }

theorem chars_ofChars (text : List Char) : (ofChars text).chars = text := by
  fun_induction ofChars text with
  | case1 => rfl
  | case2 rest => rfl
  | case3 c rest _ tail ih =>
    have margin : (ofChars rest).margin = tail.margin := rfl
    cases found : tail.margin with
    | none => simp_all [chars, tail]
    | some margin => simp_all [chars, tail]

end Line

/-- A program's text, line by line. -/
abbrev Page := List Line

namespace Page

/-- The page of a text. -/
def ofSource (text : List Char) : Page :=
  (splitLines text).map Line.ofChars

/-- The text of a page, margins included. -/
def text (page : Page) : List Char :=
  joinLines (page.map Line.chars)

/-- The place of a numbered line in a page of so many lines. Lines count from one; line zero is
the last line, and lower numbers count back from there. -/
def place? (lines : Nat) (line : Int) : Option Nat :=
  let index := line - 1
  if 0 ≤ index then
    if index < lines then some index.toNat else none
  else if 0 ≤ index + lines then some (index + lines).toNat
  else none

/-- Prints into the margin of a line; fails where the page has no such line. -/
def print? (page : Page) (line : Int) (text : List Char) : Option Page :=
  (place? page.length line).map fun index => page.modify index (·.note text)

theorem text_ofSource (source : List Char) : (ofSource source).text = source := by
  have same : (splitLines source).map (Line.chars ∘ Line.ofChars) = splitLines source := by
    have identity : Line.chars ∘ Line.ofChars = id := funext Line.chars_ofChars
    rw [identity, List.map_id]
  simp [ofSource, text, List.map_map, same, joinLines_splitLines]

end Page

end Marginalia
