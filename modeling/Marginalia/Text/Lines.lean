/-!
# Lines

`piecesAt` cuts a text at every place where a mark stands and `joinWith` puts the pieces together
again; `joinWith_piecesAt` says that nothing is lost. Lines are the pieces between line feeds
(`splitLines`, `joinLines`). Two further rules of line ends are here:
`foldLineEnds` reads a carriage return, with or without a line feed, as one line feed, and
`countRows` counts the rows a viewer shows, where ten different characters end a row and a final
row end opens no new row.
-/

namespace Marginalia

/-- The pieces of a text between the places where a mark stands; a text without the mark is a
single piece. -/
def piecesAt (mark : Char) : List Char → List (List Char)
  | [] => [[]]
  | c :: rest =>
    if c = mark then [] :: piecesAt mark rest
    else
      match piecesAt mark rest with
      | [] => [[c]]
      | piece :: pieces => (c :: piece) :: pieces

/-- The pieces with a mark between each two. -/
def joinWith (mark : Char) : List (List Char) → List Char
  | [] => []
  | [piece] => piece
  | piece :: next :: pieces => piece ++ mark :: joinWith mark (next :: pieces)

theorem piecesAt_ne_nil (mark : Char) (text : List Char) : piecesAt mark text ≠ [] := by
  cases text with
  | nil => simp [piecesAt]
  | cons c rest =>
    unfold piecesAt
    split
    · simp
    · split <;> simp

theorem joinWith_piecesAt (mark : Char) (text : List Char) :
    joinWith mark (piecesAt mark text) = text := by
  induction text with
  | nil => rfl
  | cons c rest ih =>
    unfold piecesAt
    split
    case isTrue met =>
      cases found : piecesAt mark rest with
      | nil => exact absurd found (piecesAt_ne_nil mark rest)
      | cons piece pieces => simp [joinWith, ← found, ih, met]
    case isFalse other =>
      cases found : piecesAt mark rest with
      | nil => exact absurd found (piecesAt_ne_nil mark rest)
      | cons piece pieces =>
        rw [found] at ih
        cases pieces with
        | nil => simpa [joinWith] using ih
        | cons next pieces => simpa [joinWith] using ih

/-- The lines of a text, without the line feeds between them. -/
def splitLines (text : List Char) : List (List Char) :=
  piecesAt '\n' text

/-- The lines with a line feed between each two. -/
def joinLines (lines : List (List Char)) : List Char :=
  joinWith '\n' lines

theorem joinLines_splitLines (text : List Char) : joinLines (splitLines text) = text :=
  joinWith_piecesAt '\n' text

/-- Every carriage return, with or without a line feed after it, is read as one line feed. -/
def foldLineEnds : List Char → List Char
  | '\r' :: '\n' :: rest => '\n' :: foldLineEnds rest
  | '\r' :: rest => '\n' :: foldLineEnds rest
  | c :: rest => c :: foldLineEnds rest
  | [] => []

/-- The characters that end a row, besides a carriage return with its line feed. -/
def isRowEnd (c : Char) : Bool :=
  let n := c.toNat
  (0x0A ≤ n && n ≤ 0x0D) || (0x1C ≤ n && n ≤ 0x1E) || n == 0x85 || n == 0x2028 || n == 0x2029

/-- How many rows the text has when `begun` says whether a row has begun. -/
def countRowsFrom : Bool → List Char → Nat
  | begun, [] => if begun then 1 else 0
  | _, '\r' :: '\n' :: rest => countRowsFrom false rest + 1
  | _, c :: rest => if isRowEnd c then countRowsFrom false rest + 1 else countRowsFrom true rest

/-- The number of rows of the text; a final row end opens no new row. -/
def countRows (text : List Char) : Nat :=
  countRowsFrom false text

/-- The lines that a reader of the text takes one by one: a final line feed ends the last line
and opens none. -/
def takenLines (text : List Char) : List (List Char) :=
  match (splitLines text).reverse with
  | [] :: earlier => earlier.reverse
  | all => all.reverse

end Marginalia
