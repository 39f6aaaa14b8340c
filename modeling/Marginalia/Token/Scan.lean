import Marginalia.Fault

/-!
# Scanning

`scan` reads a text as tokens in one pass over its characters. A `Scanner` holds the point it has
reached, the tokens so far and the `Mode` it is in: between tokens, in a word, in a quoted text,
or in a remark. `Scanner.step` takes one character, and `Scanner.finish` closes what is open at
the end of the text.

Since the scanner is a fold, scanning a text in two parts is scanning the second part from where
the first one ended (`Scanner.feed_append`).
-/

namespace Marginalia

/-- What the scanner is in the middle of. The characters read so far are kept last one first,
those of a quoted text without the opening quote. -/
inductive Mode where
  | between
  | word (start : Position) (letters : List Char)
  | quotation (start : Position) (letters : List Char)
  | remark (start : Position) (letters : List Char)
deriving DecidableEq, Repr

/-- A scanner part of the way through a text. -/
structure Scanner where
  /-- The name of the text. -/
  file : String
  /-- The point it has reached. -/
  here : Position
  /-- What it is in the middle of. -/
  mode : Mode
  /-- The tokens it has read, the last one first. -/
  tokens : List Token
deriving DecidableEq, Repr

/-- Blanks that separate tokens; a line feed is a token of its own. -/
def isGap (c : Char) : Bool :=
  c = ' ' || c = '\t' || c = '\r'

/-- Characters of words: letters, and the marks that let a name spell several names at once. -/
def isWordChar (c : Char) : Bool :=
  ('a' ≤ c && c ≤ 'z') || ('A' ≤ c && c ≤ 'Z') ||
    c = '(' || c = ')' || c = '[' || c = ']' || c = '|' || c = '?' || c = '*' || c = '+'

namespace Scanner

/-- A scanner before the first character. -/
def start (file : String) : Scanner :=
  ⟨file, .origin, .between, []⟩

/-- The scanner with one more token, from `first` to the point it has reached. -/
def emit (scanner : Scanner) (kind : TokenKind) (first : Position) (lexeme : List Char)
    (literal : Option (List Char)) : Scanner :=
  { scanner with
    mode := .between
    tokens := ⟨kind, String.ofList lexeme, literal.map String.ofList,
      ⟨scanner.file, first, scanner.here⟩⟩ :: scanner.tokens }

/-- Moves the point over a character. -/
def move (scanner : Scanner) (c : Char) : Scanner :=
  { scanner with here := scanner.here.after c }

/-- Closes the word or remark the scanner is in the middle of. -/
def close (scanner : Scanner) : Scanner :=
  match scanner.mode with
  | .between | .quotation _ _ => scanner
  | .word first letters =>
    let word := letters.reverse
    scanner.emit (.ofWord (String.ofList word)) first word none
  | .remark first letters =>
    scanner.emit .string first letters.reverse (some letters.reverse)

/-- Takes the first character of what follows between two tokens. -/
def begin (scanner : Scanner) (c : Char) : Except Fault Scanner :=
  let first := scanner.here
  let moved := scanner.move c
  if isGap c then .ok moved
  else
    match TokenKind.ofMark? c with
    | some kind => .ok (moved.emit kind first [c] none)
    | none =>
      if c = '\n' then .ok (moved.emit .lineEnd first [c] none)
      else if c = '“' then .ok { moved with mode := .quotation first [] }
      else if c = '†' then
        let marked := moved.emit .dagger first [c] none
        .ok { marked with mode := .remark marked.here [] }
      else if isWordChar c then .ok { moved with mode := .word first [c] }
      else .error (.scan (.unexpected c) ⟨scanner.file, first, moved.here⟩)

/-- Takes one character. -/
def step (scanner : Scanner) (c : Char) : Except Fault Scanner :=
  match scanner.mode with
  | .between => scanner.begin c
  | .word first letters =>
    if isWordChar c then .ok { scanner.move c with mode := .word first (c :: letters) }
    else scanner.close.begin c
  | .quotation first letters =>
    let moved := scanner.move c
    if c = '”' then
      .ok (moved.emit .string first ('“' :: letters.reverse ++ ['”']) (some letters.reverse))
    else .ok { moved with mode := .quotation first (c :: letters) }
  | .remark first letters =>
    if c = '\n' then scanner.close.begin c
    else .ok { scanner.move c with mode := .remark first (c :: letters) }

/-- Takes a whole piece of text. -/
def feed (scanner : Scanner) (text : List Char) : Except Fault Scanner :=
  text.foldlM step scanner

/-- Closes what is open at the end of the text and adds the token of the end. -/
def finish (scanner : Scanner) : Except Fault (List Token) :=
  match scanner.mode with
  | .quotation first _ =>
    .error (.scan .unfinishedString ⟨scanner.file, first, scanner.here⟩)
  | _ =>
    let closed := scanner.close
    .ok (closed.emit .textEnd closed.here [] none).tokens.reverse

theorem feed_nil (scanner : Scanner) : scanner.feed [] = .ok scanner := rfl

theorem feed_cons (scanner : Scanner) (c : Char) (rest : List Char) :
    scanner.feed (c :: rest) = scanner.step c >>= fun next => next.feed rest := rfl

theorem feed_append (scanner : Scanner) (left right : List Char) :
    scanner.feed (left ++ right) = scanner.feed left >>= fun next => next.feed right := by
  simp [feed, List.foldlM_append]

end Scanner

/-- The tokens of a text. -/
def scan (file : String) (text : List Char) : Except Fault (List Token) :=
  ((Scanner.start file).feed text).bind Scanner.finish

end Marginalia
