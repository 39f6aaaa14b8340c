import Marginalia.Document
import Marginalia.Text.Quoted

/-!
# Tokens

A program is read from a list of tokens: marks, keywords, names, quoted texts, line ends and the
end of the text. A token keeps the text it was read from and where that stands; a quoted text and
the text of a remark also keep what they mean.
-/

namespace Marginalia

/-- What a token is. -/
inductive TokenKind where
  | colon | comma | dot | dash | ampersand | pound | dagger
  | name | string
  | andWord | orWord | isWord | amWord | areWord | ifWord | elseWord | whileWord
  | letWord | beWord | toWord | trueWord | falseWord | nothingWord | notWord
  | lineEnd | textEnd
deriving DecidableEq, Repr, Inhabited

namespace TokenKind

/-- Every kind, each once. -/
def all : List TokenKind :=
  [.colon, .comma, .dot, .dash, .ampersand, .pound, .dagger, .name, .string,
   .andWord, .orWord, .isWord, .amWord, .areWord, .ifWord, .elseWord, .whileWord,
   .letWord, .beWord, .toWord, .trueWord, .falseWord, .nothingWord, .notWord,
   .lineEnd, .textEnd]

/-- The label of a kind in listings. -/
def label : TokenKind → String
  | .colon => "COLON"
  | .comma => "COMMA"
  | .dot => "DOT"
  | .dash => "EMDASH"
  | .ampersand => "AMPERSAND"
  | .pound => "POUND"
  | .dagger => "DAGGER"
  | .name => "IDENTIFIER"
  | .string => "STRING"
  | .andWord => "AND"
  | .orWord => "OR"
  | .isWord => "IS"
  | .amWord => "AM"
  | .areWord => "ARE"
  | .ifWord => "IF"
  | .elseWord => "ELSE"
  | .whileWord => "WHILE"
  | .letWord => "LET"
  | .beWord => "BE"
  | .toWord => "TO"
  | .trueWord => "TRUE"
  | .falseWord => "FALSE"
  | .nothingWord => "NOTHING"
  | .notWord => "NOT"
  | .lineEnd => "NEWLINE"
  | .textEnd => "EOF"

/-- The kind with that label. -/
def ofLabel? (text : String) : Option TokenKind :=
  all.find? fun kind => kind.label == text

/-- The kind of a word: a keyword if it is spelled exactly like one, else a name. -/
def ofWord (word : String) : TokenKind :=
  match word with
  | "and" => .andWord
  | "or" => .orWord
  | "is" => .isWord
  | "am" => .amWord
  | "are" => .areWord
  | "not" => .notWord
  | "true" => .trueWord
  | "false" => .falseWord
  | "nothing" => .nothingWord
  | "let" => .letWord
  | "be" => .beWord
  | "to" => .toWord
  | "if" => .ifWord
  | "else" => .elseWord
  | "while" => .whileWord
  | _ => .name

/-- The kind of a mark of one character. -/
def ofMark? (c : Char) : Option TokenKind :=
  match c with
  | '—' => some .dash
  | ':' => some .colon
  | ',' => some .comma
  | '.' => some .dot
  | '&' => some .ampersand
  | '#' => some .pound
  | _ => none

end TokenKind

/-- A piece of a program's text. -/
structure Token where
  /-- What it is. -/
  kind : TokenKind
  /-- The text it was read from. -/
  lexeme : String
  /-- What a quoted text or a remark says; absent for every other kind. -/
  literal : Option String
  /-- Where it stands. -/
  span : Span
deriving DecidableEq, Repr, Inhabited

namespace Token

/-- A token on one line of a listing: label, quoted text and where it starts. -/
def shown (token : Token) : String :=
  token.kind.label ++ "(" ++ quoted token.lexeme ++ ")@" ++ toString token.span.start.line ++
    ":" ++ toString token.span.start.column

/-- The words that point at a token in a message; an empty token leaves nothing to point at. -/
def pointer (token : Token) : String :=
  if token.kind = .lineEnd then "at end of line: "
  else if token.lexeme.isEmpty then ""
  else "at \"" ++ token.lexeme ++ "\": "

/-- A token as a document, with its span if asked. -/
def document (spans : Bool) (token : Token) : Document :=
  .object ([("type", .text token.kind.label), ("lexeme", .text token.lexeme),
    ("literal", .ofOption .text token.literal)] ++
    if spans then [("span", token.span.document)] else [])

end Token

end Marginalia
