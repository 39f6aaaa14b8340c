import Marginalia.Proofs.Scanning.Segments

/-!
# Texts and the tokens they are written in

`Written signs text` says that a text is written in some tokens, whatever places
the tokens have: `signs` are tokens without their places, and between them stand
gaps. The relation knows nothing of a scanner and its modes, nor of points. A word
is as long as it can be, a quoted text ends at the first closing quote, and a
remark ends with its line.

A text is written in some tokens exactly if it is made of the segments that they are
(`Stands.written`, `exists_stands_of_written`). So the scanner finds these tokens
and no others (`scan_of_written`, `exists_of_scan`).
-/

namespace Marginalia

/-- The text is written in these tokens. -/
inductive Written : List Token → List Char → Prop
  | nil : Written [] []
  | gap {signs : List Token} {rest : List Char} {c : Char} :
    isGap c = true → Written signs rest → Written signs (c :: rest)
  | mark {signs : List Token} {rest : List Char} {c : Char} {kind : TokenKind} :
    TokenKind.ofMark? c = some kind → Written signs rest →
    Written (sign kind [c] none :: signs) (c :: rest)
  | lineEnd {signs : List Token} {rest : List Char} :
    Written signs rest → Written (lineEndSign :: signs) ('\n' :: rest)
  | word {signs : List Token} {rest letters : List Char} :
    IsWord letters → WordEnds rest → Written signs rest →
    Written (wordSign letters :: signs) (letters ++ rest)
  | quotation {signs : List Token} {rest letters : List Char} :
    '”' ∉ letters → Written signs rest →
    Written (quotedSign letters :: signs) ('“' :: letters ++ '”' :: rest)
  | remark {signs : List Token} {rest letters : List Char} :
    '\n' ∉ letters → RemarkEnds rest → Written signs rest →
    Written (daggerSign :: remarkSign letters :: signs) ('†' :: letters ++ rest)

/-! ## Written texts are made of segments -/

section

variable {file : String} {here : Position} {signs others tokens : List Token}
  {text rest behind : List Char}

theorem map_erased_placedFrom (file : String) (here : Position) (signs : List Token) :
    (placedFrom file here signs).map Token.erased = signs.map Token.erased := by
  induction signs generalizing here with
  | nil => rfl
  | cons sign signs ih =>
    rw [placedFrom, List.map_cons, List.map_cons, ih]
    rfl

theorem Segment.map_erased (segment : Segment signs text behind) :
    signs.map Token.erased = signs := by
  cases segment <;> rfl

theorem Written.segment (segment : Segment signs text (rest ++ behind))
    (written : Written others rest) : Written (signs ++ others) (text ++ rest) := by
  cases segment with
  | mark mark => exact .mark mark written
  | lineEnd => exact .lineEnd written
  | word word ends => exact .word word ends.of_append written
  | quotation unclosed =>
    rw [List.append_assoc]
    exact .quotation unclosed written
  | remark unclosed ends => exact .remark unclosed ends.of_append written

theorem Stands.written (stands : Stands file behind here tokens text) :
    Written (tokens.map Token.erased) text := by
  induction stands with
  | nil => exact .nil
  | gap gap _ ih => exact .gap gap ih
  | segment segment _ ih =>
    rw [List.map_append, map_erased_placedFrom, segment.map_erased]
    exact .segment segment ih

theorem exists_stands_of_segment (segment : Segment signs text rest)
    (found : ∀ here, ∃ tokens, Stands file [] here tokens rest ∧ tokens.map Token.erased = others)
    (here : Position) :
    ∃ tokens, Stands file [] here tokens (text ++ rest) ∧
      tokens.map Token.erased = signs ++ others := by
  obtain ⟨tokens, stands, same⟩ := found (here.afterAll text)
  have whole : Segment signs text (rest ++ []) := by rwa [List.append_nil]
  refine ⟨_, .segment whole stands, ?_⟩
  rw [List.map_append, map_erased_placedFrom, segment.map_erased, same]

theorem exists_stands_of_written (file : String) (written : Written signs text) (here : Position) :
    ∃ tokens, Stands file [] here tokens text ∧ tokens.map Token.erased = signs := by
  induction written generalizing here with
  | nil => exact ⟨[], .nil, rfl⟩
  | @gap _ _ c gap _ ih =>
    obtain ⟨tokens, stands, same⟩ := ih (here.after c)
    exact ⟨tokens, .gap gap stands, same⟩
  | mark mark _ ih => exact exists_stands_of_segment (.mark mark) ih here
  | lineEnd _ ih => exact exists_stands_of_segment .lineEnd ih here
  | word word ends _ ih => exact exists_stands_of_segment (.word word ends) ih here
  | quotation unclosed _ ih =>
    have found := exists_stands_of_segment (.quotation unclosed) ih here
    rwa [List.append_assoc] at found
  | remark unclosed ends _ ih => exact exists_stands_of_segment (.remark unclosed ends) ih here

end

/-- A text that is written in some tokens is scanned as these tokens. -/
theorem scan_of_written (file : String) {text : List Char} {signs : List Token}
    (written : Written signs text) :
    ∃ tokens, scan file text = .ok tokens ∧ tokens.map Token.erased = signs ++ [endSign] := by
  obtain ⟨body, stands, same⟩ := exists_stands_of_written file written .origin
  refine ⟨_, scan_of_stands stands, ?_⟩
  rw [List.map_append, same]
  rfl

/-! ## The tokens of a text -/

/-- A token that does not depend on the one before it. -/
inductive Lexeme : Token → Prop
  | mark {c : Char} {kind : TokenKind} :
    TokenKind.ofMark? c = some kind → Lexeme (sign kind [c] none)
  | lineEnd : Lexeme lineEndSign
  | word {letters : List Char} : IsWord letters → Lexeme (wordSign letters)
  | quotation {letters : List Char} : '”' ∉ letters → Lexeme (quotedSign letters)

/-- The first token of a text stands by itself, or is the mark of a remark with its text behind
it. -/
theorem Written.of_cons {token : Token} {signs : List Token} {text : List Char}
    (written : Written (token :: signs) text) :
    (Lexeme token ∧ ∃ rest, Written signs rest) ∨
      ∃ letters others rest, token = daggerSign ∧ signs = remarkSign letters :: others ∧
        '\n' ∉ letters ∧ Written others rest := by
  generalize all : token :: signs = tokens at written
  induction written with
  | nil => cases all
  | gap _ _ ih => exact ih all
  | mark mark written =>
    cases all
    exact .inl ⟨.mark mark, _, written⟩
  | lineEnd written =>
    cases all
    exact .inl ⟨.lineEnd, _, written⟩
  | word word _ written =>
    cases all
    exact .inl ⟨.word word, _, written⟩
  | quotation unclosed written =>
    cases all
    exact .inl ⟨.quotation unclosed, _, written⟩
  | remark unclosed _ written =>
    cases all
    exact .inr ⟨_, _, _, rfl, rfl, unclosed, written⟩

/-- The kinds of words. -/
def wordKinds : List TokenKind :=
  [.name, .andWord, .orWord, .isWord, .amWord, .areWord, .ifWord, .elseWord, .whileWord,
   .letWord, .beWord, .toWord, .trueWord, .falseWord, .nothingWord, .notWord]

theorem ofWord_mem (word : String) : TokenKind.ofWord word ∈ wordKinds := by
  unfold TokenKind.ofWord
  split <;> decide

/-- The kinds of marks. -/
def markKinds : List TokenKind :=
  [.dash, .colon, .comma, .dot, .ampersand, .pound]

theorem ofMark?_mem {c : Char} {kind : TokenKind} (mark : TokenKind.ofMark? c = some kind) :
    kind ∈ markKinds := by
  unfold TokenKind.ofMark? at mark
  split at mark <;> first | (cases mark; decide) | cases mark

namespace Lexeme

variable {token : Token}

theorem kind_ne (lexeme : Lexeme token) : token.kind ≠ .dagger ∧ token.kind ≠ .textEnd := by
  cases lexeme with
  | mark mark =>
    have apart : ∀ kind ∈ markKinds, kind ≠ .dagger ∧ kind ≠ .textEnd := by decide
    exact apart _ (ofMark?_mem mark)
  | lineEnd => exact ⟨by decide, by decide⟩
  | word word =>
    have apart : ∀ kind ∈ wordKinds, kind ≠ .dagger ∧ kind ≠ .textEnd := by decide
    exact apart _ (ofWord_mem _)
  | quotation unclosed => exact ⟨nofun, nofun⟩

theorem eq_of_mark (lexeme : Lexeme token) (kind : token.kind ∈ markKinds) :
    ∃ c, TokenKind.ofMark? c = some token.kind ∧ token = sign token.kind [c] none := by
  cases lexeme with
  | mark mark => exact ⟨_, mark, rfl⟩
  | lineEnd => exact absurd kind (by decide)
  | word word =>
    have apart : ∀ kind ∈ wordKinds, kind ∉ markKinds := by decide
    exact absurd kind (apart _ (ofWord_mem _))
  | quotation unclosed => exact absurd (show TokenKind.string ∈ markKinds from kind) (by decide)

theorem eq_of_word (lexeme : Lexeme token) (kind : token.kind ∈ wordKinds) :
    ∃ letters, IsWord letters ∧ token = wordSign letters := by
  cases lexeme with
  | mark mark =>
    have apart : ∀ kind ∈ markKinds, kind ∉ wordKinds := by decide
    exact absurd kind (apart _ (ofMark?_mem mark))
  | lineEnd => exact absurd kind (by decide)
  | word word => exact ⟨_, word, rfl⟩
  | quotation unclosed => exact absurd (show TokenKind.string ∈ wordKinds from kind) (by decide)

theorem eq_of_string (lexeme : Lexeme token) (kind : token.kind = .string) :
    ∃ letters, '”' ∉ letters ∧ token = quotedSign letters := by
  cases lexeme with
  | mark mark =>
    have apart : ∀ kind ∈ markKinds, kind ≠ .string := by decide
    exact absurd kind (apart _ (ofMark?_mem mark))
  | lineEnd => cases kind
  | word word =>
    have apart : ∀ kind ∈ wordKinds, kind ≠ .string := by decide
    exact absurd kind (apart _ (ofWord_mem _))
  | quotation unclosed => exact ⟨_, unclosed, rfl⟩

end Lexeme

/-- The end of the text is no token of a text. -/
theorem Written.kind_ne_textEnd {signs : List Token} {text : List Char}
    (written : Written signs text) : ∀ token ∈ signs, token.kind ≠ .textEnd := by
  induction written with
  | nil => exact fun token mem => absurd mem List.not_mem_nil
  | gap _ _ ih => exact ih
  | mark mark _ ih => exact List.forall_mem_cons.mpr ⟨(Lexeme.mark mark).kind_ne.2, ih⟩
  | lineEnd _ ih => exact List.forall_mem_cons.mpr ⟨nofun, ih⟩
  | word word _ _ ih => exact List.forall_mem_cons.mpr ⟨(Lexeme.word word).kind_ne.2, ih⟩
  | quotation unclosed _ ih =>
    exact List.forall_mem_cons.mpr ⟨(Lexeme.quotation unclosed).kind_ne.2, ih⟩
  | remark _ _ _ ih =>
    exact List.forall_mem_cons.mpr ⟨nofun, List.forall_mem_cons.mpr ⟨nofun, ih⟩⟩

/-- The tokens of a text are those it is written in and, behind them, the end of the text. -/
theorem exists_of_scan {file : String} {text : List Char} {tokens : List Token}
    (scanned : scan file text = .ok tokens) :
    ∃ body final, tokens = body ++ [final] ∧ final.kind = .textEnd ∧
      Written (body.map Token.erased) text := by
  obtain ⟨body, stands, rfl⟩ := scan_eq_ok_iff.mp scanned
  exact ⟨body, _, rfl, rfl, stands.written⟩

end Marginalia
