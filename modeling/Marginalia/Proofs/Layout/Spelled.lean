import Mathlib.Data.List.Forall2
import Marginalia.Proofs.Layout.Signs

/-!
# Layouts are written in their signs

`Spells signs text` says that a piece of text is written in some tokens wherever
it is followed by something that does not go on with a word. Pieces are put
together at a blank, at a mark or at a line feed, and that is how every layout is
put together.

A tree that was read from the tokens of a text has a layout, and the layout is
written in the signs of the tree (`Grammar.spelled_layer`). That the tokens come
from a text is needed: a name is written as the word it was read from, and a
quoted text must not hold a closing quote.
-/

namespace Marginalia

/-! ## Pieces of text -/

/-- Before a text that does not go on with a word, the piece is written in these tokens. -/
def Spells (signs : List Token) (text : List Char) : Prop :=
  ∀ ⦃others : List Token⦄ ⦃rest : List Char⦄, WordEnds rest → Written others rest →
    Written (signs ++ others) (text ++ rest)

/-- The text begins with a character that goes on with no word. -/
def Parts (text : List Char) : Prop :=
  ∃ c rest, text = c :: rest ∧ isWordChar c = false

/-- The text begins with ink. -/
def Inked (text : List Char) : Prop :=
  ∃ c rest, text = c :: rest ∧ isBlank c = false

section Pieces

variable {signs others : List Token} {text rest letters : List Char}

theorem spells_nil : Spells [] [] :=
  fun _ _ _ written => written

theorem spells_word (word : IsWord letters) : Spells [wordSign letters] letters :=
  fun _ _ ends written => .word word ends written

theorem spells_quotation (unclosed : '”' ∉ letters) :
    Spells [quotedSign letters] ('“' :: letters ++ ['”']) := by
  intro others rest _ written
  rw [List.append_assoc]
  exact .quotation unclosed written

theorem Spells.append (first : Spells signs text) (second : Spells others rest)
    (parts : Parts rest) : Spells (signs ++ others) (text ++ rest) := by
  intro more last ends written
  have ends' : WordEnds (rest ++ last) := by
    obtain ⟨c, tail, rfl, stops⟩ := parts
    intro d head
    cases head
    exact stops
  rw [List.append_assoc, List.append_assoc]
  exact first ends' (second ends written)

theorem Spells.gap {c : Char} (spells : Spells signs text) (gap : isGap c = true) :
    Spells signs (c :: text) :=
  fun _ _ ends written => .gap gap (spells ends written)

theorem Spells.mark {c : Char} {kind : TokenKind} (spells : Spells signs text)
    (mark : TokenKind.ofMark? c = some kind) : Spells (sign kind [c] none :: signs) (c :: text) :=
  fun _ _ ends written => .mark mark (spells ends written)

/-- Two pieces with a blank between them. -/
theorem Spells.spaced (first : Spells signs text) (second : Spells others rest) :
    Spells (signs ++ others) (text ++ ' ' :: rest) :=
  first.append (second.gap rfl) ⟨' ', rest, rfl, by decide⟩

/-- Two pieces with a mark between them. -/
theorem Spells.marked {c : Char} {kind : TokenKind} (first : Spells signs text)
    (mark : TokenKind.ofMark? c = some kind) (second : Spells others rest) :
    Spells (signs ++ sign kind [c] none :: others) (text ++ c :: rest) := by
  refine first.append (second.mark mark) ⟨c, rest, rfl, ?_⟩
  unfold TokenKind.ofMark? at mark
  split at mark <;> first | decide | cases mark

theorem spells_separated {phrases : List (List Token)} {texts : List (List Char)}
    (all : List.Forall₂ Spells phrases texts) :
    Spells (separatedSigns phrases) ([',', ' '].intercalate texts) := by
  induction all with
  | nil => exact spells_nil
  | @cons phrase text phrases texts first others ih =>
    cases others with
    | nil =>
      rw [separatedSigns, List.intercalate_singleton, List.intercalate_singleton]
      exact first
    | cons second others =>
      rw [separatedSigns, List.intercalate_cons_cons, List.intercalate_cons_cons,
        List.append_assoc, List.append_assoc]
      have behind := ih.gap (show isGap ' ' = true from rfl)
      exact first.marked (show TokenKind.ofMark? ',' = some .comma from rfl) behind

/-- A word begins with ink. -/
theorem isBlank_of_isWordChar {c : Char} (letter : isWordChar c = true) : isBlank c = false := by
  have between {low high : Char} (small : 0x20 < low.toNat) (great : high.toNat < 0x85)
      (above : low ≤ c) (below : c ≤ high) : isBlank c = false := by
    have above' : low.toNat ≤ c.toNat := above
    have below' : c.toNat ≤ high.toNat := below
    simp only [isBlank, Bool.or_eq_false_iff, Bool.and_eq_false_iff, decide_eq_false_iff_not,
      beq_eq_false_iff_ne]
    omega
  simp only [isWordChar, Bool.or_eq_true, Bool.and_eq_true, decide_eq_true_eq] at letter
  rcases letter with (((((((((small | great) | rfl) | rfl) | rfl) | rfl) | rfl) | rfl) | rfl) | rfl)
  · exact between (by decide) (by decide) small.1 small.2
  · exact between (by decide) (by decide) great.1 great.2
  all_goals decide

theorem IsWord.inked (word : IsWord letters) : Inked letters := by
  cases letters with
  | nil => exact absurd rfl word.ne_nil
  | cons c letters =>
    exact ⟨c, letters, rfl, isBlank_of_isWordChar (word.all c List.mem_cons_self)⟩

theorem Inked.append (inked : Inked text) (rest : List Char) : Inked (text ++ rest) := by
  obtain ⟨c, tail, rfl, ink⟩ := inked
  exact ⟨c, tail ++ rest, rfl, ink⟩

end Pieces

/-! ## Tokens of a text -/

/-- The tokens are those of a text. -/
def Scanned (tokens : List Token) : Prop :=
  ∃ text, Written (tokens.map Token.erased) text

namespace Scanned

variable {token : Token} {tokens : List Token}

theorem of_cons (scanned : Scanned (token :: tokens)) (ne : token.kind ≠ .dagger) :
    Lexeme token.erased ∧ Scanned tokens := by
  obtain ⟨text, written⟩ := scanned
  rcases written.of_cons with ⟨lexeme, rest, behind⟩ | ⟨_, _, _, same, _⟩
  · exact ⟨lexeme, rest, behind⟩
  · exact absurd (congrArg Token.kind same) ne

theorem of_remark {text : Token} (scanned : Scanned (token :: text :: tokens))
    (kind : token.kind = .dagger) :
    (∃ letters, '\n' ∉ letters ∧ text.erased = remarkSign letters) ∧ Scanned tokens := by
  obtain ⟨whole, written⟩ := scanned
  rcases written.of_cons with ⟨lexeme, _⟩ | ⟨letters, others, rest, _, same, unclosed, behind⟩
  · exact absurd kind lexeme.kind_ne.1
  · obtain ⟨textSame, rfl⟩ := List.cons.inj same
    exact ⟨⟨letters, unclosed, textSame⟩, rest, behind⟩

theorem of_kind {kind : TokenKind} (scanned : Scanned (token :: tokens)) (same : token.kind = kind)
    (ne : kind ≠ .dagger) : Scanned tokens :=
  (scanned.of_cons (same ▸ ne)).2

/-- A mark is the character it was read from. -/
theorem of_mark (scanned : Scanned (token :: tokens)) {kind : TokenKind} (same : token.kind = kind)
    (mark : kind ∈ markKinds) :
    (∃ c, TokenKind.ofMark? c = some kind ∧ token.erased = sign kind [c] none) ∧
      Scanned tokens := by
  subst same
  have ne : token.kind ≠ .dagger := fun dagger => by
    rw [dagger] at mark
    exact absurd mark (by decide)
  obtain ⟨lexeme, behind⟩ := scanned.of_cons ne
  exact ⟨lexeme.eq_of_mark mark, behind⟩

/-- A word is written with its own letters. -/
theorem of_word (scanned : Scanned (token :: tokens)) (mem : token.kind ∈ wordKinds) :
    (∃ letters, IsWord letters ∧ token.erased = wordSign letters ∧ token.lexeme.toList = letters) ∧
      Scanned tokens := by
  have ne : token.kind ≠ .dagger := fun dagger => by
    rw [dagger] at mem
    exact absurd mem (by decide)
  obtain ⟨lexeme, behind⟩ := scanned.of_cons ne
  obtain ⟨letters, word, same⟩ := lexeme.eq_of_word mem
  refine ⟨⟨letters, word, same, ?_⟩, behind⟩
  have text : token.lexeme = String.ofList letters := congrArg Token.lexeme same
  rw [text, String.toList_ofList]

theorem of_lineEnds {ends : List Token} (all : Grammar.LineEnds ends)
    (scanned : Scanned (ends ++ tokens)) : Scanned tokens := by
  induction ends with
  | nil => exact scanned
  | cons token ends ih =>
    refine ih (fun other mem => all other (List.mem_cons_of_mem _ mem)) ?_
    exact scanned.of_kind (all token List.mem_cons_self) (by decide)

end Scanned

/-! ## Expressions -/

/-- The expression has a layout, and the layout is written in the expression's signs. -/
def Expr.Spelled (expr : Expr) : Prop :=
  ∃ text, expr.layout = .ok text ∧ Inked text.toList ∧ Spells expr.signs text.toList

namespace Grammar

/-- What is read from the tokens of a text has a property, and leaves tokens of a text behind. -/
def Spelling {α : Type} (spelled : α → Prop) (form : Phrase α) : Prop :=
  ∀ ⦃before : List Token⦄ ⦃a : α⦄ ⦃after : List Token⦄, form before a after → Scanned before →
    spelled a ∧ Scanned after

theorem spelled_word {span : Span} {value : Constant} (word : String)
    (text : value.layout = word) (isWord : IsWord word.toList)
    (same : value.sign = wordSign word.toList) : (Expr.constant span value).Spelled := by
  refine ⟨word, congrArg Except.ok text, isWord.inked, ?_⟩
  rw [Expr.signs, same]
  exact spells_word isWord

/-- A primary expression is laid out as the lexeme of the one token it is read from, and a quotation
in its quotes. -/
theorem spelling_primary : Spelling Expr.Spelled Primary := by
  intro before expr after read scanned
  cases read with
  | falsehood kind =>
    refine ⟨spelled_word "false" rfl (.of_test rfl) rfl, ?_⟩
    exact scanned.of_kind kind (by decide)
  | truth kind =>
    refine ⟨spelled_word "true" rfl (.of_test rfl) rfl, ?_⟩
    exact scanned.of_kind kind (by decide)
  | nothing kind =>
    refine ⟨spelled_word "nothing" rfl (.of_test rfl) rfl, ?_⟩
    exact scanned.of_kind kind (by decide)
  | @text after token kind =>
    obtain ⟨lexeme, behind⟩ := scanned.of_cons (by rw [kind]; decide)
    obtain ⟨letters, unclosed, same⟩ := lexeme.eq_of_string kind
    have literal : token.literal = some (String.ofList letters) := congrArg Token.literal same
    refine ⟨⟨"“" ++ String.ofList letters ++ "”", ?_, ?_, ?_⟩, behind⟩
    · rw [literal]
      rfl
    · simp only [String.toList_append, String.toList_ofList]
      exact ⟨'“', letters ++ ['”'], rfl, by decide⟩
    · have quoted : (Constant.text (String.ofList letters)).sign = quotedSign letters := by
        simp [Constant.sign, quotedSign, sign, String.ext_iff]
      rw [literal, Expr.signs, Constant.ofLiteral, quoted]
      simp only [String.toList_append, String.toList_ofList]
      exact spells_quotation unclosed
  | @name after token kind =>
    obtain ⟨⟨letters, word, same, text⟩, behind⟩ := scanned.of_word (by rw [kind]; decide)
    refine ⟨⟨token.lexeme, rfl, ?_, ?_⟩, behind⟩
    · rw [text]
      exact word.inked
    · rw [Expr.signs, same, text]
      exact spells_word word

theorem eq_of_ofWord_not {word : String} (same : TokenKind.ofWord word = .notWord) :
    word = "not" := by
  unfold TokenKind.ofWord at same
  split at same <;> first | rfl | cases same

/-- A negation is laid out as its word in front of its operand, with a blank between them. -/
theorem spelling_negated {operand : Phrase Expr} (spelling : Spelling Expr.Spelled operand)
    (depth : Nat) : Spelling Expr.Spelled (Negated operand depth) := by
  intro before expr after read scanned
  induction read with
  | operand read => exact spelling read scanned
  | @negation before after depth operator expr kind _ ih =>
    obtain ⟨⟨letters, word, same, text⟩, behind⟩ := scanned.of_word (by rw [kind]; decide)
    obtain ⟨⟨inner, laidOut, _, spells⟩, after⟩ := ih behind
    have isNot : String.ofList letters = "not" :=
      eq_of_ofWord_not ((congrArg Token.kind same).symm.trans kind)
    have chars : letters = "not".toList := by rw [← isNot, String.toList_ofList]
    have split : ("not " ++ inner).toList = letters ++ ' ' :: inner.toList := by
      rw [chars, String.toList_append]
      rfl
    refine ⟨⟨"not " ++ inner, ?_, ?_, ?_⟩, after⟩
    · rw [Expr.layout, laidOut]
      rfl
    · rw [split]
      exact word.inked.append _
    · rw [split, Expr.signs, same]
      exact (spells_word word).spaced spells

/-- Operators that are words are laid out with a blank on either side. -/
theorem spelling_leftGrouped {node : Span → Expr → Token → Expr → Expr} {kinds : List TokenKind}
    {operand : Phrase Expr} (isNode : IsOperatorNode node)
    (words : ∀ kind ∈ kinds, kind ∈ wordKinds)
    (spelling : Spelling Expr.Spelled operand) :
    Spelling Expr.Spelled (LeftGrouped node kinds operand) := by
  intro before expr after read scanned
  induction read with
  | single read => exact spelling read scanned
  | @more before middle after operator left right _ mem rightRead ih =>
    obtain ⟨⟨leftText, leftLaidOut, leftInked, leftSpells⟩, behind⟩ := ih scanned
    obtain ⟨⟨letters, word, same, text⟩, behind⟩ := behind.of_word (words _ mem)
    obtain ⟨⟨rightText, rightLaidOut, _, rightSpells⟩, after⟩ := spelling rightRead behind
    have split : (leftText ++ " " ++ operator.lexeme ++ " " ++ rightText).toList =
        leftText.toList ++ ' ' :: (letters ++ ' ' :: rightText.toList) := by
      simp only [String.toList_append, text, List.append_assoc]
      rfl
    refine ⟨⟨leftText ++ " " ++ operator.lexeme ++ " " ++ rightText, ?_, ?_, ?_⟩, after⟩
    · rw [isNode.layout, leftLaidOut, rightLaidOut]
      rfl
    · rw [split]
      exact leftInked.append _
    · rw [split, isNode.signs, same]
      exact leftSpells.spaced ((spells_word word).spaced rightSpells)

theorem spelling_expressionOver {operand : Phrase Expr} (spelling : Spelling Expr.Spelled operand)
    (depth : Nat) : Spelling Expr.Spelled (ExpressionOver operand depth) :=
  spelling_leftGrouped isOperatorNode_connective (by decide)
    (spelling_leftGrouped isOperatorNode_connective (by decide)
      (spelling_leftGrouped isOperatorNode_comparison (by decide)
        (spelling_negated spelling depth)))

theorem spelling_plain (depth : Nat) : Spelling Expr.Spelled (Plain depth) :=
  spelling_expressionOver spelling_primary depth

theorem spelling_separated {α : Type} {spelled : α → Prop} {item : Phrase α}
    (spelling : Spelling spelled item) :
    Spelling (fun items => ∀ a ∈ items, spelled a) (Separated item) := by
  intro before items after read scanned
  induction read with
  | single read =>
    obtain ⟨first, after⟩ := spelling read scanned
    exact ⟨List.forall_mem_singleton.mpr first, after⟩
  | more _ kind _ read ih =>
    obtain ⟨front, behind⟩ := ih scanned
    obtain ⟨last, after⟩ := spelling read (behind.of_kind kind (by decide))
    exact ⟨List.forall_mem_append.mpr ⟨front, List.forall_mem_singleton.mpr last⟩, after⟩

theorem spelling_listed {α : Type} {spelled : α → Prop} {item : Phrase α}
    (spelling : Spelling spelled item) :
    Spelling (fun items => ∀ a ∈ items, spelled a) (Listed item) := by
  intro before items after read scanned
  cases read with
  | none => exact ⟨List.forall_mem_nil _, scanned⟩
  | some read => exact spelling_separated spelling read scanned

/-- The layouts of some expressions, with commas between them. -/
theorem spells_layouts {exprs : List Expr} (all : ∀ expr ∈ exprs, expr.Spelled) :
    ∃ texts, Expr.layouts exprs = .ok texts ∧
      Spells (separatedSigns (exprs.map Expr.signs)) (String.intercalate ", " texts).toList := by
  have each : ∃ texts, Expr.layouts exprs = .ok texts ∧
      List.Forall₂ Spells (exprs.map Expr.signs) (texts.map String.toList) := by
    induction exprs with
    | nil => exact ⟨[], rfl, .nil⟩
    | cons expr rest ih =>
      obtain ⟨text, laidOut, _, spells⟩ := all expr List.mem_cons_self
      obtain ⟨texts, laidOuts, others⟩ := ih fun other mem => all other (List.mem_cons_of_mem _ mem)
      refine ⟨text :: texts, ?_, .cons spells others⟩
      rw [Expr.layouts, laidOut, laidOuts]
      rfl
  obtain ⟨texts, laidOuts, spells⟩ := each
  refine ⟨texts, laidOuts, ?_⟩
  rw [String.toList_intercalate]
  exact spells_separated spells

/-- Each mark is written with one character only. -/
theorem ofMark?_injective {c d : Char} {kind : TokenKind} (first : TokenKind.ofMark? c = some kind)
    (second : TokenKind.ofMark? d = some kind) : c = d := by
  unfold TokenKind.ofMark? at first second
  split at first <;> cases first <;> split at second <;> first | rfl | cases second

theorem sign_eq_mark {token : Token} {tokens : List Token} {kind : TokenKind} (c : Char)
    (scanned : Scanned (token :: tokens)) (same : token.kind = kind)
    (mark : TokenKind.ofMark? c = some kind) :
    token.erased = sign kind [c] none ∧ Scanned tokens := by
  obtain ⟨⟨d, found, erased⟩, behind⟩ := scanned.of_mark same (ofMark?_mem mark)
  rw [ofMark?_injective mark found]
  exact ⟨erased, behind⟩

/-- A call is laid out with its arguments between two dashes. -/
theorem spelling_called (depth : Nat) : Spelling Expr.Spelled (Called depth) := by
  intro before expr after read scanned
  induction read with
  | primary read => exact spelling_primary read scanned
  | @call before middle after opening marker callee arguments _ openingKind inside markerKind ih =>
    obtain ⟨⟨calleeText, calleeLaidOut, calleeInked, calleeSpells⟩, behind⟩ := ih scanned
    obtain ⟨each, closing⟩ :=
      spelling_listed (spelling_plain depth) inside (behind.of_kind openingKind (by decide))
    obtain ⟨texts, laidOuts, spells⟩ := spells_layouts each
    obtain ⟨isDash, after⟩ := sign_eq_mark '—' closing markerKind rfl
    have split : (calleeText ++ "—" ++ String.intercalate ", " texts ++ "—").toList =
        calleeText.toList ++ '—' :: ((String.intercalate ", " texts).toList ++ ['—']) := by
      simp only [String.toList_append, List.append_assoc]
      rfl
    refine ⟨⟨calleeText ++ "—" ++ String.intercalate ", " texts ++ "—", ?_, ?_, ?_⟩, after⟩
    · rw [Expr.layout, calleeLaidOut, laidOuts]
      rfl
    · rw [split]
      exact calleeInked.append _
    · rw [split, Expr.signs, Expr.allSigns_eq_map, isDash]
      exact calleeSpells.marked rfl (spells.marked rfl spells_nil)

theorem spelling_expression (depth : Nat) : Spelling Expr.Spelled (Expression depth) :=
  spelling_expressionOver (spelling_called depth) depth

theorem spelling_condition (depth : Nat) : Spelling Expr.Spelled (Condition depth) := by
  intro before test after read scanned
  cases read with
  | intro openingKind inside closingKind =>
    obtain ⟨spelled, closing⟩ :=
      spelling_plain depth inside (scanned.of_kind openingKind (by decide))
    exact ⟨spelled, closing.of_kind closingKind (by decide)⟩

end Grammar

/-! ## Statements -/

theorem toList_indent (blocks : Int) :
    (indent blocks).toList = List.replicate (2 * blocks.toNat) ' ' :=
  String.toList_ofList

theorem written_indent {signs : List Token} {rest : List Char} (written : Written signs rest)
    (blocks : Int) : Written signs ((indent blocks).toList ++ rest) := by
  rw [toList_indent]
  induction 2 * blocks.toNat with
  | zero => exact written
  | succ width ih =>
    rw [List.replicate_succ, List.cons_append]
    exact .gap rfl ih

/-- Where a statement continues a line, its indent is all that is dropped. -/
theorem continued_indent {core : String} (inked : Inked core.toList) (blocks : Int) :
    continued (indent blocks ++ core) = core := by
  have trimmed : trimStart (indent blocks ++ core).toList = core.toList := by
    rw [String.toList_append, toList_indent, trimStart]
    induction 2 * blocks.toNat with
    | zero =>
      obtain ⟨c, rest, same, ink⟩ := inked
      have kept : ¬ isBlank c = true := by rw [ink]; decide
      rw [List.replicate_zero, List.nil_append, same, List.dropWhile_cons_of_neg kept]
    | succ width ih =>
      rw [List.replicate_succ, List.cons_append, List.dropWhile_cons_of_pos (by decide)]
      exact ih
  rw [continued, trimmed, String.ofList_toList]

/-- The statement has a layout. Behind its indent the layout is written in the statement's signs,
and begins with ink. -/
def Stmt.Spelled (statement : Stmt) : Prop :=
  ∀ blocks, ∃ core, statement.layout blocks = .ok (indent blocks ++ core) ∧ Inked core.toList ∧
    Spells statement.signs core.toList

/-- The statement has a layout, and on a line of its own the layout is written in the statement's
signs. -/
def Stmt.SpelledLine (statement : Stmt) : Prop :=
  ∀ blocks, ∃ text, statement.layout blocks = .ok text ∧
    ∀ ⦃others : List Token⦄ ⦃rest : List Char⦄, Written others rest →
      Written (statement.signs ++ lineEndSign :: others) (text.toList ++ '\n' :: rest)

/-- Each of the statements has a layout, and together they are written in their signs. -/
def Stmt.SpelledRows (statements : List Stmt) : Prop :=
  ∀ blocks, ∃ text, Stmt.rows blocks statements = .ok text ∧
    ∀ ⦃others : List Token⦄ ⦃rest : List Char⦄, Written others rest →
      Written (Stmt.rowSigns statements ++ others) (text.toList ++ rest)

theorem Stmt.Spelled.line {statement : Stmt} (spelled : statement.Spelled) :
    statement.SpelledLine := by
  intro blocks
  obtain ⟨core, laidOut, _, spells⟩ := spelled blocks
  refine ⟨_, laidOut, fun others rest written => ?_⟩
  have ends : WordEnds ('\n' :: rest) := by
    intro c head
    cases head
    decide
  rw [String.toList_append, List.append_assoc]
  exact written_indent (spells ends (.lineEnd written)) blocks

namespace Grammar

/-- Statements in a row are laid out on lines of their own. -/
theorem spelling_lines {item : Phrase Stmt} (spelling : Spelling Stmt.SpelledLine item) :
    Spelling Stmt.SpelledRows (Lines item) := by
  intro before statements after read scanned
  induction read with
  | nil => exact ⟨fun blocks => ⟨"", rfl, fun _ _ written => written⟩, scanned⟩
  | lineEnd kind _ ih => exact ih (scanned.of_kind kind (by decide))
  | @cons before middle after statement statements first _ ih =>
    obtain ⟨line, behind⟩ := spelling first scanned
    obtain ⟨rows, after⟩ := ih behind
    refine ⟨fun blocks => ?_, after⟩
    obtain ⟨text, laidOut, written⟩ := line blocks
    obtain ⟨texts, laidOuts, writtens⟩ := rows blocks
    refine ⟨text ++ "\n" ++ texts, ?_, fun others rest behind => ?_⟩
    · rw [Stmt.rows, laidOut, laidOuts]
      rfl
    · have split : (text ++ "\n" ++ texts).toList ++ rest =
          text.toList ++ '\n' :: (texts.toList ++ rest) := by
        simp only [String.toList_append, List.append_assoc]
        rfl
      rw [split, Stmt.rowSigns, List.append_assoc, List.cons_append]
      exact written (writtens behind)

theorem spelling_bodyRule {item : Phrase Stmt} (spelling : Spelling Stmt.SpelledLine item) :
    Spelling (fun inside => Stmt.SpelledRows inside.1) (BodyRule item) := by
  intro before inside after read scanned
  cases read with
  | intro lines kind =>
    obtain ⟨rows, behind⟩ := spelling_lines spelling lines scanned
    exact ⟨rows, behind.of_kind kind (by decide)⟩

/-- Indented rows between a colon and a dot. -/
theorem spells_rows (blocks : Int) {statements : List Stmt} {text : String}
    (written : ∀ ⦃others : List Token⦄ ⦃rest : List Char⦄, Written others rest →
      Written (Stmt.rowSigns statements ++ others) (text.toList ++ rest)) :
    Spells (colonSign :: lineEndSign :: (Stmt.rowSigns statements ++ [dotSign]))
      (":\n" ++ text ++ indent blocks ++ ".").toList := by
  intro others rest _ behind
  have split : (":\n" ++ text ++ indent blocks ++ ".").toList ++ rest =
      ':' :: '\n' :: (text.toList ++ ((indent blocks).toList ++ '.' :: rest)) := by
    simp only [String.toList_append, List.append_assoc]
    rfl
  have dot : Written (dotSign :: others) ('.' :: rest) := .mark rfl behind
  have inside := written (written_indent dot blocks)
  rw [split]
  simp only [List.cons_append, List.append_assoc, List.nil_append]
  exact .mark rfl (.lineEnd inside)

/-- A keyword, a condition between dashes, and what continues the line. -/
theorem spells_headed {signs others : List Token} {test rest : String} (word : String)
    (isWord : IsWord word.toList) (testSpells : Spells signs test.toList)
    (restSpells : Spells others rest.toList) :
    Inked (word ++ "—" ++ test ++ "— " ++ rest).toList ∧
      Spells (wordSign word.toList :: dashSign :: (signs ++ dashSign :: others))
        (word ++ "—" ++ test ++ "— " ++ rest).toList := by
  have split : (word ++ "—" ++ test ++ "— " ++ rest).toList =
      word.toList ++ '—' :: (test.toList ++ '—' :: ' ' :: rest.toList) := by
    simp only [String.toList_append, List.append_assoc]
    rfl
  rw [split]
  refine ⟨isWord.inked.append _, ?_⟩
  exact (spells_word isWord).marked rfl (testSpells.marked rfl (restSpells.gap rfl))

/-- Two pieces with a word between them. -/
theorem spells_joined {signs others : List Token} {left right : String} (word between : String)
    (isWord : IsWord word.toList) (spaced : between.toList = ' ' :: (word.toList ++ [' ']))
    (leftSpells : Spells signs left.toList) (rightSpells : Spells others right.toList) :
    Spells (signs ++ wordSign word.toList :: others) (left ++ between ++ right).toList := by
  have split : (left ++ between ++ right).toList =
      left.toList ++ ' ' :: (word.toList ++ ' ' :: right.toList) := by
    simp only [String.toList_append, spaced, List.append_assoc, List.cons_append, List.nil_append]
  rw [split]
  exact leftSpells.spaced ((spells_word isWord).spaced rightSpells)

/-- A keyword before a piece of text. -/
theorem spells_keyword {signs : List Token} {rest : String} (word : String)
    (isWord : IsWord word.toList) (spells : Spells signs rest.toList) :
    Inked (word ++ " " ++ rest).toList ∧
      Spells (wordSign word.toList :: signs) (word ++ " " ++ rest).toList := by
  have split : (word ++ " " ++ rest).toList = word.toList ++ ' ' :: rest.toList := by
    simp only [String.toList_append, List.append_assoc]
    rfl
  rw [split]
  exact ⟨isWord.inked.append _, (spells_word isWord).spaced spells⟩

theorem spells_params {params : List Token}
    (all : ∀ param ∈ params, Spells [param.erased] param.lexeme.toList) :
    Spells (separatedSigns (params.map fun param => [param.erased]))
      (String.intercalate ", " (params.map (·.lexeme))).toList := by
  rw [String.toList_intercalate, List.map_map]
  refine spells_separated (List.forall₂_map_left_iff.mpr (List.forall₂_map_right_iff.mpr ?_))
  exact List.forall₂_same.mpr all

/-! ## Statements -/

section Statements

variable {span : Span} {test value : Expr} {yes no inside : Stmt} {statements : List Stmt}
  {name : Token}

theorem spelled_printed {expr : Expr} (spelled : expr.Spelled) : (printed expr).Spelled := by
  intro blocks
  obtain ⟨text, laidOut, inked, spells⟩ := spelled
  refine ⟨text, ?_, inked, ?_⟩
  · have same : (printed expr).layout blocks = do return indent blocks ++ (← expr.layout) := by
      unfold printed
      split
      · rfl
      · rfl
    rw [same, laidOut]
    rfl
  · rw [signs_printed]
    exact spells

theorem spelled_condition (testSpelled : test.Spelled) (yesSpelled : yes.Spelled) :
    (Stmt.condition span test yes none).Spelled := by
  intro blocks
  obtain ⟨testText, testLaidOut, _, testSpells⟩ := testSpelled
  obtain ⟨yesText, yesLaidOut, yesInked, yesSpells⟩ := yesSpelled blocks
  refine ⟨"if" ++ "—" ++ testText ++ "— " ++ yesText, ?_,
    spells_headed "if" (.of_test rfl) testSpells yesSpells⟩
  rw [Stmt.layout, testLaidOut, yesLaidOut]
  change Except.ok (_ ++ continued (indent blocks ++ yesText)) = _
  rw [continued_indent yesInked]
  simp only [String.append_assoc]
  rfl

theorem spelled_alternative (testSpelled : test.Spelled) (yesSpelled : yes.Spelled)
    (noSpelled : no.Spelled) : (Stmt.condition span test yes (some no)).Spelled := by
  intro blocks
  obtain ⟨testText, testLaidOut, _, testSpells⟩ := testSpelled
  obtain ⟨yesText, yesLaidOut, yesInked, yesSpells⟩ := yesSpelled blocks
  obtain ⟨noText, noLaidOut, noInked, noSpells⟩ := noSpelled blocks
  have branches : Spells (yes.signs ++ elseSign :: no.signs)
      (yesText ++ " else " ++ noText).toList :=
    spells_joined "else" " else " (.of_test rfl) rfl yesSpells noSpells
  refine ⟨"if" ++ "—" ++ testText ++ "— " ++ (yesText ++ " else " ++ noText), ?_,
    spells_headed "if" (.of_test rfl) testSpells branches⟩
  rw [Stmt.layout, testLaidOut, yesLaidOut, noLaidOut]
  change Except.ok (_ ++ continued (indent blocks ++ yesText) ++ " else " ++
    continued (indent blocks ++ noText)) = _
  rw [continued_indent yesInked, continued_indent noInked]
  simp only [String.append_assoc]
  rfl

theorem spelled_loop (testSpelled : test.Spelled) (insideSpelled : inside.Spelled) :
    (Stmt.loop span test inside).Spelled := by
  intro blocks
  obtain ⟨testText, testLaidOut, _, testSpells⟩ := testSpelled
  obtain ⟨text, laidOut, inked, spells⟩ := insideSpelled blocks
  refine ⟨"while" ++ "—" ++ testText ++ "— " ++ text, ?_,
    spells_headed "while" (.of_test rfl) testSpells spells⟩
  rw [Stmt.layout, testLaidOut, laidOut]
  change Except.ok (_ ++ continued (indent blocks ++ text)) = _
  rw [continued_indent inked]
  simp only [String.append_assoc]
  rfl

theorem spelled_giveBack {keyword : Token}
    (isAmpersand : keyword.erased = sign .ampersand ['&'] none) (valueSpelled : value.Spelled) :
    (Stmt.giveBack span keyword (some value)).Spelled := by
  intro blocks
  obtain ⟨text, laidOut, _, spells⟩ := valueSpelled
  refine ⟨"& " ++ text, ?_, ?_, ?_⟩
  · rw [Stmt.layout, laidOut]
    change Except.ok (indent blocks ++ "& " ++ text) = _
    rw [String.append_assoc]
  · rw [String.toList_append]
    exact ⟨'&', ' ' :: text.toList, rfl, by decide⟩
  · rw [Stmt.signs, isAmpersand, String.toList_append]
    exact (spells.gap rfl).mark rfl

theorem spelled_block (rows : Stmt.SpelledRows statements) :
    (Stmt.block span statements).Spelled := by
  intro blocks
  obtain ⟨text, laidOut, written⟩ := rows (blocks + 1)
  refine ⟨":\n" ++ text ++ indent blocks ++ ".", ?_, ?_, spells_rows blocks written⟩
  · rw [Stmt.layout, laidOut]
    change Except.ok (indent blocks ++ ":\n" ++ text ++ indent blocks ++ ".") = _
    simp only [String.append_assoc]
  · simp only [String.append_assoc, String.toList_append]
    exact ⟨':', _, rfl, by decide⟩

/-- A remark is the only statement that goes on to the end of its line. -/
theorem spelledLine_remark {text : Token} {letters : List Char} (unclosed : '\n' ∉ letters)
    (same : text.erased = remarkSign letters) : (Stmt.remark span text).SpelledLine := by
  intro blocks
  have literal : text.literal = some (String.ofList letters) := congrArg Token.literal same
  refine ⟨indent blocks ++ "†" ++ String.ofList letters, ?_, ?_⟩
  · rw [Stmt.layout, literal]
    rfl
  · intro others rest behind
    have split : (indent blocks ++ "†" ++ String.ofList letters).toList ++ '\n' :: rest =
        (indent blocks).toList ++ ('†' :: letters ++ '\n' :: rest) := by
      simp only [String.toList_append, String.toList_ofList, List.append_assoc]
      rfl
    have ends : RemarkEnds ('\n' :: rest) := by
      intro c head
      cases head
      rfl
    rw [split, Stmt.signs, same]
    exact written_indent (.remark unclosed ends (.lineEnd behind)) blocks

theorem spelled_directive {value : Token} (nameSpells : Spells [name.erased] name.lexeme.toList)
    (valueSpells : Spells [value.erased] value.lexeme.toList) :
    (Stmt.directive span name value).Spelled := by
  intro blocks
  have split : ("#" ++ name.lexeme ++ " " ++ value.lexeme).toList =
      '#' :: (name.lexeme.toList ++ ' ' :: value.lexeme.toList) := by
    simp only [String.toList_append, List.append_assoc]
    rfl
  refine ⟨"#" ++ name.lexeme ++ " " ++ value.lexeme, ?_, ?_, ?_⟩
  · rw [Stmt.layout]
    simp only [String.append_assoc]
    rfl
  · rw [split]
    exact ⟨'#', _, rfl, by decide⟩
  · rw [split]
    exact (nameSpells.spaced valueSpells).mark rfl

/-- A function is laid out with its parameters on its first line, and its body in the lines below.
-/
theorem spelled_function {params : List Token}
    (nameSpells : Spells [name.erased] name.lexeme.toList)
    (each : ∀ param ∈ params, Spells [param.erased] param.lexeme.toList)
    (rows : Stmt.SpelledRows statements) :
    (Stmt.function span name params statements).Spelled := by
  intro blocks
  obtain ⟨text, laidOut, written⟩ := rows (blocks + 1)
  have dash : TokenKind.ofMark? '—' = some .dash := rfl
  have signature := nameSpells.marked dash
    ((spells_params each).marked dash (spells_rows blocks written))
  have split : (name.lexeme ++ "—" ++ String.intercalate ", " (params.map (·.lexeme)) ++ "—" ++
        (":\n" ++ text ++ indent blocks ++ ".")).toList =
      name.lexeme.toList ++ '—' :: ((String.intercalate ", " (params.map (·.lexeme))).toList ++
        '—' :: (":\n" ++ text ++ indent blocks ++ ".").toList) := by
    rw [String.toList_append, String.toList_append, String.toList_append, String.toList_append]
    simp only [List.append_assoc]
    rfl
  rw [← split] at signature
  refine ⟨_, ?_, spells_keyword "to" (.of_test rfl) signature⟩
  rw [Stmt.layout, laidOut]
  change Except.ok (indent blocks ++ "to " ++ name.lexeme ++ "—" ++
    String.intercalate ", " (params.map (·.lexeme)) ++ "—:\n" ++ text ++ indent blocks ++ ".") = _
  simp only [String.append_assoc]
  rfl

theorem spelled_binding (nameSpells : Spells [name.erased] name.lexeme.toList) :
    (Stmt.binding span name none).Spelled := by
  intro blocks
  refine ⟨"let" ++ " " ++ name.lexeme, ?_, spells_keyword "let" (.of_test rfl) nameSpells⟩
  rw [Stmt.layout, String.append_assoc]
  rfl

theorem spelled_bindingBe (nameSpells : Spells [name.erased] name.lexeme.toList)
    (valueSpelled : value.Spelled) : (Stmt.binding span name (some value)).Spelled := by
  intro blocks
  obtain ⟨text, laidOut, _, spells⟩ := valueSpelled
  have bound : Spells (name.erased :: beSign :: value.signs)
      (name.lexeme ++ " be " ++ text).toList :=
    spells_joined "be" " be " (.of_test rfl) rfl nameSpells spells
  refine ⟨"let" ++ " " ++ (name.lexeme ++ " be " ++ text), ?_,
    spells_keyword "let" (.of_test rfl) bound⟩
  rw [Stmt.layout, laidOut]
  change Except.ok (indent blocks ++ "let " ++ name.lexeme ++ " be " ++ text) = _
  simp only [String.append_assoc]
  rfl

end Statements

theorem spells_name {token : Token} {tokens : List Token} (scanned : Scanned (token :: tokens))
    (kind : token.kind = .name) : Spells [token.erased] token.lexeme.toList ∧ Scanned tokens := by
  obtain ⟨⟨letters, word, same, text⟩, behind⟩ := scanned.of_word (by rw [kind]; decide)
  rw [same, text]
  exact ⟨spells_word word, behind⟩

theorem spelling_name : Spelling (fun token => Spells [token.erased] token.lexeme.toList) Name := by
  intro before token after read scanned
  cases read with
  | intro kind => exact spells_name scanned kind

section Rules

variable {depth : Nat} {inner : Phrase Stmt} {body : Phrase (List Stmt × Token)}
  (innerSpelling : Spelling Stmt.Spelled inner)
  (bodySpelling : Spelling (fun inside => Stmt.SpelledRows inside.1) body)

include innerSpelling bodySpelling

/-- What is read as a statement of one more level has a layout that is written in its signs. -/
theorem spelling_statementRule : Spelling Stmt.Spelled (StatementRule depth inner body) := by
  intro before statement after read scanned
  cases read with
  | condition kind testRead yesRead =>
    obtain ⟨test, behind⟩ :=
      spelling_condition depth testRead (scanned.of_kind kind (by decide))
    obtain ⟨yes, after⟩ := innerSpelling yesRead behind
    exact ⟨spelled_condition test yes, after⟩
  | alternative kind testRead yesRead _ lineEnds elseKind noRead =>
    obtain ⟨test, behind⟩ :=
      spelling_condition depth testRead (scanned.of_kind kind (by decide))
    obtain ⟨yes, behind⟩ := innerSpelling yesRead behind
    obtain ⟨no, after⟩ := innerSpelling noRead
      ((behind.of_lineEnds lineEnds).of_kind elseKind (by decide))
    exact ⟨spelled_alternative test yes no, after⟩
  | giveNothing kind stop =>
    obtain ⟨isAmpersand, after⟩ := sign_eq_mark '&' scanned kind rfl
    refine ⟨fun blocks => ⟨"&", rfl, ⟨'&', [], rfl, by decide⟩, ?_⟩, after⟩
    rw [Stmt.signs, isAmpersand]
    exact spells_nil.mark rfl
  | giveBack kind valueRead =>
    obtain ⟨isAmpersand, behind⟩ := sign_eq_mark '&' scanned kind rfl
    obtain ⟨value, after⟩ := spelling_expression depth valueRead behind
    exact ⟨spelled_giveBack isAmpersand value, after⟩
  | loop kind testRead insideRead =>
    obtain ⟨test, behind⟩ :=
      spelling_condition depth testRead (scanned.of_kind kind (by decide))
    obtain ⟨inside, after⟩ := innerSpelling insideRead behind
    exact ⟨spelled_loop test inside, after⟩
  | block kind inside =>
    obtain ⟨rows, after⟩ := bodySpelling inside (scanned.of_kind kind (by decide))
    exact ⟨spelled_block rows, after⟩
  | expression exprRead =>
    obtain ⟨spelled, after⟩ := spelling_expression depth exprRead scanned
    exact ⟨spelled_printed spelled, after⟩

/-- What is read as a declaration has one on a line of its own, where remarks may stand too. -/
theorem spelling_declarationRule (nested : Bool) :
    Spelling Stmt.SpelledLine (DeclarationRule nested depth inner body) := by
  intro before statement after read scanned
  cases read with
  | remark kind _ =>
    obtain ⟨⟨letters, unclosed, same⟩, after⟩ := scanned.of_remark kind
    exact ⟨spelledLine_remark unclosed same, after⟩
  | directive _ kind nameKind valueKind =>
    obtain ⟨name, behind⟩ := spells_name (scanned.of_kind kind (by decide)) nameKind
    obtain ⟨value, after⟩ := spells_name behind valueKind
    exact ⟨(spelled_directive name value).line, after⟩
  | directiveBe _ kind nameKind beKind valueKind =>
    obtain ⟨name, behind⟩ := spells_name (scanned.of_kind kind (by decide)) nameKind
    obtain ⟨value, after⟩ := spells_name (behind.of_kind beKind (by decide)) valueKind
    exact ⟨(spelled_directive name value).line, after⟩
  | function kind nameKind openingKind paramsRead closingKind colonKind inside =>
    obtain ⟨name, behind⟩ := spells_name (scanned.of_kind kind (by decide)) nameKind
    obtain ⟨each, behind⟩ :=
      spelling_listed spelling_name paramsRead (behind.of_kind openingKind (by decide))
    obtain ⟨rows, after⟩ := bodySpelling inside
      ((behind.of_kind closingKind (by decide)).of_kind colonKind (by decide))
    exact ⟨(spelled_function name each rows).line, after⟩
  | binding kind nameKind =>
    obtain ⟨name, after⟩ := spells_name (scanned.of_kind kind (by decide)) nameKind
    exact ⟨(spelled_binding name).line, after⟩
  | bindingBe kind nameKind beKind valueRead =>
    obtain ⟨name, behind⟩ := spells_name (scanned.of_kind kind (by decide)) nameKind
    obtain ⟨value, after⟩ :=
      spelling_expression depth valueRead (behind.of_kind beKind (by decide))
    exact ⟨(spelled_bindingBe name value).line, after⟩
  | statement read =>
    obtain ⟨spelled, after⟩ := innerSpelling read scanned
    exact ⟨spelled.line, after⟩

end Rules

theorem spelled_layer (depth : Nat) :
    Spelling Stmt.Spelled (Statement depth) ∧
      (∀ nested, Spelling Stmt.SpelledLine (Declaration nested depth)) ∧
      Spelling (fun inside => Stmt.SpelledRows inside.1) (Body depth) := by
  induction depth with
  | zero => exact ⟨fun _ _ _ => False.elim, fun _ _ _ _ => False.elim, fun _ _ _ => False.elim⟩
  | succ depth ih =>
    obtain ⟨statement, declaration, body⟩ := ih
    exact ⟨spelling_statementRule statement body, spelling_declarationRule statement body,
      spelling_bodyRule (declaration true)⟩

/-- A program that was read from a text has a layout, written in the program's signs. -/
theorem exists_layout {depth : Nat} {tokens : List Token} {program : Program}
    (read : Reads depth tokens program) (scanned : Scanned tokens) :
    ∃ text, program.layout = .ok text ∧ Written program.signs text.toList := by
  cases program with
  | nil => exact ⟨"\n", rfl, .lineEnd .nil⟩
  | cons statement rest =>
    obtain ⟨rows, _⟩ := spelling_lines ((spelled_layer depth).2.1 false) read scanned
    obtain ⟨text, laidOut, written⟩ := rows 0
    have whole := written .nil
    rw [List.append_nil, List.append_nil] at whole
    exact ⟨text, laidOut, whole⟩

end Grammar

end Marginalia
