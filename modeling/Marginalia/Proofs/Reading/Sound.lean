import Marginalia.Proofs.Reading.Grammar

/-!
# What the reader accepts is in the grammar

`Sound` says of a reader that whatever it reads from a stream has a derivation
from the tokens it took. It is proved combinator by combinator and then for the
three productions layer by layer (`sound_layer`). A statement that waits for an
`else` is only ever read where none follows; that is the one fact about the
tokens behind a phrase that has to be carried along (`Settles`).

The main statement is `Program.reads_of_parseWithin`.
-/

namespace Marginalia

open Grammar

namespace Parser

variable {final : Token} {α : Type}

/-- Whatever is read has a derivation from the tokens that were taken. -/
def Sound (final : Token) (x : Parser α) (form : Phrase α) : Prop :=
  ∀ ⦃before : List Token⦄ ⦃a : α⦄ ⦃last : Stream⦄, x.run ⟨before, final⟩ = .ok (a, last) →
    ∃ after, last = ⟨after, final⟩ ∧ form before a after

section Readers

variable (ends : final.kind = .textEnd)

include ends

/-! ## Expressions -/

theorem sound_primary : Sound final primary Primary := by
  intro before expr last run
  rw [primary, run_bind_of_ok (run_peek _)] at run
  cases before with
  | nil =>
    simp only [List.headD_nil, ends] at run
    cases run
  | cons token after =>
    simp only [List.headD_cons] at run
    split at run
    next kind => cases run; exact ⟨after, rfl, .falsehood kind⟩
    next kind => cases run; exact ⟨after, rfl, .truth kind⟩
    next kind => cases run; exact ⟨after, rfl, .nothing kind⟩
    next kind => cases run; exact ⟨after, rfl, .text kind⟩
    next kind => cases run; exact ⟨after, rfl, .name kind⟩
    next => cases run

/-- Whatever is read as a negation is one, or it is an operand. -/
theorem sound_negated {operand : Parser Expr} {form : Phrase Expr}
    (sound : Sound final operand form) (depth : Nat) :
    Sound final (negated operand depth) (Negated form depth) := by
  induction depth with
  | zero =>
    intro before expr last run
    rw [negated] at run
    obtain ⟨found, middle, looked, next⟩ := exists_of_run_bind run
    rcases of_run_takeIf ends looked with ⟨operator, rest, rfl, mem, rfl, rfl⟩ | ⟨rfl, rfl, _⟩
    · cases next
    · obtain ⟨after, rfl, read⟩ := sound next
      exact ⟨after, rfl, .operand read⟩
  | succ depth ih =>
    intro before expr last run
    rw [negated] at run
    obtain ⟨found, middle, looked, next⟩ := exists_of_run_bind run
    rcases of_run_takeIf ends looked with ⟨operator, rest, rfl, mem, rfl, rfl⟩ | ⟨rfl, rfl, _⟩
    · obtain ⟨inner, middle, innerRun, done⟩ := exists_of_run_bind next
      obtain ⟨after, rfl, read⟩ := ih innerRun
      cases done
      exact ⟨after, rfl, .negation (List.mem_singleton.mp mem) read⟩
    · obtain ⟨after, rfl, read⟩ := sound next
      exact ⟨after, rfl, .operand read⟩

theorem of_run_moreOperands {node : Span → Expr → Token → Expr → Expr} {kinds : List TokenKind}
    {operand : Parser Expr} {form : Phrase Expr} (sound : Sound final operand form)
    {left : Expr} {before : List Token} {outcome : Expr ⊕ Expr} {last : Stream}
    (run : (moreOperands node kinds operand left).run ⟨before, final⟩ = .ok (outcome, last)) :
    (∃ operator rest right after, before = operator :: rest ∧ operator.kind ∈ kinds ∧
        form rest right after ∧ last = ⟨after, final⟩ ∧
        outcome = .inl (node (left.span.upTo right.span) left operator right)) ∨
      (outcome = .inr left ∧ last = ⟨before, final⟩) := by
  obtain ⟨found, middle, looked, step⟩ := exists_of_run_bind run
  rcases of_run_takeIf ends looked with ⟨operator, rest, rfl, mem, rfl, rfl⟩ | ⟨rfl, rfl, _⟩
  · obtain ⟨right, middle, rightRun, done⟩ := exists_of_run_bind step
    obtain ⟨after, rfl, rightRead⟩ := sound rightRun
    cases done
    exact .inl ⟨operator, rest, right, after, rfl, mem, rightRead, rfl, rfl⟩
  · cases step
    exact .inr ⟨rfl, rfl⟩

theorem sound_leftGrouped {node : Span → Expr → Token → Expr → Expr} {kinds : List TokenKind}
    {operand : Parser Expr} {form : Phrase Expr} (sound : Sound final operand form) :
    Sound final (leftGrouped node kinds operand) (LeftGrouped node kinds form) := by
  intro before expr last run
  obtain ⟨first, middle, firstRun, loop⟩ := exists_of_run_bind run
  obtain ⟨rest, rfl, firstRead⟩ := sound firstRun
  -- The operands so far are one phrase from `before` to where the loop stands.
  refine of_run_repeatFrom (LeftGrouped node kinds form before)
    (LeftGrouped node kinds form before) ?_ (.single firstRead) loop
  intro left here outcome last leftRead round
  rcases of_run_moreOperands ends sound round with
    ⟨operator, rest, right, after, rfl, mem, rightRead, rfl, rfl⟩ | ⟨rfl, rfl⟩
  · exact ⟨after, rfl, .more leftRead mem rightRead⟩
  · exact ⟨here, rfl, leftRead⟩

theorem sound_expressionOver {operand : Parser Expr} {form : Phrase Expr}
    (sound : Sound final operand form) (depth : Nat) :
    Sound final (expressionOver operand depth) (ExpressionOver form depth) :=
  sound_leftGrouped ends (sound_leftGrouped ends (sound_leftGrouped ends
    (sound_negated ends sound depth)))

theorem sound_plainExpression (depth : Nat) : Sound final (plainExpression depth) (Plain depth) :=
  sound_expressionOver ends (sound_primary ends) depth

theorem sound_expect_name (part : Part) : Sound final (expect .name part) Name := by
  intro before token last run
  obtain ⟨after, rfl, kind, rfl⟩ := of_run_expect ends run
  exact ⟨after, rfl, .intro kind⟩

theorem of_run_moreItems {item : Parser α} {form : Phrase α} (sound : Sound final item form)
    {items : List α} {before : List Token} {outcome : List α ⊕ List α} {last : Stream}
    (run : (moreItems item items).run ⟨before, final⟩ = .ok (outcome, last)) :
    items.length < argumentLimit ∧ ∃ found middle, form before found middle ∧
      ((∃ comma after, middle = comma :: after ∧ comma.kind = .comma ∧ last = ⟨after, final⟩ ∧
          outcome = .inl (items ++ [found])) ∨
        (outcome = .inr (items ++ [found]) ∧ last = ⟨middle, final⟩)) := by
  rw [moreItems] at run
  split at run
  next => cases run
  next room =>
    obtain ⟨found, middle, itemRun, step⟩ := exists_of_run_bind run
    obtain ⟨there, rfl, foundRead⟩ := sound itemRun
    obtain ⟨comma, middle, looked, step⟩ := exists_of_run_bind step
    refine ⟨Nat.lt_of_not_le room, found, there, foundRead, ?_⟩
    rcases of_run_takeIf ends looked with ⟨token, after, rfl, mem, rfl, rfl⟩ | ⟨rfl, rfl, _⟩
    · cases step
      exact .inl ⟨token, after, rfl, List.mem_singleton.mp mem, rfl, rfl⟩
    · cases step
      exact .inr ⟨rfl, rfl⟩

theorem sound_separated {item : Parser α} {form : Phrase α} (sound : Sound final item form) :
    Sound final (separated item) (Separated form) := by
  intro before items last run
  -- Before the first item nothing has been taken; later a comma has just been.
  refine of_run_repeatFrom
    (fun items here => (items = [] ∧ here = before) ∨
      ∃ comma : Token, comma.kind = .comma ∧ Separated form before items (comma :: here))
    (Separated form before) ?_ (.inl ⟨rfl, rfl⟩) run
  intro items here outcome last begun round
  obtain ⟨room, found, middle, foundRead, next⟩ := of_run_moreItems ends sound round
  have read : Separated form before (items ++ [found]) middle := by
    rcases begun with ⟨rfl, rfl⟩ | ⟨comma, kind, read⟩
    · exact .single foundRead
    · exact .more read kind room foundRead
  rcases next with ⟨comma, after, rfl, kind, rfl, rfl⟩ | ⟨rfl, rfl⟩
  · exact ⟨after, rfl, .inr ⟨comma, kind, read⟩⟩
  · exact ⟨middle, rfl, read⟩

theorem sound_listed {item : Parser α} {form : Phrase α} (sound : Sound final item form) :
    Sound final (listed item) (Listed form) := by
  intro before items last run
  rw [listed, run_bind_of_ok (run_peek _)] at run
  split at run
  next =>
    cases run
    exact ⟨before, rfl, .none⟩
  next =>
    obtain ⟨after, rfl, read⟩ := sound_separated ends sound run
    exact ⟨after, rfl, .some read⟩

theorem of_run_moreCalls {depth : Nat} {callee : Expr} {before : List Token}
    {outcome : Expr ⊕ Expr} {last : Stream}
    (run : (moreCalls depth callee).run ⟨before, final⟩ = .ok (outcome, last)) :
    (∃ opening middle arguments marker after, before = opening :: middle ∧
        opening.kind = .dash ∧ Listed (Plain depth) middle arguments (marker :: after) ∧
        marker.kind = .dash ∧ last = ⟨after, final⟩ ∧
        outcome = .inl (.call (callee.span.upTo marker.span) callee marker arguments)) ∨
      (outcome = .inr callee ∧ last = ⟨before, final⟩) := by
  obtain ⟨found, middle, looked, step⟩ := exists_of_run_bind run
  rcases of_run_takeIf ends looked with ⟨opening, rest, rfl, mem, rfl, rfl⟩ | ⟨rfl, rfl, _⟩
  · obtain ⟨arguments, middle, argumentsRun, step⟩ := exists_of_run_bind step
    obtain ⟨there, rfl, argumentsRead⟩ :=
      sound_listed ends (sound_plainExpression ends depth) argumentsRun
    obtain ⟨marker, middle, markerRun, done⟩ := exists_of_run_bind step
    obtain ⟨after, rfl, kind, rfl⟩ := of_run_expect ends markerRun
    cases done
    exact .inl ⟨opening, rest, arguments, marker, after, rfl, List.mem_singleton.mp mem,
      argumentsRead, kind, rfl, rfl⟩
  · cases step
    exact .inr ⟨rfl, rfl⟩

theorem sound_called (depth : Nat) : Sound final (called depth) (Called depth) := by
  intro before expr last run
  obtain ⟨first, middle, firstRun, loop⟩ := exists_of_run_bind run
  obtain ⟨rest, rfl, firstRead⟩ := sound_primary ends firstRun
  refine of_run_repeatFrom (Called depth before) (Called depth before) ?_ (.primary firstRead) loop
  intro callee here outcome last calleeRead round
  rcases of_run_moreCalls ends round with
    ⟨opening, middle, arguments, marker, after, rfl, kind, argumentsRead, kind', rfl, rfl⟩ |
    ⟨rfl, rfl⟩
  · exact ⟨after, rfl, .call calleeRead kind argumentsRead kind'⟩
  · exact ⟨here, rfl, calleeRead⟩

theorem sound_expression (depth : Nat) : Sound final (expression depth) (Expression depth) :=
  sound_expressionOver ends (sound_called ends depth) depth

theorem sound_condition (depth : Nat) (opening : Part) :
    Sound final (condition depth opening) (Condition depth) := by
  intro before test last run
  obtain ⟨dash, middle, dashRun, step⟩ := exists_of_run_bind run
  obtain ⟨rest, rfl, kind, rfl⟩ := of_run_expect ends dashRun
  obtain ⟨found, middle, testRun, step⟩ := exists_of_run_bind step
  obtain ⟨there, rfl, testRead⟩ := sound_plainExpression ends depth testRun
  obtain ⟨dash', middle, dashRun', done⟩ := exists_of_run_bind step
  obtain ⟨after, rfl, kind', rfl⟩ := of_run_expect ends dashRun'
  cases done
  exact ⟨after, rfl, .intro kind testRead kind'⟩

/-! ## Lines and declarations -/

/-- One round over the lines reads another statement, or it comes to what stops them. -/
theorem of_run_moreLines {stops : List TokenKind} {item : Parser Stmt} {form : Phrase Stmt}
    (sound : Sound final item form) {latestFirst : List Stmt} {before : List Token}
    {outcome : List Stmt ⊕ List Stmt} {last : Stream}
    (run : (moreLines stops item latestFirst).run ⟨before, final⟩ = .ok (outcome, last)) :
    (∃ statement after, form (pastLineEnds before) statement after ∧
        nextKind (pastLineEnds before) ∉ stops ∧ last = ⟨after, final⟩ ∧
        outcome = .inl (statement :: latestFirst)) ∨
      (nextKind (pastLineEnds before) ∈ stops ∧ outcome = .inr latestFirst.reverse ∧
        last = ⟨pastLineEnds before, final⟩) := by
  rw [moreLines, run_bind_of_ok (run_skipLineEnds ends before), run_bind_of_ok (run_peek _)]
    at run
  simp only [kind_headD ends, List.contains_iff_mem] at run
  split at run
  next stop =>
    cases run
    exact .inr ⟨stop, rfl, rfl⟩
  next free =>
    obtain ⟨statement, middle, itemRun, done⟩ := exists_of_run_bind run
    obtain ⟨after, rfl, read⟩ := sound itemRun
    cases done
    exact .inl ⟨statement, after, read, free, rfl, rfl⟩

theorem sound_lines {stops : List TokenKind} {item : Parser Stmt} {form : Phrase Stmt}
    (sound : Sound final item form) :
    Sound final (lines stops item) fun before statements after =>
      Lines form before statements after ∧ nextKind after ∈ stops := by
  intro before statements last run
  refine of_run_repeatFrom (fun latestFirst => Lines form before latestFirst.reverse)
    (fun statements after => Lines form before statements after ∧ nextKind after ∈ stops)
    ?_ .nil run
  intro latestFirst here outcome last soFar round
  have skipped := lines_append soFar (lines_pastLineEnds form here)
  rcases of_run_moreLines ends sound round with
    ⟨statement, after, read, _, rfl, rfl⟩ | ⟨stop, rfl, rfl⟩
  · refine ⟨after, rfl, ?_⟩
    rw [List.append_nil] at skipped
    change Lines form before (statement :: latestFirst).reverse after
    rw [List.reverse_cons]
    exact lines_append skipped (.cons read .nil)
  · rw [List.append_nil] at skipped
    exact ⟨_, rfl, skipped, stop⟩

theorem sound_block {item : Parser Stmt} {form : Phrase Stmt} (sound : Sound final item form) :
    Sound final (block item) (BodyRule form) := by
  intro before inside last run
  obtain ⟨statements, middle, linesRun, step⟩ := exists_of_run_bind run
  obtain ⟨there, rfl, linesRead, _⟩ := sound_lines ends sound linesRun
  obtain ⟨dot, middle, dotRun, done⟩ := exists_of_run_bind step
  obtain ⟨after, rfl, kind, rfl⟩ := of_run_expect ends dotRun
  cases done
  exact ⟨after, rfl, .intro linesRead kind⟩

section Declarations

variable {nested : Bool} {depth : Nat} {inner : Phrase Stmt} {bodyForm : Phrase (List Stmt × Token)}
  {rest : List Token} {statement : Stmt} {last : Stream}

theorem of_run_remark {dagger : Token} (kind : dagger.kind = .dagger)
    (run : (remark dagger).run ⟨rest, final⟩ = .ok (statement, last)) :
    ∃ after, last = ⟨after, final⟩ ∧
      DeclarationRule nested depth inner bodyForm (dagger :: rest) statement after := by
  obtain ⟨text, middle, textRun, done⟩ := exists_of_run_bind run
  obtain ⟨after, rfl, textKind, rfl⟩ := of_run_expect ends textRun
  cases done
  exact ⟨after, rfl, .remark kind textKind⟩

theorem of_run_directive {pound : Token} (kind : pound.kind = .pound)
    (run : (directive nested pound).run ⟨rest, final⟩ = .ok (statement, last)) :
    ∃ after, last = ⟨after, final⟩ ∧
      DeclarationRule nested depth inner bodyForm (pound :: rest) statement after := by
  rw [directive] at run
  split at run
  next => cases run
  next top =>
    have outside : nested = false := by simpa using top
    obtain ⟨name, middle, nameRun, step⟩ := exists_of_run_bind run
    obtain ⟨there, rfl, nameKind, rfl⟩ := of_run_expect ends nameRun
    obtain ⟨found, middle, looked, step⟩ := exists_of_run_bind step
    obtain ⟨value, middle, valueRun, done⟩ := exists_of_run_bind step
    rcases of_run_takeIf ends looked with ⟨be, behind, rfl, mem, rfl, rfl⟩ | ⟨rfl, rfl, _⟩
    · obtain ⟨after, rfl, valueKind, rfl⟩ := of_run_expect ends valueRun
      cases done
      exact ⟨after, rfl, .directiveBe outside kind nameKind (List.mem_singleton.mp mem) valueKind⟩
    · obtain ⟨after, rfl, valueKind, rfl⟩ := of_run_expect ends valueRun
      cases done
      exact ⟨after, rfl, .directive outside kind nameKind valueKind⟩

theorem of_run_binding {letToken : Token} (kind : letToken.kind = .letWord)
    (run : (binding depth letToken).run ⟨rest, final⟩ = .ok (statement, last)) :
    ∃ after, last = ⟨after, final⟩ ∧
      DeclarationRule nested depth inner bodyForm (letToken :: rest) statement after := by
  obtain ⟨name, middle, nameRun, step⟩ := exists_of_run_bind run
  obtain ⟨there, rfl, nameKind, rfl⟩ := of_run_expect ends nameRun
  obtain ⟨found, middle, looked, step⟩ := exists_of_run_bind step
  rcases of_run_takeIf ends looked with ⟨be, behind, rfl, mem, rfl, rfl⟩ | ⟨rfl, rfl, _⟩
  · obtain ⟨value, middle, valueRun, done⟩ := exists_of_run_bind step
    obtain ⟨after, rfl, read⟩ := sound_expression ends depth valueRun
    cases done
    exact ⟨after, rfl, .bindingBe kind nameKind (List.mem_singleton.mp mem) read⟩
  · cases step
    exact ⟨there, rfl, .binding kind nameKind⟩

theorem of_run_function {body : Parser (List Stmt × Token)} (sound : Sound final body bodyForm)
    {toToken : Token} (kind : toToken.kind = .toWord)
    (run : (function body toToken).run ⟨rest, final⟩ = .ok (statement, last)) :
    ∃ after, last = ⟨after, final⟩ ∧
      DeclarationRule nested depth inner bodyForm (toToken :: rest) statement after := by
  obtain ⟨name, middle, nameRun, step⟩ := exists_of_run_bind run
  obtain ⟨there, rfl, nameKind, rfl⟩ := of_run_expect ends nameRun
  obtain ⟨opening, middle, openingRun, step⟩ := exists_of_run_bind step
  obtain ⟨there, rfl, openingKind, rfl⟩ := of_run_expect ends openingRun
  obtain ⟨params, middle, paramsRun, step⟩ := exists_of_run_bind step
  obtain ⟨there, rfl, paramsRead⟩ := sound_listed ends (sound_expect_name ends _) paramsRun
  obtain ⟨closing, middle, closingRun, step⟩ := exists_of_run_bind step
  obtain ⟨there, rfl, closingKind, rfl⟩ := of_run_expect ends closingRun
  obtain ⟨colon, middle, colonRun, step⟩ := exists_of_run_bind step
  obtain ⟨there, rfl, colonKind, rfl⟩ := of_run_expect ends colonRun
  obtain ⟨inside, middle, bodyRun, done⟩ := exists_of_run_bind step
  obtain ⟨after, rfl, read⟩ := sound bodyRun
  cases done
  exact ⟨after, rfl,
    .function kind nameKind openingKind paramsRead closingKind colonKind read⟩

end Declarations

/-! ## Statements -/

/-- The form, where a statement that waits for an `else` has none behind it. -/
def Settled (form : Phrase Stmt) : Phrase Stmt := fun before statement after =>
  form before statement after ∧
    (statement.dangles = true → nextKind (pastLineEnds after) ≠ .elseWord)

omit ends in
theorem dangles_printed (expr : Expr) : (printed expr).dangles = false := by
  unfold printed
  split <;> rfl

section Statements

variable {depth : Nat} {inner : Phrase Stmt} {bodyForm : Phrase (List Stmt × Token)}
  {rest : List Token} {statement : Stmt} {last : Stream}

theorem of_run_expressionStatement
    (run : (expressionStatement depth).run ⟨rest, final⟩ = .ok (statement, last)) :
    ∃ after, last = ⟨after, final⟩ ∧
      Settled (StatementRule depth inner bodyForm) rest statement after := by
  obtain ⟨expr, middle, exprRun, done⟩ := exists_of_run_bind run
  obtain ⟨after, rfl, read⟩ := sound_expression ends depth exprRun
  have whole : statement = printed expr ∧ last = ⟨after, final⟩ := by
    unfold printed
    split at done
    next holds =>
      cases done
      exact ⟨by rw [if_pos holds], rfl⟩
    next fails =>
      cases done
      exact ⟨by rw [if_neg fails], rfl⟩
  obtain ⟨rfl, rfl⟩ := whole
  refine ⟨after, rfl, .expression read, fun dangles => ?_⟩
  rw [dangles_printed] at dangles
  cases dangles

theorem of_run_giveBack {keyword : Token} (kind : keyword.kind = .ampersand)
    (run : (giveBack depth keyword).run ⟨rest, final⟩ = .ok (statement, last)) :
    ∃ after, last = ⟨after, final⟩ ∧
      Settled (StatementRule depth inner bodyForm) (keyword :: rest) statement after := by
  rw [giveBack, run_bind_of_ok (run_peek _)] at run
  simp only [kind_headD ends, List.contains_iff_mem] at run
  split at run
  next stop =>
    cases run
    exact ⟨rest, rfl, .giveNothing kind stop, nofun⟩
  next =>
    obtain ⟨value, middle, valueRun, done⟩ := exists_of_run_bind run
    obtain ⟨after, rfl, read⟩ := sound_expression ends depth valueRun
    cases done
    exact ⟨after, rfl, .giveBack kind read, nofun⟩

end Statements

section Layer

variable {depth : Nat} (statementSound : Sound final (statement depth) (Settled (Statement depth)))
  (bodySound : Sound final (body depth) (Body depth))

include statementSound bodySound

/-- Whatever is read as a statement of one more level is one. -/
theorem sound_statement_succ :
    Sound final (statement (depth + 1)) (Settled (Statement (depth + 1))) := by
  intro before found last run
  rw [statement, run_bind_of_ok (run_peek _)] at run
  simp only [kind_headD ends] at run
  split at run
  next kind =>
    obtain ⟨ifToken, rest, rfl, kind⟩ := exists_of_nextKind kind (by decide)
    rw [run_bind_of_ok run_take_cons] at run
    obtain ⟨test, middle, testRun, step⟩ := exists_of_run_bind run
    obtain ⟨there, rfl, testRead⟩ := sound_condition ends depth _ testRun
    obtain ⟨yes, middle, yesRun, step⟩ := exists_of_run_bind step
    obtain ⟨there, rfl, yesRead, yesSettled⟩ := statementSound yesRun
    rw [run_bind_of_ok (run_kindPastLineEnds ends there)] at step
    split at step
    next elseKind =>
      obtain ⟨elseToken, others, past, kind'⟩ := exists_of_nextKind elseKind (by decide)
      obtain ⟨lineEnds, all, whole⟩ := exists_append_pastLineEnds there
      rw [past] at whole
      subst whole
      rw [run_bind_of_ok (run_skipLineEnds ends _), past, run_bind_of_ok run_take_cons] at step
      obtain ⟨no, middle, noRun, done⟩ := exists_of_run_bind step
      obtain ⟨after, rfl, noRead, noSettled⟩ := statementSound noRun
      cases done
      have closed : yes.dangles = false := by
        cases dangles : yes.dangles with
        | false => rfl
        | true => exact absurd elseKind (yesSettled dangles)
      exact ⟨after, rfl, .alternative kind testRead yesRead closed all kind' noRead, noSettled⟩
    next free =>
      cases step
      exact ⟨there, rfl, .condition kind testRead yesRead, fun _ => free⟩
  next kind =>
    obtain ⟨keyword, rest, rfl, kind⟩ := exists_of_nextKind kind (by decide)
    rw [run_bind_of_ok run_take_cons] at run
    exact of_run_giveBack ends kind run
  next kind =>
    obtain ⟨whileToken, rest, rfl, kind⟩ := exists_of_nextKind kind (by decide)
    rw [run_bind_of_ok run_take_cons] at run
    obtain ⟨test, middle, testRun, step⟩ := exists_of_run_bind run
    obtain ⟨there, rfl, testRead⟩ := sound_condition ends depth _ testRun
    obtain ⟨inside, middle, insideRun, done⟩ := exists_of_run_bind step
    obtain ⟨after, rfl, insideRead, settled⟩ := statementSound insideRun
    cases done
    exact ⟨after, rfl, .loop kind testRead insideRead, settled⟩
  next kind =>
    obtain ⟨colon, rest, rfl, kind⟩ := exists_of_nextKind kind (by decide)
    rw [run_bind_of_ok run_take_cons] at run
    obtain ⟨inside, middle, bodyRun, done⟩ := exists_of_run_bind run
    obtain ⟨after, rfl, read⟩ := bodySound bodyRun
    cases done
    exact ⟨after, rfl, .block kind read, nofun⟩
  next => exact of_run_expressionStatement ends run

/-- Whatever is read as a declaration of one more level is one. -/
theorem sound_declaration_succ (nested : Bool) :
    Sound final (declaration nested (depth + 1)) (Declaration nested (depth + 1)) := by
  intro before found last run
  rw [declaration, run_bind_of_ok (run_peek _)] at run
  simp only [kind_headD ends] at run
  split at run
  next kind =>
    obtain ⟨dagger, rest, rfl, kind⟩ := exists_of_nextKind kind (by decide)
    exact of_run_remark ends kind run
  next kind =>
    obtain ⟨pound, rest, rfl, kind⟩ := exists_of_nextKind kind (by decide)
    exact of_run_directive ends kind run
  next kind =>
    obtain ⟨toToken, rest, rfl, kind⟩ := exists_of_nextKind kind (by decide)
    exact of_run_function ends bodySound kind run
  next kind =>
    obtain ⟨letToken, rest, rfl, kind⟩ := exists_of_nextKind kind (by decide)
    exact of_run_binding ends kind run
  next =>
    obtain ⟨after, rfl, read, _⟩ := statementSound run
    exact ⟨after, rfl, .statement read⟩

end Layer

/-- The three productions that call each other, layer by layer. -/
theorem sound_layer (depth : Nat) :
    Sound final (statement depth) (Settled (Statement depth)) ∧
      (∀ nested, Sound final (declaration nested depth) (Declaration nested depth)) ∧
      Sound final (body depth) (Body depth) := by
  induction depth with
  | zero =>
    refine ⟨?_, fun nested => ?_, ?_⟩ <;>
      · intro before found last run
        cases run
  | succ depth ih =>
    obtain ⟨statementSound, declarationSound, bodySound⟩ := ih
    exact ⟨sound_statement_succ ends statementSound bodySound,
      sound_declaration_succ ends statementSound bodySound,
      sound_block ends (declarationSound true)⟩

end Readers

end Parser

/-- Whatever program is read from some tokens and the end of the text is derived from them. -/
theorem Program.reads_of_parseWithin {depth : Nat} {tokens : List Token} {final : Token}
    {program : Program} (inside : ∀ token ∈ tokens, token.kind ≠ .textEnd)
    (ends : final.kind = .textEnd)
    (read : Program.parseWithin depth (tokens ++ [final]) = .ok program) :
    Reads depth tokens program := by
  rw [Program.parseWithin_append inside ends] at read
  cases run : (Parser.program depth).run ⟨tokens, final⟩ with
  | error fault =>
    rw [run] at read
    cases read
  | ok result =>
    obtain ⟨found, last⟩ := result
    rw [run] at read
    cases read
    obtain ⟨after, rfl, linesRead, stop⟩ :=
      Parser.sound_lines ends ((Parser.sound_layer ends depth).2.1 false) run
    -- Nothing of the tokens is left: the end of the text is none of them.
    have ended : after = [] := by
      cases after with
      | nil => rfl
      | cons token after =>
        have suffix := suffix_of_lines ((shortens_layer depth).2.1 false) linesRead
        have mem : token ∈ tokens := suffix.mem List.mem_cons_self
        exact absurd (List.mem_singleton.mp stop) (inside token mem)
    rw [ended] at linesRead
    exact linesRead

end Marginalia
