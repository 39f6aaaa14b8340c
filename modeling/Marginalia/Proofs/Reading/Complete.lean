import Marginalia.Proofs.Reading.Sound

/-!
# What is in the grammar is read

`Complete` says of a reader that it reads every phrase of a form, provided the
token behind the phrase is not one that would make it longer. Only a few kinds
can do that: operators and dashes go on with an expression, `be` with a name that
was bound to nothing yet (`continuing`).

A repetition takes a phrase apart from the left, while the grammar builds it to
the left. So each loop has a lemma of its own (`run_leftGrouped`, `run_called`,
...): reading a phrase from the beginning is being in the loop behind it.

Together with soundness this is `Program.parseWithin_eq_ok_iff`: the reader
accepts exactly the grammar.
-/

namespace Marginalia

open Grammar

namespace Parser

variable {final : Token} {α : Type}

/-- Every phrase of the form is read where no token of the kinds `avoid` is behind it. -/
def Complete (final : Token) (avoid : List TokenKind) (x : Parser α) (form : Phrase α) : Prop :=
  ∀ ⦃before : List Token⦄ ⦃a : α⦄ ⦃after : List Token⦄, form before a after →
    nextKind after ∉ avoid → x.run ⟨before, final⟩ = .ok (a, ⟨after, final⟩)

/-- A reader reads a form exactly. Phrases begin with the kinds `starting`, take a token, and end
before all kinds but those of `avoid`. -/
structure Agrees (final : Token) (starting avoid : List TokenKind) (x : Parser α)
    (form : Phrase α) : Prop where
  sound : Sound final x form
  complete : Complete final avoid x form
  shortens : Shortens form
  starts : Starts starting form

section Readers

variable (ends : final.kind = .textEnd)

include ends

/-! ## Expressions -/

theorem agrees_primary : Agrees final operandKinds [] primary Primary where
  sound := sound_primary ends
  shortens := shortens_primary
  starts := starts_primary
  complete := by
    intro before expr after read _
    cases read with
    | falsehood kind | truth kind | nothing kind | text kind | name kind =>
      rw [primary, run_bind_of_ok run_peek_cons]
      simp only [kind]
      rfl

theorem agrees_negated {operand : Parser Expr} {form : Phrase Expr} {avoid : List TokenKind}
    (agrees : Agrees final operandKinds avoid operand form) (depth : Nat) :
    Agrees final expressionKinds avoid (negated operand depth) (Negated form depth) where
  sound := sound_negated ends agrees.sound depth
  shortens := shortens_negated agrees.shortens depth
  starts := starts_negated agrees.starts depth
  complete := by
    intro before expr after read free
    induction read with
    | operand read =>
      have apart : ∀ kind ∈ operandKinds, kind ∉ [TokenKind.notWord] := by decide
      have bare := apart _ (agrees.starts read)
      rw [negated, run_bind_of_ok (run_takeIf_of_not_mem ends bare)]
      exact agrees.complete read free
    | negation kind _ ih =>
      rw [negated, run_bind_of_ok (run_takeIf_of_mem (List.mem_singleton.mpr kind)),
        run_bind_of_ok (ih free)]
      rfl

section LeftGrouped

variable {node : Span → Expr → Token → Expr → Expr} {kinds starting avoid : List TokenKind}
  {operand : Parser Expr} {form : Phrase Expr} (agrees : Agrees final starting avoid operand form)

include agrees

theorem shrinks_moreOperands : Shrinks final (moreOperands node kinds operand) := by
  intro left rest next last run
  rcases of_run_moreOperands ends agrees.sound run with
    ⟨operator, middle, right, after, rfl, _, read, rfl, _⟩ | ⟨stopped, _⟩
  · exact ⟨after, rfl, ((agrees.shortens read).trans (.cons _ _)).shorter⟩
  · cases stopped

/-- Reading operands from the beginning is being in the loop behind them. -/
theorem run_leftGrouped (apart : ∀ kind ∈ kinds, kind ∉ avoid) {before after : List Token}
    {expr : Expr} (read : LeftGrouped node kinds form before expr after)
    (free : nextKind after ∉ avoid) :
    (leftGrouped node kinds operand).run ⟨before, final⟩ =
      (repeatFrom expr (moreOperands node kinds operand)).run ⟨after, final⟩ := by
  induction read with
  | single read => rw [leftGrouped, run_bind_of_ok (agrees.complete read free)]
  | @more before middle after operator left right _ mem rightRead ih =>
    rw [ih (apart _ mem)]
    apply run_repeatFrom_of_inl (shrinks_moreOperands ends agrees)
    rw [moreOperands, run_bind_of_ok (run_takeIf_of_mem mem),
      run_bind_of_ok (agrees.complete rightRead free)]
    rfl

theorem agrees_leftGrouped (apart : ∀ kind ∈ kinds, kind ∉ avoid) :
    Agrees final starting (kinds ++ avoid) (leftGrouped node kinds operand)
      (LeftGrouped node kinds form) where
  sound := sound_leftGrouped ends agrees.sound
  shortens := shortens_leftGrouped agrees.shortens
  starts := starts_leftGrouped agrees.starts
  complete := by
    intro before expr after read free
    rw [List.mem_append, not_or] at free
    rw [run_leftGrouped ends agrees apart read free.2]
    apply run_repeatFrom_of_inr (shrinks_moreOperands ends agrees)
    rw [moreOperands, run_bind_of_ok (run_takeIf_of_not_mem ends free.1)]
    rfl

end LeftGrouped

/-- The kinds that go on with an expression, calls apart. -/
def operatorKinds : List TokenKind :=
  [.orWord, .andWord, .isWord, .amWord, .areWord]

/-- Expressions are read as their form says over whatever operands are, as no operator begins or
follows an operand. -/
theorem agrees_expressionOver {operand : Parser Expr} {form : Phrase Expr} {avoid : List TokenKind}
    (agrees : Agrees final operandKinds avoid operand form)
    (apart : ∀ kind ∈ operatorKinds, kind ∉ avoid) (depth : Nat) :
    Agrees final expressionKinds (operatorKinds ++ avoid) (expressionOver operand depth)
      (ExpressionOver form depth) := by
  have above : ∀ kind ∈ operatorKinds, ∀ kinds : List TokenKind, kind ∉ kinds →
      kind ∉ kinds ++ avoid := by
    intro kind mem kinds out inside
    rcases List.mem_append.mp inside with early | late
    · exact out early
    · exact apart kind mem late
  change Agrees final expressionKinds
    ([.orWord] ++ ([.andWord] ++ ([.isWord, .amWord, .areWord] ++ avoid))) _ _
  refine agrees_leftGrouped ends (agrees_leftGrouped ends (agrees_leftGrouped ends
    (agrees_negated ends agrees depth) ?_) ?_) ?_
  · intro kind mem
    exact apart kind (List.mem_cons_of_mem _ (List.mem_cons_of_mem _ mem))
  · intro kind mem
    rw [List.mem_singleton.mp mem]
    exact above _ (by decide) _ (by decide)
  · intro kind mem
    rw [List.mem_singleton.mp mem]
    exact above _ (by decide) [.andWord, .isWord, .amWord, .areWord] (by decide)

theorem agrees_plain (depth : Nat) :
    Agrees final expressionKinds operatorKinds (plainExpression depth) (Plain depth) :=
  agrees_expressionOver ends (agrees_primary ends) (by decide) depth

theorem agrees_expect_name (part : Part) : Agrees final [.name] [] (expect .name part) Name where
  sound := sound_expect_name ends part
  shortens := shortens_name
  starts := starts_name
  complete := by
    intro before token after read _
    cases read with
    | intro kind => exact run_expect_of_kind kind

section Listed

variable {item : Parser α} {form : Phrase α} {starting avoid : List TokenKind}
  (agrees : Agrees final starting avoid item form)

include agrees

theorem shrinks_moreItems : Shrinks final (moreItems item) := by
  intro items rest next last run
  obtain ⟨_, found, middle, read, outcome⟩ := of_run_moreItems ends agrees.sound run
  rcases outcome with ⟨comma, after, rfl, _, rfl, _⟩ | ⟨stopped, _⟩
  · exact ⟨after, rfl, ((Behind.cons _ _).trans (agrees.shortens read)).shorter⟩
  · cases stopped

omit ends in
theorem run_moreItems_of_comma {items : List α} {before after : List Token} {found : α}
    {comma : Token} (room : items.length < argumentLimit)
    (read : form before found (comma :: after)) (kind : comma.kind = .comma)
    (apart : .comma ∉ avoid) :
    (moreItems item items).run ⟨before, final⟩ =
      .ok (.inl (items ++ [found]), ⟨after, final⟩) := by
  have free : nextKind (comma :: after) ∉ avoid := by
    rw [nextKind_cons, kind]
    exact apart
  rw [moreItems, if_neg (Nat.not_le_of_lt room), run_bind_of_ok (agrees.complete read free),
    run_bind_of_ok (run_takeIf_of_mem (List.mem_singleton.mpr kind))]
  rfl

theorem run_moreItems_of_end {items : List α} {before after : List Token} {found : α}
    (room : items.length < argumentLimit) (read : form before found after)
    (free : nextKind after ∉ avoid) (last : nextKind after ≠ .comma) :
    (moreItems item items).run ⟨before, final⟩ =
      .ok (.inr (items ++ [found]), ⟨after, final⟩) := by
  have none : nextKind after ∉ [TokenKind.comma] := fun mem => last (List.mem_singleton.mp mem)
  rw [moreItems, if_neg (Nat.not_le_of_lt room), run_bind_of_ok (agrees.complete read free),
    run_bind_of_ok (run_takeIf_of_not_mem ends none)]
  rfl

/-- Reading items from the beginning is being in the loop behind the comma that follows them. -/
theorem run_separated (apart : .comma ∉ avoid) {before after : List Token} {items : List α}
    (read : Separated form before items after) {comma : Token} {rest : List Token}
    (whole : after = comma :: rest) (kind : comma.kind = .comma) :
    (separated item).run ⟨before, final⟩ =
      (repeatFrom items (moreItems item)).run ⟨rest, final⟩ := by
  induction read generalizing comma rest with
  | single read =>
    subst whole
    exact run_repeatFrom_of_inl (shrinks_moreItems ends agrees)
      (run_moreItems_of_comma agrees (Nat.zero_lt_succ _) read kind apart)
  | more _ kind' room read ih =>
    subst whole
    rw [ih rfl kind']
    exact run_repeatFrom_of_inl (shrinks_moreItems ends agrees)
      (run_moreItems_of_comma agrees room read kind apart)

theorem run_separated_of_end (apart : .comma ∉ avoid) {before after : List Token} {items : List α}
    (read : Separated form before items after) (free : nextKind after ∉ avoid)
    (last : nextKind after ≠ .comma) :
    (separated item).run ⟨before, final⟩ = .ok (items, ⟨after, final⟩) := by
  cases read with
  | single read =>
    exact run_repeatFrom_of_inr (shrinks_moreItems ends agrees)
      (run_moreItems_of_end ends agrees (Nat.zero_lt_succ _) read free last)
  | more front kind room read =>
    rw [run_separated ends agrees apart front rfl kind]
    exact run_repeatFrom_of_inr (shrinks_moreItems ends agrees)
      (run_moreItems_of_end ends agrees room read free last)

/-- A list is read up to the dash that closes it. -/
theorem run_listed (apart : .comma ∉ avoid) (dashFree : .dash ∉ avoid) (bare : .dash ∉ starting)
    {before after : List Token} {items : List α} (read : Listed form before items after)
    (closed : nextKind after = .dash) :
    (listed item).run ⟨before, final⟩ = .ok (items, ⟨after, final⟩) := by
  rw [listed, run_bind_of_ok (run_peek _)]
  simp only [kind_headD ends]
  cases read with
  | none =>
    rw [if_pos closed]
    rfl
  | some read =>
    have started := starts_separated agrees.starts read
    have notClosed : ¬ nextKind before = .dash := by
      intro next
      rw [next] at started
      exact bare started
    rw [if_neg notClosed]
    refine run_separated_of_end ends agrees apart read ?_ ?_
    · rw [closed]
      exact dashFree
    · rw [closed]
      decide

end Listed

theorem shrinks_moreCalls (depth : Nat) : Shrinks final (moreCalls depth) := by
  intro callee rest next last run
  rcases of_run_moreCalls ends run with
    ⟨opening, middle, arguments, marker, after, rfl, _, read, _, rfl, _⟩ | ⟨stopped, _⟩
  · have inside := suffix_of_listed (shortens_plain depth) read
    exact ⟨after, rfl, (((Behind.cons _ _).of_suffix_right inside).trans (.cons _ _)).shorter⟩
  · cases stopped

/-- Reading calls from the beginning is being in the loop behind them. -/
theorem run_called {depth : Nat} {before after : List Token} {expr : Expr}
    (read : Called depth before expr after) :
    (called depth).run ⟨before, final⟩ =
      (repeatFrom expr (moreCalls depth)).run ⟨after, final⟩ := by
  induction read with
  | primary read => rw [called, run_bind_of_ok ((agrees_primary ends).complete read nofun)]
  | call _ openingKind arguments markerKind ih =>
    rw [ih]
    apply run_repeatFrom_of_inl (shrinks_moreCalls ends depth)
    rw [moreCalls, run_bind_of_ok (run_takeIf_of_mem (List.mem_singleton.mpr openingKind))]
    have listRun := run_listed ends (agrees_plain ends depth) (by decide) (by decide) (by decide)
      arguments markerKind
    rw [run_bind_of_ok listRun, run_bind_of_ok (run_expect_of_kind markerKind)]
    rfl

theorem agrees_called (depth : Nat) :
    Agrees final operandKinds [.dash] (called depth) (Called depth) where
  sound := sound_called ends depth
  shortens := shortens_called depth
  starts := starts_called depth
  complete := by
    intro before expr after read free
    rw [run_called ends read]
    apply run_repeatFrom_of_inr (shrinks_moreCalls ends depth)
    rw [moreCalls, run_bind_of_ok (run_takeIf_of_not_mem ends free)]
    rfl

theorem agrees_expression (depth : Nat) :
    Agrees final expressionKinds (operatorKinds ++ [.dash]) (expression depth)
      (Expression depth) :=
  agrees_expressionOver ends (agrees_called ends depth) (by decide) depth

theorem run_condition {depth : Nat} {opening : Part} {before after : List Token} {test : Expr}
    (read : Condition depth before test after) :
    (condition depth opening).run ⟨before, final⟩ = .ok (test, ⟨after, final⟩) := by
  cases read with
  | @intro before after openingToken closing test openingKind testRead closingKind =>
    have free : nextKind (closing :: after) ∉ operatorKinds := by
      rw [nextKind_cons, closingKind]
      decide
    rw [condition, run_bind_of_ok (run_expect_of_kind openingKind),
      run_bind_of_ok ((agrees_plain ends depth).complete testRead free),
      run_bind_of_ok (run_expect_of_kind closingKind)]
    rfl

/-! ## Lines -/

/-- The kinds that can make what was read longer. -/
def continuing : List TokenKind :=
  operatorKinds ++ [.dash, .beWord]

omit ends in
theorem nextKind_of_lines {item : Phrase Stmt} (starts : Starts declarationKinds item)
    {before after : List Token} {statements : List Stmt}
    (read : Lines item before statements after) :
    nextKind before ∈ .lineEnd :: declarationKinds ∨ before = after := by
  cases read with
  | nil => exact .inr rfl
  | lineEnd kind _ =>
    rw [nextKind_cons, kind]
    exact .inl List.mem_cons_self
  | cons first _ => exact .inl (List.mem_cons_of_mem _ (starts first))

omit ends in
theorem nextKind_past_of_lines {item : Phrase Stmt} (starts : Starts declarationKinds item)
    {before after : List Token} {statements : List Stmt}
    (read : Lines item before statements after) :
    nextKind (pastLineEnds before) ∈ declarationKinds ∨
      pastLineEnds before = pastLineEnds after := by
  induction read with
  | nil => exact .inr rfl
  | lineEnd kind _ ih =>
    rw [pastLineEnds_cons_lineEnd kind]
    exact ih
  | cons first _ _ =>
    have started := starts first
    have apart : ∀ kind ∈ declarationKinds, kind ≠ .lineEnd := by decide
    rw [pastLineEnds_of_ne (apart _ started)]
    exact .inl started

section Lines

variable {item : Parser Stmt} {form : Phrase Stmt} {stops : List TokenKind}
  (sound : Sound final item form) (complete : Complete final continuing item (Settled form))
  (shortens : Shortens form) (starts : Starts declarationKinds form)

include sound shortens

theorem shrinks_moreLines : Shrinks final (moreLines stops item) := by
  intro latestFirst rest next last run
  rcases of_run_moreLines ends sound run with ⟨statement, after, read, _, rfl, _⟩ | ⟨_, stopped, _⟩
  · obtain ⟨skipped, _, whole⟩ := exists_append_pastLineEnds rest
    have suffix : pastLineEnds rest <:+ rest := ⟨skipped, whole.symm⟩
    exact ⟨after, rfl, ((shortens read).of_suffix_right suffix).shorter⟩
  · cases stopped

omit sound shortens

theorem run_moreLines_of_lineEnd {token : Token} (kind : token.kind = .lineEnd)
    (latestFirst : List Stmt) (rest : List Token) :
    (moreLines stops item latestFirst).run ⟨token :: rest, final⟩ =
      (moreLines stops item latestFirst).run ⟨rest, final⟩ := by
  rw [moreLines, run_bind_of_ok (run_skipLineEnds ends _),
    run_bind_of_ok (run_skipLineEnds ends _), pastLineEnds_cons_lineEnd kind]

theorem run_moreLines_of_stop (apart : .lineEnd ∉ stops) {rest : List Token}
    (stop : nextKind rest ∈ stops) (latestFirst : List Stmt) :
    (moreLines stops item latestFirst).run ⟨rest, final⟩ =
      .ok (.inr latestFirst.reverse, ⟨rest, final⟩) := by
  have ne : nextKind rest ≠ .lineEnd := fun same => apart (same ▸ stop)
  rw [moreLines, run_bind_of_ok (run_skipLineEnds ends _), pastLineEnds_of_ne ne,
    run_bind_of_ok (run_peek _)]
  simp only [kind_headD ends, List.contains_iff_mem]
  rw [if_pos stop]
  rfl

theorem run_moreLines_of_item {rest : List Token} (ne : nextKind rest ≠ .lineEnd)
    (free : nextKind rest ∉ stops) (latestFirst : List Stmt) :
    (moreLines stops item latestFirst).run ⟨rest, final⟩ =
      (do return .inl ((← item) :: latestFirst) : Parser _).run ⟨rest, final⟩ := by
  rw [moreLines, run_bind_of_ok (run_skipLineEnds ends _), pastLineEnds_of_ne ne,
    run_bind_of_ok (run_peek _)]
  simp only [kind_headD ends, List.contains_iff_mem]
  rw [if_neg free]

include sound complete shortens starts

/-- Lines are read up to a stop, whatever lines were read before them. -/
theorem run_lines (apart : ∀ kind ∈ stops, kind ∉ .elseWord :: .lineEnd :: continuing)
    (bare : ∀ kind ∈ declarationKinds, kind ∉ stops) {before after : List Token}
    {statements : List Stmt} (read : Lines form before statements after)
    (stop : nextKind after ∈ stops) (latestFirst : List Stmt) :
    (repeatFrom latestFirst (moreLines stops item)).run ⟨before, final⟩ =
      .ok (latestFirst.reverse ++ statements, ⟨after, final⟩) := by
  have shrinks : Shrinks final (moreLines stops item) := shrinks_moreLines ends sound shortens
  induction read generalizing latestFirst with
  | nil =>
    have lineEnd : .lineEnd ∉ stops := fun mem => apart _ mem (by decide)
    rw [List.append_nil]
    exact run_repeatFrom_of_inr shrinks (run_moreLines_of_stop ends lineEnd stop latestFirst)
  | lineEnd kind _ ih =>
    rw [run_repeatFrom shrinks, run_moreLines_of_lineEnd ends kind, ← run_repeatFrom shrinks]
    exact ih stop latestFirst
  | @cons before middle after statement statements first others ih =>
    have started := starts first
    have notLineEnd : ∀ kind ∈ declarationKinds, kind ≠ .lineEnd := by decide
    -- What stands behind the first line is another one, a line end or a stop.
    have free : nextKind middle ∉ continuing := by
      have others' : ∀ kind ∈ .lineEnd :: declarationKinds, kind ∉ continuing := by decide
      rcases nextKind_of_lines starts others with next | rfl
      · exact others' _ next
      · exact fun mem => apart _ stop (List.mem_cons_of_mem _ (List.mem_cons_of_mem _ mem))
    have settled : nextKind (pastLineEnds middle) ≠ .elseWord := by
      have notElse : ∀ kind ∈ declarationKinds, kind ≠ .elseWord := by decide
      rcases nextKind_past_of_lines starts others with next | same
      · exact notElse _ next
      · rw [same, pastLineEnds_of_ne]
        · intro same
          exact apart _ stop (same ▸ List.mem_cons_self)
        · intro same
          exact apart _ stop (same ▸ List.mem_cons_of_mem _ List.mem_cons_self)
    have itemRun := complete ⟨first, fun _ => settled⟩ free
    have round : (moreLines stops item latestFirst).run ⟨before, final⟩ =
        .ok (.inl (statement :: latestFirst), ⟨middle, final⟩) := by
      rw [run_moreLines_of_item ends (notLineEnd _ started) (bare _ started),
        run_bind_of_ok itemRun]
      rfl
    rw [run_repeatFrom_of_inl shrinks round, ih stop, List.reverse_cons, List.append_assoc]
    rfl

theorem run_block {before after : List Token} {inside : List Stmt × Token}
    (read : BodyRule form before inside after) :
    (block item).run ⟨before, final⟩ = .ok (inside, ⟨after, final⟩) := by
  cases read with
  | @intro before after statements dot linesRead kind =>
    have stop : nextKind (dot :: after) ∈ [TokenKind.dot, .textEnd] := by
      rw [nextKind_cons, kind]
      decide
    have linesRun := run_lines ends sound complete shortens starts (by decide) (by decide)
      linesRead stop []
    rw [block, lines, run_bind_of_ok linesRun, run_bind_of_ok (run_expect_of_kind kind)]
    rfl

end Lines

/-! ## Statements and declarations -/

section Rules

variable {nested : Bool} {depth : Nat} {before after : List Token} {found : Stmt}

theorem run_expressionStatement {expr : Expr} (read : Expression depth before expr after)
    (free : nextKind after ∉ operatorKinds ++ [.dash]) :
    (expressionStatement depth).run ⟨before, final⟩ = .ok (printed expr, ⟨after, final⟩) := by
  rw [expressionStatement, run_bind_of_ok ((agrees_expression ends depth).complete read free),
    printed]
  split <;> rfl

theorem run_giveBack {keyword : Token} {value : Expr} (read : Expression depth before value after)
    (free : nextKind after ∉ operatorKinds ++ [.dash]) :
    (giveBack depth keyword).run ⟨before, final⟩ =
      .ok (.giveBack (keyword.span.upTo value.span) keyword (some value), ⟨after, final⟩) := by
  have apart : ∀ kind ∈ expressionKinds, kind ∉ returnStops := by decide
  have notStopped := apart _ (starts_expression depth read)
  rw [giveBack, run_bind_of_ok (run_peek _)]
  simp only [kind_headD ends, List.contains_iff_mem]
  rw [if_neg notStopped, run_bind_of_ok ((agrees_expression ends depth).complete read free)]
  rfl

theorem run_giveBack_of_stop {keyword : Token} (stop : nextKind after ∈ returnStops) :
    (giveBack depth keyword).run ⟨after, final⟩ =
      .ok (.giveBack keyword.span keyword none, ⟨after, final⟩) := by
  rw [giveBack, run_bind_of_ok (run_peek _)]
  simp only [kind_headD ends, List.contains_iff_mem]
  rw [if_pos stop]
  rfl

omit ends in
theorem continuing_of_operators {kind : TokenKind} (free : kind ∉ continuing) :
    kind ∉ operatorKinds ++ [.dash] := by
  intro mem
  refine free (List.mem_append.mpr ?_)
  rcases List.mem_append.mp mem with operator | dash
  · exact .inl operator
  · exact .inr (List.mem_cons.mpr (.inl (List.mem_singleton.mp dash)))

/-- The statements and bodies of a layer are all read. -/
structure LayerComplete (final : Token) (depth : Nat) : Prop where
  statement : Complete final continuing (Parser.statement depth) (Settled (Statement depth))
  body : ∀ ⦃before inside after⦄, Body depth before inside after →
    (Parser.body depth).run ⟨before, final⟩ = .ok (inside, ⟨after, final⟩)

/-- Every statement of one more level is read, each kind by the branch that its first token leads
to. -/
theorem complete_statement_succ (layer : LayerComplete final depth) :
    Complete final continuing (statement (depth + 1)) (Settled (Statement (depth + 1))) := by
  rintro before found after ⟨read, settled⟩ free
  cases read with
  | @condition before middle after ifToken test yes kind testRead yesRead =>
    have yesRun := layer.statement ⟨yesRead, fun _ => settled rfl⟩ free
    rw [statement, run_bind_of_ok run_peek_cons]
    simp only [kind]
    rw [run_bind_of_ok run_take_cons, run_bind_of_ok (run_condition ends testRead),
      run_bind_of_ok yesRun, run_bind_of_ok (run_kindPastLineEnds ends after),
      if_neg (settled rfl)]
    rfl
  | @alternative before middle after lineEnds others ifToken elseToken test yes no kind testRead
      yesRead closed all elseKind noRead =>
    have behindYes : nextKind (lineEnds ++ elseToken :: others) ∉ continuing := by
      cases lineEnds with
      | nil =>
        rw [List.nil_append, nextKind_cons, elseKind]
        decide
      | cons token lineEnds =>
        rw [List.cons_append, nextKind_cons, all token List.mem_cons_self]
        decide
    have yesRun := layer.statement
      ⟨yesRead, fun dangles => absurd dangles (by rw [closed]; decide)⟩ behindYes
    have noRun := layer.statement ⟨noRead, settled⟩ free
    have past : pastLineEnds (lineEnds ++ elseToken :: others) = elseToken :: others := by
      rw [pastLineEnds_append all]
      exact pastLineEnds_of_ne (by rw [nextKind_cons, elseKind]; decide)
    have seen : nextKind (elseToken :: others) = .elseWord := elseKind
    rw [statement, run_bind_of_ok run_peek_cons]
    simp only [kind]
    rw [run_bind_of_ok run_take_cons, run_bind_of_ok (run_condition ends testRead),
      run_bind_of_ok yesRun, run_bind_of_ok (run_kindPastLineEnds ends _), past, if_pos seen,
      run_bind_of_ok (run_skipLineEnds ends _), past, run_bind_of_ok run_take_cons,
      run_bind_of_ok noRun]
    rfl
  | giveNothing kind stop =>
    rw [statement, run_bind_of_ok run_peek_cons]
    simp only [kind]
    rw [run_bind_of_ok run_take_cons]
    exact run_giveBack_of_stop ends stop
  | giveBack kind valueRead =>
    rw [statement, run_bind_of_ok run_peek_cons]
    simp only [kind]
    rw [run_bind_of_ok run_take_cons]
    exact run_giveBack ends valueRead (continuing_of_operators free)
  | loop kind testRead insideRead =>
    have insideRun := layer.statement ⟨insideRead, settled⟩ free
    rw [statement, run_bind_of_ok run_peek_cons]
    simp only [kind]
    rw [run_bind_of_ok run_take_cons, run_bind_of_ok (run_condition ends testRead),
      run_bind_of_ok insideRun]
    rfl
  | block kind bodyRead =>
    rw [statement, run_bind_of_ok run_peek_cons]
    simp only [kind]
    rw [run_bind_of_ok run_take_cons, run_bind_of_ok (layer.body bodyRead)]
    rfl
  | expression exprRead =>
    have started := starts_expression depth exprRead
    rw [statement, run_bind_of_ok (run_peek _)]
    simp only [kind_headD ends]
    split
    next kind => exact absurd (kind ▸ started) (by decide)
    next kind => exact absurd (kind ▸ started) (by decide)
    next kind => exact absurd (kind ▸ started) (by decide)
    next kind => exact absurd (kind ▸ started) (by decide)
    next => exact run_expressionStatement ends exprRead (continuing_of_operators free)

theorem run_function {body : Parser (List Stmt × Token)} {bodyForm : Phrase (List Stmt × Token)}
    (complete : ∀ ⦃before inside after⦄, bodyForm before inside after →
      body.run ⟨before, final⟩ = .ok (inside, ⟨after, final⟩))
    {middle params : List Token} {toToken name opening closing colon dot : Token}
    {statements : List Stmt} (nameKind : name.kind = .name) (openingKind : opening.kind = .dash)
    (paramsRead : Listed Name before params (closing :: colon :: middle))
    (closingKind : closing.kind = .dash) (colonKind : colon.kind = .colon)
    (bodyRead : bodyForm middle (statements, dot) after) :
    (function body toToken).run ⟨name :: opening :: before, final⟩ =
      .ok (.function (toToken.span.upTo dot.span) name params statements, ⟨after, final⟩) := by
  have paramsRun := run_listed ends (agrees_expect_name ends .parameterName) (by decide)
    (by decide) (by decide) paramsRead closingKind
  rw [function, run_bind_of_ok (run_expect_of_kind nameKind),
    run_bind_of_ok (run_expect_of_kind openingKind), run_bind_of_ok paramsRun,
    run_bind_of_ok (run_expect_of_kind closingKind),
    run_bind_of_ok (run_expect_of_kind colonKind), run_bind_of_ok (complete bodyRead)]
  rfl

/-- Every declaration of one more level is read, each kind by the branch that its first token leads
to. -/
theorem complete_declaration_succ (layer : LayerComplete final depth) :
    Complete final continuing (declaration nested (depth + 1))
      (Settled (Declaration nested (depth + 1))) := by
  rintro before found after ⟨read, settled⟩ free
  cases read with
  | remark kind textKind =>
    rw [declaration, run_bind_of_ok run_peek_cons]
    simp only [kind]
    rw [run_bind_of_ok run_take_cons, remark, run_bind_of_ok (run_expect_of_kind textKind)]
    rfl
  | @directive after pound name value outside kind nameKind valueKind =>
    have plain : nextKind (value :: after) ∉ [TokenKind.beWord] := by
      rw [nextKind_cons, valueKind]
      decide
    rw [declaration, run_bind_of_ok run_peek_cons]
    simp only [kind]
    rw [run_bind_of_ok run_take_cons, directive, if_neg (by rw [outside]; decide),
      run_bind_of_ok (run_expect_of_kind nameKind),
      run_bind_of_ok (run_takeIf_of_not_mem ends plain),
      run_bind_of_ok (run_expect_of_kind valueKind)]
    rfl
  | directiveBe outside kind nameKind beKind valueKind =>
    rw [declaration, run_bind_of_ok run_peek_cons]
    simp only [kind]
    rw [run_bind_of_ok run_take_cons, directive, if_neg (by rw [outside]; decide),
      run_bind_of_ok (run_expect_of_kind nameKind),
      run_bind_of_ok (run_takeIf_of_mem (List.mem_singleton.mpr beKind)),
      run_bind_of_ok (run_expect_of_kind valueKind)]
    rfl
  | function kind nameKind openingKind paramsRead closingKind colonKind bodyRead =>
    rw [declaration, run_bind_of_ok run_peek_cons]
    simp only [kind]
    rw [run_bind_of_ok run_take_cons]
    exact run_function ends layer.body nameKind openingKind paramsRead closingKind colonKind
      bodyRead
  | binding kind nameKind =>
    have plain : nextKind after ∉ [TokenKind.beWord] := by
      intro mem
      rw [List.mem_singleton.mp mem] at free
      exact free (by decide)
    rw [declaration, run_bind_of_ok run_peek_cons]
    simp only [kind]
    rw [run_bind_of_ok run_take_cons, binding, run_bind_of_ok (run_expect_of_kind nameKind),
      run_bind_of_ok (run_takeIf_of_not_mem ends plain)]
    rfl
  | bindingBe kind nameKind beKind valueRead =>
    have valueRun := (agrees_expression ends depth).complete valueRead
      (continuing_of_operators free)
    rw [declaration, run_bind_of_ok run_peek_cons]
    simp only [kind]
    rw [run_bind_of_ok run_take_cons, binding, run_bind_of_ok (run_expect_of_kind nameKind),
      run_bind_of_ok (run_takeIf_of_mem (List.mem_singleton.mpr beKind)),
      run_bind_of_ok valueRun]
    rfl
  | statement read =>
    have started := starts_statement depth read
    rw [declaration, run_bind_of_ok (run_peek _)]
    simp only [kind_headD ends]
    split
    next kind => exact absurd (kind ▸ started) (by decide)
    next kind => exact absurd (kind ▸ started) (by decide)
    next kind => exact absurd (kind ▸ started) (by decide)
    next kind => exact absurd (kind ▸ started) (by decide)
    next => exact layer.statement ⟨read, settled⟩ free

end Rules

theorem complete_layer (depth : Nat) :
    LayerComplete final depth ∧
      ∀ nested, Complete final continuing (declaration nested depth)
        (Settled (Declaration nested depth)) := by
  induction depth with
  | zero =>
    refine ⟨⟨?_, ?_⟩, ?_⟩
    · rintro before found after ⟨read, _⟩
      exact read.elim
    · intro before found after read
      exact read.elim
    · rintro nested before found after ⟨read, _⟩
      exact read.elim
  | succ depth ih =>
    obtain ⟨layer, declarations⟩ := ih
    refine ⟨⟨complete_statement_succ ends layer, ?_⟩, fun _ => complete_declaration_succ ends layer⟩
    intro before inside after read
    exact run_block ends ((sound_layer ends depth).2.1 true) (declarations true)
      ((shortens_layer depth).2.1 true) (starts_declaration true depth) read

/-- Programs are read up to the end of the text. -/
theorem run_program {depth : Nat} {before : List Token} {found : Program}
    (read : Reads depth before found) :
    (program depth).run ⟨before, final⟩ = .ok (found, ⟨[], final⟩) :=
  run_lines ends ((sound_layer ends depth).2.1 false) ((complete_layer ends depth).2 false)
    ((shortens_layer depth).2.1 false) (starts_declaration false depth) (by decide) (by decide)
    read List.mem_cons_self []

end Readers

end Parser

/-- The reader accepts exactly the grammar, and reads the program that the grammar derives. -/
theorem Program.parseWithin_eq_ok_iff {depth : Nat} {tokens : List Token} {final : Token}
    {program : Program} (inside : ∀ token ∈ tokens, token.kind ≠ .textEnd)
    (ends : final.kind = .textEnd) :
    Program.parseWithin depth (tokens ++ [final]) = .ok program ↔ Reads depth tokens program := by
  refine ⟨Program.reads_of_parseWithin inside ends, fun read => ?_⟩
  rw [Program.parseWithin_append inside ends, Parser.run_program ends read]
  rfl

end Marginalia
