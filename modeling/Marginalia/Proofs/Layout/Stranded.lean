import Marginalia.Proofs.Layout.Signs

/-!
# Stranded branches are not read

Where an open-ended branch stands before an `else`, its last return sees the
`else` and takes it for the beginning of a value. The reader stops there, at the
first such `else` of the text: everything before it is read as usual, by
`Grammar.rereads_layer` and the completeness of the reader.

The argument follows the productions layer by layer (`Grammar.StumblesLayer`) and
ends in `Program.parseWithin_signs_of_strandsElse`.
-/

namespace Marginalia

open Grammar

/-- What the reader says at an `else` that it takes for a value. -/
def strandedFault : Fault :=
  .parse .noExpression elseSign

namespace Grammar

/-- The kinds with which the signs of a declaration begin are those with which declarations
begin. -/
def SignsStart (kinds : List TokenKind) (form : Phrase Stmt) : Prop :=
  ∀ ⦃before : List Token⦄ ⦃statement : Stmt⦄ ⦃after : List Token⦄, form before statement after →
    ∀ rest, nextKind (statement.signs ++ rest) ∈ kinds

theorem signsStart_statement (depth : Nat) : SignsStart statementKinds (Statement depth) := by
  intro before statement after read rest
  cases depth with
  | zero => exact read.elim
  | succ depth =>
    cases read with
    | condition _ _ _ | alternative _ _ _ _ _ _ _ | loop _ _ _ | block _ _ =>
      rw [Stmt.signs, List.cons_append, nextKind_cons]
      decide
    | giveNothing kind _ | giveBack kind _ =>
      rw [Stmt.signs, List.cons_append, nextKind_cons, Token.erased, Token.kind_moved, kind]
      decide
    | expression exprRead =>
      rw [signs_printed]
      exact List.mem_append_right _
        (starts_expression depth (rereads_expression depth exprRead rest))

theorem signsStart_declaration (nested : Bool) (depth : Nat) :
    SignsStart declarationKinds (Declaration nested depth) := by
  intro before statement after read rest
  cases depth with
  | zero => exact read.elim
  | succ depth =>
    cases read with
    | remark _ _ | directive _ _ _ _ | directiveBe _ _ _ _ _ | function _ _ _ _ _ _ _
    | binding _ _ | bindingBe _ _ _ _ =>
      rw [Stmt.signs, List.cons_append, nextKind_cons]
      decide
    | statement read => exact List.mem_append_right _ (signsStart_statement depth read rest)

theorem nextKind_rowSigns {item : Phrase Stmt} (starts : SignsStart declarationKinds item)
    {before after : List Token} {statements : List Stmt}
    (read : Lines item before statements after) (ne_nil : statements ≠ []) (rest : List Token) :
    nextKind (Stmt.rowSigns statements ++ rest) ∈ declarationKinds := by
  induction read with
  | nil => exact absurd rfl ne_nil
  | lineEnd _ _ ih => exact ih ne_nil
  | cons first _ _ =>
    rw [Stmt.rowSigns, List.append_assoc]
    exact starts first _

end Grammar

namespace Parser

variable {final : Token}

section Stumbling

variable (ends : final.kind = .textEnd)

include ends

/-- No expression begins with `else`. -/
theorem run_expression_else (depth : Nat) (rest : List Token) :
    (expression depth).run ⟨elseSign :: rest, final⟩ = .error strandedFault := by
  have primaryRun : primary.run ⟨elseSign :: rest, final⟩ = .error strandedFault := rfl
  have calledRun : (called depth).run ⟨elseSign :: rest, final⟩ = .error strandedFault :=
    run_bind_of_error primaryRun
  have negatedRun : (negated (called depth) depth).run ⟨elseSign :: rest, final⟩ =
      .error strandedFault := by
    have bare : nextKind (elseSign :: rest) ∉ [TokenKind.notWord] := by
      rw [nextKind_cons]
      decide
    rw [negated, run_bind_of_ok (run_takeIf_of_not_mem ends bare)]
    exact calledRun
  exact run_bind_of_error (run_bind_of_error (run_bind_of_error negatedRun))

theorem run_giveBack_else (depth : Nat) (keyword : Token) (rest : List Token) :
    (giveBack depth keyword).run ⟨elseSign :: rest, final⟩ = .error strandedFault := by
  have notStopped : ¬ returnStops.contains elseSign.kind = true := by decide
  rw [giveBack, run_bind_of_ok run_peek_cons, if_neg notStopped]
  exact run_bind_of_error (run_expression_else ends depth rest)

/-- The statement strands an `else`, inside or at its own open end. -/
def Stranding (statement : Stmt) (rest : List Token) : Prop :=
  statement.strandsElse = true ∨ statement.openEnded = true ∧ ∃ more, rest = elseSign :: more

omit ends in
theorem not_stranding_printed (expr : Expr) (rest : List Token) :
    ¬ Stranding (printed expr) rest := by
  intro either
  rcases either with stranded | ⟨isOpen, _⟩
  · unfold printed at stranded
    split at stranded <;> cases stranded
  · unfold printed at isOpen
    split at isOpen <;> cases isOpen

/-- In a layer, every statement and body that strands an `else` is refused at an `else`. -/
structure StumblesLayer (final : Token) (depth : Nat) : Prop where
  statement : ∀ ⦃before statement after⦄, Statement depth before statement after →
    ∀ rest, Stranding statement rest →
      (Parser.statement depth).run ⟨statement.signs ++ rest, final⟩ = .error strandedFault
  body : ∀ ⦃before statements dot after⦄, Body depth before (statements, dot) after →
    Stmt.anyStrandsElse statements = true → ∀ rest,
      (Parser.body depth).run ⟨lineEndSign :: (Stmt.rowSigns statements ++ rest), final⟩ =
        .error strandedFault

/-- A whole statement that strands nothing is read again before anything that does not make it
longer. -/
theorem run_statement_signs {depth : Nat} {before after : List Token} {found : Stmt}
    (read : Statement depth before found after) (safe : found.strandsElse = false)
    (closed : found.openEnded = false) (whole : found.dangles = false) (rest : List Token) :
    (statement depth).run ⟨found.signs ++ elseSign :: rest, final⟩ =
      .ok (found.erased, ⟨elseSign :: rest, final⟩) := by
  have shut : found.openEnded = true → nextKind (elseSign :: rest) ∈ Parser.returnStops := by
    rw [closed]
    exact fun isOpen => absurd isOpen Bool.false_ne_true
  have again := (rereads_layer depth).1 read safe (elseSign :: rest) shut
  have settled : Settled (Statement depth) (found.signs ++ elseSign :: rest) found.erased
      (elseSign :: rest) := by
    refine ⟨again, fun dangles => ?_⟩
    rw [Stmt.erased, Stmt.dangles_moved, whole] at dangles
    cases dangles
  refine (complete_layer ends depth).1.statement settled ?_
  rw [nextKind_cons]
  decide

/-- A statement of one more level is refused at the `else` that it strands: the reader comes to it
where a branch that may stand alone has already taken its end. -/
theorem stumbles_statement {depth : Nat} (layer : StumblesLayer final depth)
    {before after : List Token} {found : Stmt} (read : Statement (depth + 1) before found after)
    (rest : List Token) (stranding : Stranding found rest) :
    (statement (depth + 1)).run ⟨found.signs ++ rest, final⟩ = .error strandedFault := by
  cases read with
  | @condition before middle after ifToken test yes _ testRead yesRead =>
    have testAgain := rereads_condition testRead (yes.signs ++ rest)
    have yesRun := layer.statement yesRead rest stranding
    simp only [Stmt.signs, List.cons_append, List.append_assoc]
    rw [statement, run_bind_of_ok run_peek_cons]
    simp only [ifSign, plainSign]
    rw [run_bind_of_ok run_take_cons, run_bind_of_ok (run_condition ends testAgain),
      run_bind_of_error yesRun]
  | @alternative before middle after lineEnds others ifToken elseToken test yes no _ testRead
      yesRead whole _ _ noRead =>
    have testAgain := rereads_condition testRead (yes.signs ++ elseSign :: (no.signs ++ rest))
    simp only [Stmt.signs, List.cons_append, List.append_assoc]
    rw [statement, run_bind_of_ok run_peek_cons]
    simp only [ifSign, plainSign]
    rw [run_bind_of_ok run_take_cons, run_bind_of_ok (run_condition ends testAgain)]
    by_cases early : Stranding yes (elseSign :: (no.signs ++ rest))
    · rw [run_bind_of_error (layer.statement yesRead _ early)]
    · obtain ⟨safe, closed⟩ := not_or.mp early
      replace safe : yes.strandsElse = false := by simpa using safe
      replace closed : yes.openEnded = false := by simpa using closed
      -- The first branch is read, so what is stranded is in the second one.
      have late : Stranding no rest := by
        simpa only [Stranding, Stmt.strandsElse, safe, closed, Bool.false_or, Stmt.openEnded]
          using stranding
      have past : pastLineEnds (elseSign :: (no.signs ++ rest)) = elseSign :: (no.signs ++ rest) :=
        pastLineEnds_of_ne (show elseSign.kind ≠ .lineEnd by decide)
      rw [run_bind_of_ok (run_statement_signs ends yesRead safe closed whole _),
        run_bind_of_ok (run_kindPastLineEnds ends _), past,
        if_pos (show nextKind (elseSign :: _) = .elseWord from rfl),
        run_bind_of_ok (run_skipLineEnds ends _), past, run_bind_of_ok run_take_cons,
        run_bind_of_error (layer.statement noRead rest late)]
  | giveNothing kind _ =>
    rcases stranding with stranded | ⟨_, more, rfl⟩
    · cases stranded
    rw [Stmt.signs, List.cons_append, List.nil_append, statement, run_bind_of_ok run_peek_cons]
    simp only [Token.erased, Token.kind_moved, kind]
    rw [run_bind_of_ok run_take_cons]
    exact run_giveBack_else ends depth _ more
  | giveBack _ _ =>
    rcases stranding with stranded | ⟨isOpen, _⟩
    · cases stranded
    · cases isOpen
  | @loop before middle after whileToken test inside _ testRead insideRead =>
    have testAgain := rereads_condition testRead (inside.signs ++ rest)
    have insideRun := layer.statement insideRead rest stranding
    simp only [Stmt.signs, List.cons_append, List.append_assoc]
    rw [statement, run_bind_of_ok run_peek_cons]
    simp only [whileSign, plainSign]
    rw [run_bind_of_ok run_take_cons, run_bind_of_ok (run_condition ends testAgain),
      run_bind_of_error insideRun]
  | block _ inside =>
    rcases stranding with stranded | ⟨isOpen, _⟩
    case inr => cases isOpen
    have bodyRun := layer.body inside stranded (dotSign :: rest)
    simp only [Stmt.signs, List.cons_append, List.append_assoc, List.nil_append]
    rw [statement, run_bind_of_ok run_peek_cons]
    simp only [colonSign, plainSign]
    rw [run_bind_of_ok run_take_cons, run_bind_of_error bodyRun]
  | expression exprRead => exact absurd stranding (not_stranding_printed _ rest)

/-- So is a declaration, if the statement or the body in it strands one. -/
theorem stumbles_declaration {nested : Bool} {depth : Nat} (layer : StumblesLayer final depth)
    {before after : List Token} {found : Stmt}
    (read : Declaration nested (depth + 1) before found after)
    (stranded : found.strandsElse = true) (rest : List Token) :
    (declaration nested (depth + 1)).run ⟨found.signs ++ rest, final⟩ = .error strandedFault := by
  cases read with
  | remark _ _ | directive _ _ _ _ | directiveBe _ _ _ _ _ | binding _ _ | bindingBe _ _ _ _ =>
    cases stranded
  | @function before middle after params toToken name opening closing colon dot statements _
      nameKind _ paramsRead _ _ inside =>
    have bodyRun := layer.body inside stranded (dotSign :: rest)
    have paramsAgain := rereads_listed rereads_name paramsRead
      (dashSign :: colonSign :: lineEndSign :: (Stmt.rowSigns statements ++ dotSign :: rest))
    have paramsRun := run_listed ends (agrees_expect_name ends .parameterName) (by decide)
      (by decide) (by decide) paramsAgain rfl
    simp only [Stmt.signs, List.cons_append, List.append_assoc, List.nil_append]
    rw [declaration, run_bind_of_ok run_peek_cons]
    simp only [toSign, plainSign]
    have nameKind' : name.erased.kind = .name := nameKind
    have dashKind : dashSign.kind = .dash := rfl
    have colonKind : colonSign.kind = .colon := rfl
    rw [run_bind_of_ok run_take_cons, function, run_bind_of_ok (run_expect_of_kind nameKind'),
      run_bind_of_ok (run_expect_of_kind dashKind), run_bind_of_ok paramsRun,
      run_bind_of_ok (run_expect_of_kind dashKind), run_bind_of_ok (run_expect_of_kind colonKind),
      run_bind_of_error bodyRun]
  | statement read =>
    have started := signsStart_statement depth read rest
    rw [declaration, run_bind_of_ok (run_peek _)]
    simp only [kind_headD ends]
    split
    next kind => exact absurd (kind ▸ started) (by decide)
    next kind => exact absurd (kind ▸ started) (by decide)
    next kind => exact absurd (kind ▸ started) (by decide)
    next kind => exact absurd (kind ▸ started) (by decide)
    next => exact layer.statement read rest (.inl stranded)

section Lines

variable {stops : List TokenKind} {item : Parser Stmt} {form : Phrase Stmt}
  (sound : Sound final item form) (complete : Complete final continuing item (Settled form))
  (shortens : Shortens form) (rereads : RereadsStatement form)
  (starts : SignsStart declarationKinds form)
  (stumbles : ∀ ⦃before statement after⦄, form before statement after →
    statement.strandsElse = true → ∀ rest,
      item.run ⟨statement.signs ++ rest, final⟩ = .error strandedFault)

include sound complete shortens rereads starts stumbles

/-- The lines before the first that strands an `else` are read, and that line is refused. -/
theorem stumbles_lines (bare : ∀ kind ∈ declarationKinds, kind ∉ stops) {before after : List Token}
    {statements : List Stmt} (read : Lines form before statements after)
    (stranded : Stmt.anyStrandsElse statements = true) (rest : List Token)
    (latestFirst : List Stmt) :
    (repeatFrom latestFirst (moreLines stops item)).run
      ⟨Stmt.rowSigns statements ++ rest, final⟩ = .error strandedFault := by
  have shrinks : Shrinks final (moreLines stops item) := shrinks_moreLines ends sound shortens
  induction read generalizing latestFirst with
  | nil => cases stranded
  | lineEnd _ _ ih => exact ih stranded latestFirst
  | @cons before middle after statement statements first others ih =>
    rw [Stmt.rowSigns, List.append_assoc, List.cons_append]
    have started := starts first (lineEndSign :: (Stmt.rowSigns statements ++ rest))
    have notLineEnd : ∀ kind ∈ declarationKinds, kind ≠ .lineEnd := by decide
    cases here : statement.strandsElse with
    | true =>
      refine run_repeatFrom_of_error shrinks ?_
      rw [run_moreLines_of_item ends (notLineEnd _ started) (bare _ started),
        run_bind_of_error (stumbles first here _)]
    | false =>
      rw [Stmt.anyStrandsElse, here, Bool.false_or] at stranded
      have ne_nil : statements ≠ [] := by
        rintro rfl
        cases stranded
      -- Another line follows, so no `else` does.
      have behind := nextKind_rowSigns starts others ne_nil rest
      have settled : nextKind (pastLineEnds (lineEndSign :: (Stmt.rowSigns statements ++ rest))) ≠
          .elseWord := by
        have notElse : ∀ kind ∈ declarationKinds, kind ≠ .elseWord := by decide
        rw [pastLineEnds_cons_lineEnd rfl, pastLineEnds_of_ne (notLineEnd _ behind)]
        exact notElse _ behind
      have again := rereads first here (lineEndSign :: (Stmt.rowSigns statements ++ rest))
        fun _ => show TokenKind.lineEnd ∈ returnStops by decide
      have itemRun := complete ⟨again, fun _ => settled⟩
        (show TokenKind.lineEnd ∉ continuing by decide)
      have round : (moreLines stops item latestFirst).run ⟨statement.signs ++
          lineEndSign :: (Stmt.rowSigns statements ++ rest), final⟩ =
          .ok (.inl (statement.erased :: latestFirst),
            ⟨lineEndSign :: (Stmt.rowSigns statements ++ rest), final⟩) := by
        rw [run_moreLines_of_item ends (notLineEnd _ started) (bare _ started),
          run_bind_of_ok itemRun]
        rfl
      rw [run_repeatFrom_of_inl shrinks round, run_repeatFrom shrinks,
        run_moreLines_of_lineEnd ends rfl, ← run_repeatFrom shrinks]
      exact ih stranded _

end Lines

/-- Whatever strands an `else` is refused there, at every depth. The induction is on the depth, and
carries statements, bodies and declarations together. -/
theorem stumbles_layer (depth : Nat) :
    StumblesLayer final depth ∧
      ∀ nested, ∀ ⦃before statement after⦄, Declaration nested depth before statement after →
        statement.strandsElse = true → ∀ rest,
          (declaration nested depth).run ⟨statement.signs ++ rest, final⟩ =
            .error strandedFault := by
  induction depth with
  | zero =>
    refine ⟨⟨?_, ?_⟩, ?_⟩
    · intro before found after read
      exact read.elim
    · intro before statements dot after read
      exact read.elim
    · intro nested before found after read
      exact read.elim
  | succ depth ih =>
    obtain ⟨layer, declarations⟩ := ih
    refine ⟨⟨fun _ _ _ => stumbles_statement ends layer, ?_⟩,
      fun _ _ _ _ => stumbles_declaration ends layer⟩
    intro before statements dot after read stranded rest
    cases read with
    | intro inside _ =>
      have shrinks : Shrinks final (moreLines [.dot, .textEnd] (declaration true depth)) :=
        shrinks_moreLines ends ((sound_layer ends depth).2.1 true) ((shortens_layer depth).2.1 true)
      refine run_bind_of_error ?_
      rw [lines, run_repeatFrom shrinks, run_moreLines_of_lineEnd ends rfl,
        ← run_repeatFrom shrinks]
      exact stumbles_lines ends ((sound_layer ends depth).2.1 true)
        ((complete_layer ends depth).2 true) ((shortens_layer depth).2.1 true)
        ((rereads_layer depth).2.1 true) (signsStart_declaration true depth) (declarations true)
        (by decide) inside stranded rest []

theorem run_program_signs {depth : Nat} {tokens : List Token} {found : Program}
    (read : Reads depth tokens found) (stranded : found.strandsElse = true) :
    (program depth).run ⟨found.signs, final⟩ = .error strandedFault := by
  cases found with
  | nil => cases stranded
  | cons statement rest =>
    have run : (repeatFrom [] (moreLines [.textEnd] (declaration false depth))).run
        ⟨Stmt.rowSigns (statement :: rest) ++ [], final⟩ = .error strandedFault :=
      stumbles_lines ends ((sound_layer ends depth).2.1 false)
        ((complete_layer ends depth).2 false) ((shortens_layer depth).2.1 false)
        ((rereads_layer depth).2.1 false) (signsStart_declaration false depth)
        ((stumbles_layer ends depth).2 false) (by decide) read stranded [] []
    rwa [List.append_nil] at run

end Stumbling

end Parser

/-- The signs of a program that strands an `else` are refused at an `else`. -/
theorem Program.parseWithin_signs_of_strandsElse {depth : Nat} {tokens : List Token}
    {program : Program} (read : Reads depth tokens program) (stranded : program.strandsElse = true)
    {final : Token} (inside : ∀ token ∈ program.signs, token.kind ≠ .textEnd)
    (ends : final.kind = .textEnd) :
    Program.parseWithin depth (program.signs ++ [final]) = .error strandedFault := by
  rw [Program.parseWithin_append inside ends, Parser.run_program_signs ends read stranded]
  rfl

end Marginalia
