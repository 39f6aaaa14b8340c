import Marginalia.Proofs.Reading.Nearest
import Marginalia.Proofs.Running.Alike
import Marginalia.Proofs.Scanning.Margins

/-!
# Notes do not change a program

Tokens with notes (`Noted`) derive the program that they derive without them, up to its remarks
(`Derives.exists_noted`). Notes stand at the ends of lines, and there a remark may stand wherever a
line may end, unless an `else` follows on the next one. An expression has no line end in it, so it
is carried over as it is; statements are carried over up to the remarks in their blocks.
-/

namespace Marginalia

open Grammar (Phrase Primary LeftGrouped Separated Listed Name LineEnds Lines)

/-! ## Tokens inside a line -/

/-- The kinds before which notes may stand, and those of notes. -/
def marginKinds : List TokenKind :=
  [.lineEnd, .textEnd, .dagger]

namespace Noted

variable {signs others : List Token} {token : Token}

theorem of_inner (noted : Noted (token :: signs) others) (inner : token.kind ∉ marginKinds) :
    ∃ signs', others = token :: signs' ∧ Noted signs signs' := by
  cases noted with
  | plain _ _ noted => exact ⟨_, rfl, noted⟩
  | lineEnd kind _ _ => exact absurd (kind ▸ by decide) inner
  | remark kind _ _ _ => exact absurd (kind ▸ by decide) inner
  | note next _ _ _ =>
    have margin : ∀ kind ∈ [TokenKind.lineEnd, .textEnd], kind ∈ marginKinds := by decide
    exact absurd (margin _ next) inner

theorem of_remark {text : Token} (noted : Noted (token :: text :: signs) others)
    (kind : token.kind = .dagger) :
    ∃ text' signs', others = token :: text' :: signs' ∧ text'.kind = .string ∧
      Noted signs signs' := by
  cases noted with
  | plain _ other _ => exact absurd kind other
  | lineEnd lineEnd _ _ =>
    rw [kind] at lineEnd
    cases lineEnd
  | remark _ _ textKind noted => exact ⟨_, _, rfl, textKind, noted⟩
  | note next _ _ _ =>
    rw [nextKind_cons, kind] at next
    exact absurd next (by decide)

/-- What stands behind a return without a value still ends it. -/
theorem nextKind_mem_returnStops (noted : Noted signs others)
    (stop : nextKind signs ∈ Parser.returnStops) : nextKind others ∈ Parser.returnStops := by
  cases noted with
  | nil | plain _ _ _ | lineEnd _ _ _ | remark _ _ _ _ => exact stop
  | note _ kind _ _ =>
    rw [nextKind_cons, kind]
    decide

end Noted

namespace Derivation

/-! ## Expressions -/

/-- The phrases of the form are the same phrases among notes. -/
def Carries {α : Type} (form : Phrase α) : Prop :=
  ∀ ⦃before : List Token⦄ ⦃a : α⦄ ⦃after : List Token⦄, form before a after →
    ∀ ⦃before' : List Token⦄, Noted before before' →
      ∃ after', form before' a after' ∧ Noted after after'

section Expressions

variable {α : Type} {form : Phrase α} {operand : Phrase Expr}

theorem carries_primary : Carries Primary := by
  intro before expr after read before' noted
  have inner : ∀ kind ∈ Grammar.operandKinds, kind ∉ marginKinds := by decide
  cases read with
  | falsehood kind =>
    obtain ⟨after', rfl, behind⟩ := noted.of_inner (inner _ (kind ▸ by decide))
    exact ⟨after', .falsehood kind, behind⟩
  | truth kind =>
    obtain ⟨after', rfl, behind⟩ := noted.of_inner (inner _ (kind ▸ by decide))
    exact ⟨after', .truth kind, behind⟩
  | nothing kind =>
    obtain ⟨after', rfl, behind⟩ := noted.of_inner (inner _ (kind ▸ by decide))
    exact ⟨after', .nothing kind, behind⟩
  | text kind =>
    obtain ⟨after', rfl, behind⟩ := noted.of_inner (inner _ (kind ▸ by decide))
    exact ⟨after', .text kind, behind⟩
  | name kind =>
    obtain ⟨after', rfl, behind⟩ := noted.of_inner (inner _ (kind ▸ by decide))
    exact ⟨after', .name kind, behind⟩

theorem carries_negated (carries : Carries operand) : Carries (Negated operand) := by
  intro before expr after read
  induction read with
  | operand read =>
    intro before' noted
    obtain ⟨after', again, noted⟩ := carries read noted
    exact ⟨after', .operand again, noted⟩
  | negation kind _ ih =>
    intro before' noted
    obtain ⟨rest, rfl, behind⟩ := noted.of_inner (kind ▸ by decide)
    obtain ⟨after', again, noted⟩ := ih behind
    exact ⟨after', .negation kind again, noted⟩

theorem carries_leftGrouped {node : Span → Expr → Token → Expr → Expr} {kinds : List TokenKind}
    (inner : ∀ kind ∈ kinds, kind ∉ marginKinds) (carries : Carries operand) :
    Carries (LeftGrouped node kinds operand) := by
  intro before expr after read
  induction read with
  | single read =>
    intro before' noted
    obtain ⟨after', again, noted⟩ := carries read noted
    exact ⟨after', .single again, noted⟩
  | more _ mem right ih =>
    intro before' noted
    obtain ⟨middle', left, noted⟩ := ih noted
    obtain ⟨rest, rfl, behind⟩ := noted.of_inner (inner _ mem)
    obtain ⟨after', again, noted⟩ := carries right behind
    exact ⟨after', .more left mem again, noted⟩

theorem carries_expressionOver (carries : Carries operand) : Carries (ExpressionOver operand) :=
  carries_leftGrouped (by decide) (carries_leftGrouped (by decide)
    (carries_leftGrouped (by decide) (carries_negated carries)))

theorem carries_plain : Carries Plain :=
  carries_expressionOver carries_primary

theorem carries_name : Carries Name := by
  intro before token after read before' noted
  cases read with
  | intro kind =>
    obtain ⟨after', rfl, behind⟩ := noted.of_inner (kind ▸ by decide)
    exact ⟨after', .intro kind, behind⟩

theorem carries_listed (carries : Carries form) : Carries (Listed form) := by
  have separated : Carries (Separated form) := by
    intro before items after read
    induction read with
    | single read =>
      intro before' noted
      obtain ⟨after', again, noted⟩ := carries read noted
      exact ⟨after', .single again, noted⟩
    | more _ kind room found ih =>
      intro before' noted
      obtain ⟨middle', front, noted⟩ := ih noted
      obtain ⟨rest, rfl, behind⟩ := noted.of_inner (kind ▸ by decide)
      obtain ⟨after', again, noted⟩ := carries found behind
      exact ⟨after', .more front kind room again, noted⟩
  intro before items after read before' noted
  cases read with
  | none => exact ⟨before', .none, noted⟩
  | some read =>
    obtain ⟨after', again, noted⟩ := separated read noted
    exact ⟨after', .some again, noted⟩

theorem carries_called : Carries Called := by
  intro before expr after read
  induction read with
  | primary read =>
    intro before' noted
    obtain ⟨after', again, noted⟩ := carries_primary read noted
    exact ⟨after', .primary again, noted⟩
  | call _ openingKind arguments markerKind ih =>
    intro before' noted
    obtain ⟨middle', callee, noted⟩ := ih noted
    obtain ⟨rest, rfl, behind⟩ := noted.of_inner (openingKind ▸ by decide)
    obtain ⟨last, listed, noted⟩ := carries_listed carries_plain arguments behind
    obtain ⟨after', rfl, behind⟩ := noted.of_inner (markerKind ▸ by decide)
    exact ⟨after', .call callee openingKind listed markerKind, behind⟩

theorem carries_expression : Carries Expression :=
  carries_expressionOver carries_called

theorem carries_condition : Carries Condition := by
  intro before test after read before' noted
  cases read with
  | intro openingKind test closingKind =>
    obtain ⟨rest, rfl, behind⟩ := noted.of_inner (openingKind ▸ by decide)
    obtain ⟨last, again, noted⟩ := carries_plain test behind
    obtain ⟨after', rfl, behind⟩ := noted.of_inner (closingKind ▸ by decide)
    exact ⟨after', .intro openingKind again closingKind, behind⟩

end Expressions

/-! ## Statements -/

theorem allBare_cons (statement : Stmt) (rest : List Stmt) :
    Stmt.allBare (statement :: rest) = Stmt.allBare [statement] ++ Stmt.allBare rest := by
  cases statement <;> rfl

theorem allBare_append (statements others : List Stmt) :
    Stmt.allBare (statements ++ others) = Stmt.allBare statements ++ Stmt.allBare others := by
  induction statements with
  | nil => rfl
  | cons statement statements ih =>
    rw [List.cons_append, allBare_cons, ih, allBare_cons statement statements, List.append_assoc]

theorem allBare_singleton {before after : List Token} {statement : Stmt}
    (derived : Statement before statement after) :
    Stmt.allBare [statement] = [statement.bare] := by
  cases derived <;> rfl

section Notes

variable {signs others : List Token} {token : Token}

/-- Before the end of a line notes are lines of their own. -/
theorem exists_of_noted_lineEnd (noted : Noted (token :: signs) others)
    (kind : token.kind = .lineEnd) (nested : Bool) :
    nextKind signs ≠ .elseWord ∧ ∃ notes signs', Noted signs signs' ∧
      Stmt.allBare notes = [] ∧ Lines (Declaration nested) others notes (token :: signs') := by
  generalize all : token :: signs = before at noted
  induction noted with
  | nil => cases all
  | plain unbroken _ _ _ =>
    cases all
    exact absurd kind unbroken
  | lineEnd _ next noted _ =>
    cases all
    exact ⟨next, [], _, noted, rfl, .nil⟩
  | remark dagger _ _ _ _ =>
    cases all
    rw [kind] at dagger
    cases dagger
  | note _ dagger text _ ih =>
    obtain ⟨next, notes, signs', noted, bare, read⟩ := ih all
    exact ⟨next, .remark _ _ :: notes, signs', noted, bare, .cons (.remark dagger text) read⟩

/-- At the end of the text notes are lines of their own. -/
theorem exists_of_noted_nil (noted : Noted [] others) (nested : Bool) :
    ∃ notes, Stmt.allBare notes = [] ∧ Lines (Declaration nested) others notes [] := by
  generalize none : [] = before at noted
  induction noted with
  | nil => exact ⟨[], rfl, .nil⟩
  | plain _ _ _ _ | lineEnd _ _ _ _ | remark _ _ _ _ _ => cases none
  | note _ dagger text _ ih =>
    obtain ⟨notes, bare, read⟩ := ih none
    exact ⟨.remark _ _ :: notes, bare, .cons (.remark dagger text) read⟩

/-- No notes come before an `else`. -/
theorem eq_nil_of_noted_else {ends : List Token} {elseToken : Token} {behind : List Token}
    (lineEnds : LineEnds ends) (kind : elseToken.kind = .elseWord)
    (noted : Noted (ends ++ elseToken :: behind) others) : ends = [] := by
  induction ends generalizing others with
  | nil => rfl
  | cons token ends ih =>
    obtain ⟨next, notes, signs', noted, _, _⟩ :=
      exists_of_noted_lineEnd noted (lineEnds token List.mem_cons_self) false
    have none := ih (fun other mem => lineEnds other (List.mem_cons_of_mem _ mem)) noted
    subst none
    exact absurd kind next

end Notes

/-- The statements of the form that are nested at most `depth` deep are carried over, up to their
remarks. -/
def CarriesWithin (depth : Nat) (form : Phrase Stmt) : Prop :=
  ∀ ⦃before : List Token⦄ ⦃statement : Stmt⦄ ⦃after : List Token⦄, form before statement after →
    statement.nesting ≤ depth → ∀ ⦃before' : List Token⦄, Noted before before' →
      ∃ statement' after', form before' statement' after' ∧ Noted after after' ∧
        Stmt.allBare [statement'] = Stmt.allBare [statement]

section Statements

variable {depth : Nat} {before before' after : List Token} {statements : List Stmt}

theorem carries_lines {nested : Bool} (carries : CarriesWithin depth (Declaration nested))
    (read : Lines (Declaration nested) before statements after)
    (fits : Stmt.linesNesting statements ≤ depth) (noted : Noted before before') :
    ∃ statements' after', Lines (Declaration nested) before' statements' after' ∧
      Noted after after' ∧ Stmt.allBare statements' = Stmt.allBare statements := by
  induction read generalizing before' with
  | nil => exact ⟨[], before', .nil, noted, rfl⟩
  | lineEnd kind _ ih =>
    obtain ⟨_, notes, rest, behind, bare, notesRead⟩ :=
      exists_of_noted_lineEnd noted kind nested
    obtain ⟨statements', after', again, noted, same⟩ := ih fits behind
    refine ⟨notes ++ statements', after', ?_, noted, ?_⟩
    · exact Grammar.lines_append notesRead (.lineEnd kind again)
    · rw [allBare_append, bare, List.nil_append, same]
  | cons first _ ih =>
    rw [Stmt.linesNesting] at fits
    obtain ⟨statement', middle', firstAgain, behind, firstSame⟩ := carries first (by omega) noted
    obtain ⟨statements', after', again, noted, same⟩ := ih (by omega) behind
    refine ⟨statement' :: statements', after', .cons firstAgain again, noted, ?_⟩
    rw [allBare_cons, firstSame, same, ← allBare_cons]

/-- The lines of a block are carried over up to its dot. -/
theorem carries_body {dot : Token} (carries : CarriesWithin depth (Declaration true))
    (read : Lines (Declaration true) before statements (dot :: after)) (kind : dot.kind = .dot)
    (fits : Stmt.linesNesting statements ≤ depth) (noted : Noted before before') :
    ∃ statements' after', Lines (Declaration true) before' statements' (dot :: after') ∧
      Noted after after' ∧ Stmt.allBare statements' = Stmt.allBare statements := by
  obtain ⟨statements', last, again, behind, same⟩ := carries_lines carries read fits noted
  obtain ⟨after', rfl, noted⟩ := behind.of_inner (kind ▸ by decide)
  exact ⟨statements', after', again, noted, same⟩

/-- A statement of one more level is carried over to tokens with notes among them, as notes stand
only where a line ends. -/
theorem carriesWithin_statement_succ (branches : CarriesWithin depth Statement)
    (lines : CarriesWithin depth (Declaration true)) : CarriesWithin (depth + 1) Statement := by
  -- branches are no remarks
  have branch : ∀ {before statement after}, Statement before statement after →
      statement.nesting ≤ depth → ∀ {before'}, Noted before before' →
      ∃ statement' after', Statement before' statement' after' ∧ Noted after after' ∧
        statement'.bare = statement.bare := by
    intro before statement after derived fits before' noted
    obtain ⟨statement', after', again, noted, same⟩ := branches derived fits noted
    rw [allBare_singleton derived, allBare_singleton again] at same
    exact ⟨statement', after', again, noted, (List.cons.inj same).1⟩
  intro before statement after derived fits before' noted
  cases derived with
  | condition kind test yes =>
    rw [Stmt.nesting] at fits
    obtain ⟨rest, rfl, behind⟩ := noted.of_inner (kind ▸ by decide)
    obtain ⟨middle, testAgain, behind⟩ := carries_condition test behind
    obtain ⟨yes', after', yesAgain, noted, same⟩ := branch yes (by omega) behind
    refine ⟨_, after', .condition kind testAgain yesAgain, noted, ?_⟩
    simp only [Stmt.allBare, Stmt.bare, same]
  | alternative kind test yes lineEnds elseKind no =>
    rw [Stmt.nesting] at fits
    obtain ⟨rest, rfl, behind⟩ := noted.of_inner (kind ▸ by decide)
    obtain ⟨middle, testAgain, behind⟩ := carries_condition test behind
    obtain ⟨yes', last, yesAgain, behind, yesSame⟩ := branch yes (by omega) behind
    obtain rfl := eq_nil_of_noted_else lineEnds elseKind behind
    obtain ⟨others, rfl, afterElse⟩ := behind.of_inner (elseKind ▸ by decide)
    obtain ⟨no', after', noAgain, noted, noSame⟩ := branch no (by omega) afterElse
    refine ⟨_, after', .alternative kind testAgain yesAgain lineEnds elseKind noAgain, noted, ?_⟩
    simp only [Stmt.allBare, Stmt.bare, yesSame, noSame]
  | giveNothing kind stop =>
    obtain ⟨after', rfl, behind⟩ := noted.of_inner (kind ▸ by decide)
    exact ⟨_, after', .giveNothing kind (behind.nextKind_mem_returnStops stop), behind, rfl⟩
  | giveBack kind value =>
    obtain ⟨rest, rfl, behind⟩ := noted.of_inner (kind ▸ by decide)
    obtain ⟨after', again, noted⟩ := carries_expression value behind
    exact ⟨_, after', .giveBack kind again, noted, rfl⟩
  | loop kind test inside =>
    rw [Stmt.nesting] at fits
    obtain ⟨rest, rfl, behind⟩ := noted.of_inner (kind ▸ by decide)
    obtain ⟨middle, testAgain, behind⟩ := carries_condition test behind
    obtain ⟨inside', after', again, noted, same⟩ := branch inside (by omega) behind
    refine ⟨_, after', .loop kind testAgain again, noted, ?_⟩
    simp only [Stmt.allBare, Stmt.bare, same]
  | block kind inside dotKind =>
    rw [Stmt.nesting] at fits
    obtain ⟨rest, rfl, behind⟩ := noted.of_inner (kind ▸ by decide)
    obtain ⟨inside', after', again, noted, same⟩ :=
      carries_body lines inside dotKind (by omega) behind
    refine ⟨_, after', .block kind again dotKind, noted, ?_⟩
    simp only [Stmt.allBare, Stmt.bare, same]
  | printer expr calls =>
    obtain ⟨after', again, noted⟩ := carries_expression expr noted
    exact ⟨_, after', .printer again calls, noted, rfl⟩
  | wrapped expr other =>
    obtain ⟨after', again, noted⟩ := carries_expression expr noted
    exact ⟨_, after', .wrapped again other, noted, rfl⟩

/-- So is a declaration, and a remark that stands alone may be one of the notes. -/
theorem carriesWithin_declaration_succ (nested : Bool)
    (branches : CarriesWithin (depth + 1) Statement)
    (lines : CarriesWithin depth (Declaration true)) :
    CarriesWithin (depth + 1) (Declaration nested) := by
  intro before statement after derived fits before' noted
  cases derived with
  | remark kind textKind =>
    obtain ⟨text', after', rfl, textKind, behind⟩ := noted.of_remark kind
    exact ⟨_, after', .remark kind textKind, behind, rfl⟩
  | directive kind nameKind valueKind =>
    obtain ⟨rest, rfl, afterPound⟩ := noted.of_inner (kind ▸ by decide)
    obtain ⟨rest, rfl, afterName⟩ := afterPound.of_inner (nameKind ▸ by decide)
    obtain ⟨after', rfl, afterValue⟩ := afterName.of_inner (valueKind ▸ by decide)
    exact ⟨_, after', .directive kind nameKind valueKind, afterValue, rfl⟩
  | directiveBe kind nameKind beKind valueKind =>
    obtain ⟨rest, rfl, afterPound⟩ := noted.of_inner (kind ▸ by decide)
    obtain ⟨rest, rfl, afterName⟩ := afterPound.of_inner (nameKind ▸ by decide)
    obtain ⟨rest, rfl, afterBe⟩ := afterName.of_inner (beKind ▸ by decide)
    obtain ⟨after', rfl, afterValue⟩ := afterBe.of_inner (valueKind ▸ by decide)
    exact ⟨_, after', .directiveBe kind nameKind beKind valueKind, afterValue, rfl⟩
  | function kind nameKind openingKind params closingKind colonKind inside dotKind =>
    rw [Stmt.nesting] at fits
    obtain ⟨rest, rfl, afterTo⟩ := noted.of_inner (kind ▸ by decide)
    obtain ⟨rest, rfl, afterName⟩ := afterTo.of_inner (nameKind ▸ by decide)
    obtain ⟨rest, rfl, afterOpening⟩ := afterName.of_inner (openingKind ▸ by decide)
    obtain ⟨rest, listed, afterParams⟩ := carries_listed carries_name params afterOpening
    obtain ⟨rest, rfl, afterClosing⟩ := afterParams.of_inner (closingKind ▸ by decide)
    obtain ⟨rest, rfl, afterColon⟩ := afterClosing.of_inner (colonKind ▸ by decide)
    obtain ⟨inside', after', again, noted, same⟩ :=
      carries_body lines inside dotKind (by omega) afterColon
    refine ⟨_, after', .function kind nameKind openingKind listed closingKind colonKind again
      dotKind, noted, ?_⟩
    simp only [Stmt.allBare, Stmt.bare, same]
  | binding kind nameKind =>
    obtain ⟨rest, rfl, afterLet⟩ := noted.of_inner (kind ▸ by decide)
    obtain ⟨after', rfl, afterName⟩ := afterLet.of_inner (nameKind ▸ by decide)
    exact ⟨_, after', .binding kind nameKind, afterName, rfl⟩
  | bindingBe kind nameKind beKind value =>
    obtain ⟨rest, rfl, afterLet⟩ := noted.of_inner (kind ▸ by decide)
    obtain ⟨rest, rfl, afterName⟩ := afterLet.of_inner (nameKind ▸ by decide)
    obtain ⟨rest, rfl, afterBe⟩ := afterName.of_inner (beKind ▸ by decide)
    obtain ⟨after', again, noted⟩ := carries_expression value afterBe
    exact ⟨_, after', .bindingBe kind nameKind beKind again, noted, rfl⟩
  | statement derived =>
    obtain ⟨statement', after', again, noted, same⟩ := branches derived fits noted
    exact ⟨statement', after', .statement again, noted, same⟩

theorem carriesWithin_layer (depth : Nat) :
    CarriesWithin depth Statement ∧ ∀ nested, CarriesWithin depth (Declaration nested) :=
  layer_of_succ CarriesWithin
    (fun _ _ statement _ _ fits => absurd fits (Nat.not_le_of_lt statement.nesting_pos))
    carriesWithin_statement_succ carriesWithin_declaration_succ depth

end Statements

end Derivation

/-- Tokens with notes derive the program that they derive without them, up to its remarks. -/
theorem Derives.exists_noted {signs signs' : List Token} {program : Program}
    (derives : Derives signs program) (noted : Noted signs signs') :
    ∃ program' : Program, Derives signs' program' ∧ program'.bare = program.bare := by
  obtain ⟨statements, last, again, behind, same⟩ := Derivation.carries_lines
    ((Derivation.carriesWithin_layer _).2 false) derives (Nat.le_refl _) noted
  obtain ⟨notes, bare, notesRead⟩ := Derivation.exists_of_noted_nil behind false
  refine ⟨statements ++ notes, Grammar.lines_append again notesRead, ?_⟩
  rw [Program.bare, Derivation.allBare_append, bare, List.append_nil, same]
  rfl

end Marginalia
