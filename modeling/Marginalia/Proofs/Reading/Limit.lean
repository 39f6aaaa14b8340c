import Marginalia.Proofs.Reading.Runs

/-!
# What the limit of the reader decides

A reader that is let down one level more does the same, or the one with the lower
limit has given up. `Outlasts x y` says this of the readers `x` and `y`. It is
closed under the combinators of the reader, and the only place where the limit is
looked at is the one where the reader gives up.

So raising the limit never changes a program or a fault that was found below it
(`Program.parseWithin_of_le`).
-/

namespace Marginalia

namespace Parser

variable {α β σ : Type}

/-- Unless the second reader gives up, the first one does the same. -/
def Outlasts (x y : Parser α) : Prop :=
  ∀ stream : Stream, y.run stream = .error .tooDeep ∨ y.run stream = x.run stream

/-! ## Combinators -/

theorem outlasts_refl (x : Parser α) : Outlasts x x :=
  fun _ => .inr rfl

theorem outlasts_trans {x y z : Parser α} (first : Outlasts x y) (second : Outlasts y z) :
    Outlasts x z := by
  intro stream
  rcases second stream with gone | same
  · exact .inl gone
  · rw [same]
    exact first stream

theorem outlasts_tooDeep (x : Parser α) : Outlasts x (throw .tooDeep) :=
  fun _ => .inl rfl

/-- Parsers that outlast others one after the other outlast them together. -/
theorem outlasts_bind {x y : Parser α} {f g : α → Parser β} (first : Outlasts x y)
    (next : ∀ a, Outlasts (f a) (g a)) : Outlasts (x >>= f) (y >>= g) := by
  intro stream
  cases run : y.run stream with
  | error fault =>
    rw [run_bind_of_error run]
    rcases first stream with gone | same
    · rw [run] at gone
      cases gone
      exact .inl rfl
    · rw [run] at same
      rw [run_bind_of_error same.symm]
      exact .inr rfl
  | ok result =>
    obtain ⟨a, after⟩ := result
    rcases first stream with gone | same
    · rw [run] at gone
      cases gone
    · rw [run] at same
      rw [run_bind_of_ok run, run_bind_of_ok same.symm]
      exact next a after

theorem outlasts_ite {p : Prop} [Decidable p] {x x' y y' : Parser α} (yes : Outlasts x y)
    (no : Outlasts x' y') : Outlasts (if p then x else x') (if p then y else y') := by
  by_cases holds : p
  · rw [if_pos holds, if_pos holds]
    exact yes
  · rw [if_neg holds, if_neg holds]
    exact no

theorem outlasts_repeatFrom {round round' : σ → Parser (σ ⊕ α)}
    (step : ∀ state, Outlasts (round state) (round' state)) (state : σ) :
    Outlasts (repeatFrom state round) (repeatFrom state round') := by
  have bounded : ∀ (rounds : List Token) (state : σ),
      Outlasts (repeatFor round rounds state) (repeatFor round' rounds state) := by
    intro rounds
    induction rounds with
    | nil => exact fun _ => outlasts_refl _
    | cons token rounds ih =>
      intro state
      refine outlasts_bind (step state) fun outcome => ?_
      cases outcome with
      | inl next => exact ih next
      | inr result => exact outlasts_refl _
  exact fun stream => bounded (stream.final :: stream.rest) state stream

/-! ## Expressions -/

section Expressions

variable {operand operand' : Parser Expr} (outlasts : Outlasts operand operand')

include outlasts

theorem outlasts_negated (depth : Nat) :
    Outlasts (negated operand (depth + 1)) (negated operand' depth) := by
  induction depth with
  | zero =>
    rw [negated, negated]
    refine outlasts_bind (outlasts_refl _) fun found => ?_
    cases found with
    | none => exact outlasts
    | some operator => exact outlasts_tooDeep _
  | succ depth ih =>
    rw [negated, negated]
    refine outlasts_bind (outlasts_refl _) fun found => ?_
    cases found with
    | none => exact outlasts
    | some operator => exact outlasts_bind ih fun _ => outlasts_refl _

theorem outlasts_leftGrouped (node : Span → Expr → Token → Expr → Expr) (kinds : List TokenKind) :
    Outlasts (leftGrouped node kinds operand) (leftGrouped node kinds operand') := by
  refine outlasts_bind outlasts fun first => outlasts_repeatFrom (fun left => ?_) first
  refine outlasts_bind (outlasts_refl _) fun found => ?_
  cases found with
  | none => exact outlasts_refl _
  | some operator => exact outlasts_bind outlasts fun _ => outlasts_refl _

theorem outlasts_expressionOver (depth : Nat) :
    Outlasts (expressionOver operand (depth + 1)) (expressionOver operand' depth) := by
  refine outlasts_leftGrouped ?_ _ _
  refine outlasts_leftGrouped ?_ _ _
  refine outlasts_leftGrouped ?_ _ _
  exact outlasts_negated outlasts depth

end Expressions

theorem outlasts_plainExpression (depth : Nat) :
    Outlasts (plainExpression (depth + 1)) (plainExpression depth) :=
  outlasts_expressionOver (outlasts_refl _) depth

theorem outlasts_listed {item item' : Parser α} (outlasts : Outlasts item item') :
    Outlasts (listed item) (listed item') := by
  refine outlasts_bind (outlasts_refl _) fun token => outlasts_ite (outlasts_refl _) ?_
  refine outlasts_repeatFrom (fun items => outlasts_ite (outlasts_refl _) ?_) []
  exact outlasts_bind outlasts fun _ => outlasts_refl _

theorem outlasts_called (depth : Nat) : Outlasts (called (depth + 1)) (called depth) := by
  refine outlasts_bind (outlasts_refl _) fun first => outlasts_repeatFrom (fun callee => ?_) first
  refine outlasts_bind (outlasts_refl _) fun found => ?_
  cases found with
  | none => exact outlasts_refl _
  | some opening =>
    exact outlasts_bind (outlasts_listed (outlasts_plainExpression depth)) fun _ =>
      outlasts_refl _

theorem outlasts_expression (depth : Nat) :
    Outlasts (expression (depth + 1)) (expression depth) :=
  outlasts_expressionOver (outlasts_called depth) depth

theorem outlasts_condition (depth : Nat) (opening : Part) :
    Outlasts (condition (depth + 1) opening) (condition depth opening) :=
  outlasts_bind (outlasts_refl _) fun _ =>
    outlasts_bind (outlasts_plainExpression depth) fun _ => outlasts_refl _

/-! ## Statements -/

theorem outlasts_giveBack (depth : Nat) (keyword : Token) :
    Outlasts (giveBack (depth + 1) keyword) (giveBack depth keyword) := by
  refine outlasts_bind (outlasts_refl _) fun token => outlasts_ite (outlasts_refl _) ?_
  exact outlasts_bind (outlasts_expression depth) fun _ => outlasts_refl _

theorem outlasts_binding (depth : Nat) (letToken : Token) :
    Outlasts (binding (depth + 1) letToken) (binding depth letToken) := by
  refine outlasts_bind (outlasts_refl _) fun name => ?_
  refine outlasts_bind (outlasts_refl _) fun found => ?_
  cases found with
  | none => exact outlasts_refl _
  | some be => exact outlasts_bind (outlasts_expression depth) fun _ => outlasts_refl _

theorem outlasts_lines {item item' : Parser Stmt} (outlasts : Outlasts item item')
    (stops : List TokenKind) : Outlasts (lines stops item) (lines stops item') := by
  refine outlasts_repeatFrom (fun latestFirst => ?_) []
  refine outlasts_bind (outlasts_refl _) fun _ => outlasts_bind (outlasts_refl _) fun token => ?_
  exact outlasts_ite (outlasts_refl _) (outlasts_bind outlasts fun _ => outlasts_refl _)

theorem outlasts_function {body body' : Parser (List Stmt × Token)}
    (outlasts : Outlasts body body') (toToken : Token) :
    Outlasts (function body toToken) (function body' toToken) := by
  refine outlasts_bind (outlasts_refl _) fun name => outlasts_bind (outlasts_refl _) fun _ => ?_
  refine outlasts_bind (outlasts_refl _) fun params => outlasts_bind (outlasts_refl _) fun _ => ?_
  refine outlasts_bind (outlasts_refl _) fun _ => ?_
  exact outlasts_bind outlasts fun _ => outlasts_refl _

/-- The three productions that call each other, let down one level more. -/
theorem outlasts_productions (depth : Nat) :
    Outlasts (statement (depth + 1)) (statement depth) ∧
      (∀ nested, Outlasts (declaration nested (depth + 1)) (declaration nested depth)) ∧
      Outlasts (body (depth + 1)) (body depth) := by
  induction depth with
  | zero => exact ⟨outlasts_tooDeep _, fun _ => outlasts_tooDeep _, outlasts_tooDeep _⟩
  | succ depth ih =>
    obtain ⟨statementOutlasts, declarationOutlasts, bodyOutlasts⟩ := ih
    refine ⟨?_, fun nested => ?_, ?_⟩
    · rw [statement, statement]
      refine outlasts_bind (outlasts_refl _) fun token => ?_
      cases token.kind with
      | ifWord =>
        refine outlasts_bind (outlasts_refl _) fun ifToken => ?_
        refine outlasts_bind (outlasts_condition depth _) fun test => ?_
        refine outlasts_bind statementOutlasts fun yes => ?_
        refine outlasts_bind (outlasts_refl _) fun kind => outlasts_ite ?_ (outlasts_refl _)
        refine outlasts_bind (outlasts_refl _) fun _ => outlasts_bind (outlasts_refl _) fun _ => ?_
        exact outlasts_bind statementOutlasts fun no => outlasts_refl _
      | ampersand =>
        exact outlasts_bind (outlasts_refl _) fun keyword => outlasts_giveBack depth keyword
      | whileWord =>
        refine outlasts_bind (outlasts_refl _) fun whileToken => ?_
        refine outlasts_bind (outlasts_condition depth _) fun test => ?_
        exact outlasts_bind statementOutlasts fun inside => outlasts_refl _
      | colon =>
        refine outlasts_bind (outlasts_refl _) fun colon => ?_
        exact outlasts_bind bodyOutlasts fun inside => outlasts_refl _
      | _ => exact outlasts_bind (outlasts_expression depth) fun _ => outlasts_refl _
    · rw [declaration, declaration]
      refine outlasts_bind (outlasts_refl _) fun token => ?_
      cases token.kind with
      | toWord =>
        exact outlasts_bind (outlasts_refl _) fun toToken => outlasts_function bodyOutlasts toToken
      | letWord => exact outlasts_bind (outlasts_refl _) fun token => outlasts_binding depth token
      | dagger | pound => exact outlasts_refl _
      | _ => exact statementOutlasts
    · rw [body, body]
      exact outlasts_bind (outlasts_lines (declarationOutlasts true) _) fun _ => outlasts_refl _

theorem outlasts_program {depth more : Nat} (le : depth ≤ more) :
    Outlasts (program more) (program depth) := by
  induction le with
  | refl => exact outlasts_refl _
  | step _ ih =>
    exact outlasts_trans (outlasts_lines ((outlasts_productions _).2.1 false) _) ih

end Parser

/-- A higher limit gives the same answer as a lower one, unless the lower one was reached. -/
theorem Program.parseWithin_of_le {depth more : Nat} (le : depth ≤ more) (tokens : List Token) :
    Program.parseWithin depth tokens = .error .tooDeep ∨
      Program.parseWithin depth tokens = Program.parseWithin more tokens := by
  rw [Program.parseWithin, Program.parseWithin]
  cases Stream.ofTokens? tokens with
  | none => exact .inr rfl
  | some stream =>
    change Prod.fst <$> (Parser.program depth).run stream = _ ∨
      Prod.fst <$> (Parser.program depth).run stream =
        Prod.fst <$> (Parser.program more).run stream
    rcases Parser.outlasts_program le stream with gone | same
    · rw [gone]
      exact .inl rfl
    · rw [same]
      exact .inr rfl

end Marginalia
