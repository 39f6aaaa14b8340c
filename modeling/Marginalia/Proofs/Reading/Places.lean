import Marginalia.Proofs.Program.Moved
import Marginalia.Proofs.Reading.Runs

/-!
# The reader does not look at places

The reader copies the spans of tokens into the tree and joins them, but no choice
it makes depends on one. So reading tokens that were moved elsewhere is moving
what was read (`Program.parseWithin_moved`), faults included. The only demand on
a move is that it respects joining (`Joins`); forgetting all places does, and so
does shifting every position by one distance.

`Follows` relates a run on some tokens to the run on the same tokens elsewhere.
It is closed under the combinators of the reader, so every production gets it
from its parts.
-/

namespace Marginalia

/-- The place of two parts together moves with the parts. -/
def Joins (move : Span → Span) : Prop :=
  ∀ first last : Span, move (first.upTo last) = (move first).upTo (move last)

theorem joins_nowhere : Joins fun _ => .nowhere :=
  fun _ _ => rfl

/-- A stream of tokens elsewhere. -/
def Stream.moved (move : Span → Span) (stream : Stream) : Stream :=
  ⟨stream.rest.map (Token.moved move), stream.final.moved move⟩

namespace Parser

variable {move : Span → Span} {α β γ δ σ τ : Type}

/-- The outcome of a run with what it read and left moved elsewhere. -/
def carried (move : Span → Span) (carry : α → β) :
    Except Fault (α × Stream) → Except Fault (β × Stream)
  | .ok (result, after) => .ok (carry result, after.moved move)
  | .error fault => .error (fault.moved move)

/-- On a stream elsewhere the second reader does what the first one does here. -/
def Follows (move : Span → Span) (carry : α → β) (x : Parser α) (y : Parser β) : Prop :=
  ∀ stream : Stream, y.run (stream.moved move) = carried move carry (x.run stream)

/-! ## Combinators -/

theorem follows_pure {carry : α → β} {a : α} {b : β} (same : carry a = b) :
    Follows move carry (pure a) (pure b) := by
  intro stream
  rw [← same]
  rfl

theorem follows_throw {carry : α → β} {fault fault' : Fault} (same : fault.moved move = fault') :
    Follows move carry (throw fault) (throw fault') := by
  intro stream
  rw [← same]
  rfl

theorem follows_bind {carry : α → β} {carry' : γ → δ} {x : Parser α} {y : Parser β}
    {f : α → Parser γ} {g : β → Parser δ} (first : Follows move carry x y)
    (next : ∀ a, Follows move carry' (f a) (g (carry a))) :
    Follows move carry' (x >>= f) (y >>= g) := by
  intro stream
  have here := first stream
  cases run : x.run stream with
  | error fault =>
    rw [run] at here
    rw [run_bind_of_error run, run_bind_of_error here]
    rfl
  | ok result =>
    obtain ⟨a, after⟩ := result
    rw [run] at here
    rw [run_bind_of_ok run, run_bind_of_ok here]
    exact next a after

theorem follows_ite {carry : α → β} {p : Prop} [Decidable p] {x x' : Parser α} {y y' : Parser β}
    (yes : Follows move carry x y) (no : Follows move carry x' y') :
    Follows move carry (if p then x else x') (if p then y else y') := by
  by_cases holds : p
  · rw [if_pos holds, if_pos holds]
    exact yes
  · rw [if_neg holds, if_neg holds]
    exact no

theorem follows_peek : Follows move (Token.moved move) peek peek := by
  intro stream
  obtain ⟨rest, final⟩ := stream
  cases rest <;> rfl

theorem follows_take : Follows move (Token.moved move) take take := by
  intro stream
  obtain ⟨rest, final⟩ := stream
  cases rest <;> rfl

theorem follows_fail {carry : α → β} (cause : ParseCause) :
    Follows move carry (fail cause) (fail cause) :=
  follows_bind follows_peek fun _ => follows_throw rfl

theorem follows_takeIf (kinds : List TokenKind) :
    Follows move (Option.map (Token.moved move)) (takeIf kinds) (takeIf kinds) :=
  follows_bind follows_peek fun _ =>
    follows_ite (follows_bind follows_take fun _ => follows_pure rfl) (follows_pure rfl)

theorem follows_expect (kind : TokenKind) (part : Part) :
    Follows move (Token.moved move) (expect kind part) (expect kind part) := by
  refine follows_bind (follows_takeIf [kind]) fun found => ?_
  cases found with
  | none => exact follows_fail _
  | some token => exact follows_pure rfl

theorem follows_repeatFor {carry : σ → τ} {carry' : α → β} {round : σ → Parser (σ ⊕ α)}
    {round' : τ → Parser (τ ⊕ β)}
    (step : ∀ state, Follows move (Sum.map carry carry') (round state) (round' (carry state)))
    (rounds : List Token) (state : σ) :
    Follows move carry' (repeatFor round rounds state)
      (repeatFor round' (rounds.map (Token.moved move)) (carry state)) := by
  induction rounds generalizing state with
  | nil => exact follows_throw rfl
  | cons token rounds ih =>
    refine follows_bind (step state) fun outcome => ?_
    cases outcome with
    | inl next => exact ih next
    | inr result => exact follows_pure rfl

theorem follows_repeatFrom {carry : σ → τ} {carry' : α → β} {round : σ → Parser (σ ⊕ α)}
    {round' : τ → Parser (τ ⊕ β)}
    (step : ∀ state, Follows move (Sum.map carry carry') (round state) (round' (carry state)))
    (state : σ) :
    Follows move carry' (repeatFrom state round) (repeatFrom (carry state) round') :=
  fun stream => follows_repeatFor step (stream.final :: stream.rest) state stream

theorem follows_skipLineEnds : Follows move id skipLineEnds skipLineEnds := by
  have drop : Follows move id
      (modify fun stream : Stream =>
        { stream with rest := stream.rest.dropWhile (·.kind = .lineEnd) } : Parser PUnit)
      (modify fun stream : Stream =>
        { stream with rest := stream.rest.dropWhile (·.kind = .lineEnd) }) := by
    intro stream
    obtain ⟨rest, final⟩ := stream
    change Except.ok (PUnit.unit, Stream.mk ((rest.map (Token.moved move)).dropWhile _) _) = _
    rw [List.dropWhile_map]
    rfl
  refine follows_bind drop fun _ => follows_bind follows_peek fun token => ?_
  exact follows_ite (follows_throw rfl) (follows_pure rfl)

theorem follows_kindPastLineEnds : Follows move id kindPastLineEnds kindPastLineEnds := by
  intro stream
  obtain ⟨rest, final⟩ := stream
  change Except.ok ((((rest.map (Token.moved move)).dropWhile _).headD _).kind,
    Stream.moved _ _) = _
  rw [List.dropWhile_map]
  change _ = Except.ok (((rest.dropWhile fun token => decide (token.kind = .lineEnd)).headD
    final).kind, Stream.moved move ⟨rest, final⟩)
  have same : (fun token : Token => decide (token.kind = .lineEnd)) ∘ Token.moved move =
      fun token => decide (token.kind = .lineEnd) := rfl
  rw [same]
  cases rest.dropWhile fun token => decide (token.kind = .lineEnd) <;> rfl

/-! ## Expressions -/

theorem follows_primary : Follows move (Expr.moved move) primary primary := by
  refine follows_bind follows_peek fun token => ?_
  rw [Token.kind_moved]
  cases token.kind with
  | falseWord | trueWord | nothingWord | string =>
    exact follows_bind follows_take fun _ => follows_pure rfl
  | name => exact follows_bind follows_take fun _ => follows_pure rfl
  | _ => exact follows_fail _

section Expressions

variable {operand : Parser Expr} (joins : Joins move)
  (followed : Follows move (Expr.moved move) operand operand)

include joins followed

theorem follows_negated (depth : Nat) :
    Follows move (Expr.moved move) (negated operand depth) (negated operand depth) := by
  induction depth with
  | zero =>
    rw [negated]
    refine follows_bind (follows_takeIf _) fun found => ?_
    cases found with
    | none => exact followed
    | some operator => exact follows_throw rfl
  | succ depth ih =>
    rw [negated]
    refine follows_bind (follows_takeIf _) fun found => ?_
    cases found with
    | none => exact followed
    | some operator =>
      refine follows_bind ih fun inner => follows_pure ?_
      rw [Expr.moved, joins, Expr.span_moved]
      rfl

theorem follows_leftGrouped {node : Span → Expr → Token → Expr → Expr} (kinds : List TokenKind)
    (moves : ∀ span left operator right, (node span left operator right).moved move =
      node (move span) (left.moved move) (operator.moved move) (right.moved move)) :
    Follows move (Expr.moved move) (leftGrouped node kinds operand)
      (leftGrouped node kinds operand) := by
  refine follows_bind followed fun first => follows_repeatFrom (fun left => ?_) first
  refine follows_bind (follows_takeIf kinds) fun found => ?_
  cases found with
  | none => exact follows_pure rfl
  | some operator =>
    refine follows_bind followed fun right => follows_pure ?_
    rw [Sum.map_inl, moves, joins, Expr.span_moved, Expr.span_moved]

theorem follows_expressionOver (depth : Nat) :
    Follows move (Expr.moved move) (expressionOver operand depth)
      (expressionOver operand depth) := by
  refine follows_leftGrouped joins ?_ _ fun _ _ _ _ => rfl
  refine follows_leftGrouped joins ?_ _ fun _ _ _ _ => rfl
  refine follows_leftGrouped joins ?_ _ fun _ _ _ _ => rfl
  exact follows_negated joins followed depth

end Expressions

theorem follows_moreItems {carry : α → β} {item : Parser α} {item' : Parser β}
    (followed : Follows move carry item item') (items : List α) :
    Follows move (Sum.map (List.map carry) (List.map carry)) (moreItems item items)
      (moreItems item' (items.map carry)) := by
  rw [moreItems, moreItems, List.length_map]
  refine follows_ite (follows_fail _) ?_
  refine follows_bind followed fun found => follows_bind (follows_takeIf _) fun comma => ?_
  have grown : (items ++ [found]).map carry = items.map carry ++ [carry found] :=
    List.map_append
  cases comma with
  | none => exact follows_pure (congrArg Sum.inr grown)
  | some comma => exact follows_pure (congrArg Sum.inl grown)

theorem follows_listed {carry : α → β} {item : Parser α} {item' : Parser β}
    (followed : Follows move carry item item') :
    Follows move (List.map carry) (listed item) (listed item') := by
  refine follows_bind follows_peek fun token => follows_ite (follows_pure rfl) ?_
  exact follows_repeatFrom (follows_moreItems followed) []

section Joined

variable (joins : Joins move)

include joins

theorem follows_plainExpression (depth : Nat) :
    Follows move (Expr.moved move) (plainExpression depth) (plainExpression depth) :=
  follows_expressionOver joins follows_primary depth

theorem follows_called (depth : Nat) :
    Follows move (Expr.moved move) (called depth) (called depth) := by
  refine follows_bind follows_primary fun first => follows_repeatFrom (fun callee => ?_) first
  refine follows_bind (follows_takeIf _) fun found => ?_
  cases found with
  | none => exact follows_pure rfl
  | some opening =>
    refine follows_bind (follows_listed (follows_plainExpression joins depth)) fun arguments => ?_
    refine follows_bind (follows_expect _ _) fun marker => follows_pure ?_
    rw [Sum.map_inl, Expr.moved, joins, Expr.allMoved_eq_map, Expr.span_moved]
    rfl

theorem follows_expression (depth : Nat) :
    Follows move (Expr.moved move) (expression depth) (expression depth) :=
  follows_expressionOver joins (follows_called joins depth) depth

/-! ## Statements -/

omit joins in
theorem isPrinterCall_moved (expr : Expr) :
    isPrinterCall (expr.moved move) = isPrinterCall expr := by
  cases expr with
  | call span callee marker arguments => cases callee <;> rfl
  | _ => rfl

omit joins in
theorem inPrinter_moved (expr : Expr) :
    (inPrinter expr).moved move = inPrinter (expr.moved move) := by
  rw [inPrinter, inPrinter, Expr.span_moved]
  rfl

theorem follows_expressionStatement (depth : Nat) :
    Follows move (Stmt.moved move) (expressionStatement depth) (expressionStatement depth) := by
  refine follows_bind (follows_expression joins depth) fun expr => ?_
  rw [isPrinterCall_moved, Expr.span_moved]
  refine follows_ite (follows_pure rfl) (follows_pure ?_)
  rw [Stmt.moved, inPrinter_moved]

theorem follows_condition (depth : Nat) (opening : Part) :
    Follows move (Expr.moved move) (condition depth opening) (condition depth opening) := by
  refine follows_bind (follows_expect _ _) fun _ => ?_
  refine follows_bind (follows_plainExpression joins depth) fun test => ?_
  exact follows_bind (follows_expect _ _) fun _ => follows_pure rfl

theorem follows_giveBack (depth : Nat) (keyword : Token) :
    Follows move (Stmt.moved move) (giveBack depth keyword)
      (giveBack depth (keyword.moved move)) := by
  refine follows_bind follows_peek fun token => follows_ite (follows_pure rfl) ?_
  refine follows_bind (follows_expression joins depth) fun value => follows_pure ?_
  rw [Stmt.moved, joins, Expr.span_moved]
  rfl

theorem follows_remark (dagger : Token) :
    Follows move (Stmt.moved move) (remark dagger) (remark (dagger.moved move)) := by
  refine follows_bind (follows_expect _ _) fun text => follows_pure ?_
  rw [Stmt.moved, joins]
  rfl

theorem follows_directive (nested : Bool) (pound : Token) :
    Follows move (Stmt.moved move) (directive nested pound)
      (directive nested (pound.moved move)) := by
  refine follows_ite (follows_throw rfl) ?_
  refine follows_bind (follows_expect _ _) fun name => ?_
  refine follows_bind (follows_takeIf _) fun _ => ?_
  refine follows_bind (follows_expect _ _) fun value => follows_pure ?_
  rw [Stmt.moved, joins]
  rfl

theorem follows_binding (depth : Nat) (letToken : Token) :
    Follows move (Stmt.moved move) (binding depth letToken)
      (binding depth (letToken.moved move)) := by
  refine follows_bind (follows_expect _ _) fun name => ?_
  refine follows_bind (follows_takeIf _) fun found => ?_
  cases found with
  | none =>
    refine follows_pure ?_
    rw [Stmt.moved, joins]
    rfl
  | some be =>
    refine follows_bind (follows_expression joins depth) fun value => follows_pure ?_
    rw [Stmt.moved, joins, Expr.span_moved]
    rfl

omit joins in
theorem follows_lines {item : Parser Stmt} (followed : Follows move (Stmt.moved move) item item)
    (stops : List TokenKind) :
    Follows move (List.map (Stmt.moved move)) (lines stops item) (lines stops item) := by
  have step : ∀ latestFirst : List Stmt,
      Follows move (Sum.map (List.map (Stmt.moved move)) (List.map (Stmt.moved move)))
        (moreLines stops item latestFirst)
        (moreLines stops item (latestFirst.map (Stmt.moved move))) := by
    intro latestFirst
    refine follows_bind follows_skipLineEnds fun _ => follows_bind follows_peek fun token => ?_
    refine follows_ite (follows_pure ?_) ?_
    · rw [Sum.map_inr, List.map_reverse]
    · exact follows_bind followed fun _ => follows_pure rfl
  exact follows_repeatFrom step []

/-- What the inside of a block becomes elsewhere. -/
def bodyMoved (move : Span → Span) (body : List Stmt × Token) : List Stmt × Token :=
  (body.1.map (Stmt.moved move), body.2.moved move)

omit joins in
theorem follows_block {item : Parser Stmt} (followed : Follows move (Stmt.moved move) item item) :
    Follows move (bodyMoved move) (block item) (block item) :=
  follows_bind (follows_lines followed _) fun _ =>
    follows_bind (follows_expect _ _) fun _ => follows_pure rfl

theorem follows_function {body : Parser (List Stmt × Token)}
    (followed : Follows move (bodyMoved move) body body) (toToken : Token) :
    Follows move (Stmt.moved move) (function body toToken)
      (function body (toToken.moved move)) := by
  refine follows_bind (follows_expect _ _) fun name => ?_
  refine follows_bind (follows_expect _ _) fun _ => ?_
  refine follows_bind (follows_listed (follows_expect _ _)) fun params => ?_
  refine follows_bind (follows_expect _ _) fun _ => ?_
  refine follows_bind (follows_expect _ _) fun _ => ?_
  refine follows_bind followed fun inside => follows_pure ?_
  rw [Stmt.moved, joins, Stmt.allMoved_eq_map]
  rfl

/-- The three productions that call each other, at every depth. -/
theorem follows_productions (depth : Nat) :
    Follows move (Stmt.moved move) (statement depth) (statement depth) ∧
      (∀ nested, Follows move (Stmt.moved move) (declaration nested depth)
        (declaration nested depth)) ∧
      Follows move (bodyMoved move) (body depth) (body depth) := by
  induction depth with
  | zero => exact ⟨follows_throw rfl, fun _ => follows_throw rfl, follows_throw rfl⟩
  | succ depth ih =>
    obtain ⟨statementFollows, declarationFollows, bodyFollows⟩ := ih
    refine ⟨?_, fun nested => ?_, follows_block (declarationFollows true)⟩
    · refine follows_bind follows_peek fun token => ?_
      rw [Token.kind_moved]
      cases token.kind with
      | ifWord =>
        refine follows_bind follows_take fun ifToken => ?_
        refine follows_bind (follows_condition joins depth _) fun test => ?_
        refine follows_bind statementFollows fun yes => ?_
        refine follows_bind follows_kindPastLineEnds fun kind => follows_ite ?_ ?_
        · refine follows_bind follows_skipLineEnds fun _ => follows_bind follows_take fun _ => ?_
          refine follows_bind statementFollows fun no => follows_pure ?_
          rw [Stmt.moved, joins, Stmt.span_moved]
          rfl
        · refine follows_pure ?_
          rw [Stmt.moved, joins, Stmt.span_moved]
          rfl
      | ampersand =>
        exact follows_bind follows_take fun keyword => follows_giveBack joins depth keyword
      | whileWord =>
        refine follows_bind follows_take fun whileToken => ?_
        refine follows_bind (follows_condition joins depth _) fun test => ?_
        refine follows_bind statementFollows fun inside => follows_pure ?_
        rw [Stmt.moved, joins, Stmt.span_moved]
        rfl
      | colon =>
        refine follows_bind follows_take fun colon => ?_
        refine follows_bind bodyFollows fun inside => follows_pure ?_
        rw [Stmt.moved, joins, Stmt.allMoved_eq_map]
        rfl
      | _ => exact follows_expressionStatement joins depth
    · refine follows_bind follows_peek fun token => ?_
      rw [Token.kind_moved]
      cases token.kind with
      | dagger => exact follows_bind follows_take fun dagger => follows_remark joins dagger
      | pound => exact follows_bind follows_take fun pound => follows_directive joins nested pound
      | toWord =>
        exact follows_bind follows_take fun toToken => follows_function joins bodyFollows toToken
      | letWord => exact follows_bind follows_take fun token => follows_binding joins depth token
      | _ => exact statementFollows

theorem follows_program (depth : Nat) :
    Follows move (List.map (Stmt.moved move)) (program depth) (program depth) :=
  follows_lines ((follows_productions joins depth).2.1 false) _

end Joined

end Parser

theorem Stream.ofTokens?_moved (move : Span → Span) (tokens : List Token) :
    Stream.ofTokens? (tokens.map (Token.moved move)) =
      (Stream.ofTokens? tokens).map (Stream.moved move) := by
  have kinds : (fun token : Token => decide (token.kind ≠ .textEnd)) ∘ Token.moved move =
      fun token => decide (token.kind ≠ .textEnd) := rfl
  have kind : (fun token : Token => decide (token.kind = .textEnd)) ∘ Token.moved move =
      fun token => decide (token.kind = .textEnd) := rfl
  rw [Stream.ofTokens?, Stream.ofTokens?, List.takeWhile_map, List.find?_map, List.getLast?_map,
    kinds, kind]
  cases tokens.find? fun token => decide (token.kind = .textEnd) with
  | some final => rfl
  | none => cases tokens.getLast? <;> rfl

/-- Reading tokens elsewhere reads the same program elsewhere, or fails in the same way there. -/
theorem Program.parseWithin_moved {move : Span → Span} (joins : Joins move) (depth : Nat)
    (tokens : List Token) :
    Program.parseWithin depth (tokens.map (Token.moved move)) =
      ((Program.parseWithin depth tokens).map (List.map (Stmt.moved move))).mapError
        (Fault.moved move) := by
  rw [Program.parseWithin, Program.parseWithin, Stream.ofTokens?_moved]
  cases Stream.ofTokens? tokens with
  | none => rfl
  | some stream =>
    change Prod.fst <$> (Parser.program depth).run (stream.moved move) =
      ((Prod.fst <$> (Parser.program depth).run stream).map _).mapError _
    rw [Parser.follows_program joins depth stream]
    cases (Parser.program depth).run stream <;> rfl

end Marginalia
