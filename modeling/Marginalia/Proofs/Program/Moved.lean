import Marginalia.Program.Layout
import Marginalia.Program.Parse

/-!
# Programs at other places

A program keeps the places it was read from. `Stmt.moved` takes every span of a
tree to another one and leaves the rest of the tree alone; `Stmt.erased` is the
special case that forgets all places, so two programs are the same up to their
places exactly when they are equal after `erased`.

Layout and depth do not look at places (`Stmt.layout_moved`,
`Stmt.depth_moved`). That the reader does not either is shown in
`Marginalia.Proofs.Reading.Places`.
-/

namespace Marginalia

/-- A span that stands for no place at all. -/
def Span.nowhere : Span := ⟨"", .origin, .origin⟩

/-- A token at another place. -/
def Token.moved (move : Span → Span) (token : Token) : Token :=
  { token with span := move token.span }

/-- A token without its place. -/
def Token.erased (token : Token) : Token :=
  token.moved fun _ => .nowhere

/-- A fault about another place. -/
def Fault.moved (move : Span → Span) : Fault → Fault
  | .scan cause span => .scan cause (move span)
  | .parse cause found => .parse cause (found.moved move)
  | .run cause place => .run cause (place.moved move)
  | fault => fault

namespace Expr

mutual

/-- An expression at another place. -/
def moved (move : Span → Span) : Expr → Expr
  | .constant span value => .constant (move span) value
  | .name span token => .name (move span) (token.moved move)
  | .negation span operator operand =>
    .negation (move span) (operator.moved move) (operand.moved move)
  | .comparison span left operator right =>
    .comparison (move span) (left.moved move) (operator.moved move) (right.moved move)
  | .connective span left operator right =>
    .connective (move span) (left.moved move) (operator.moved move) (right.moved move)
  | .call span callee marker arguments =>
    .call (move span) (callee.moved move) (marker.moved move) (allMoved move arguments)
  | .unknown span kind view => .unknown (move span) kind view

/-- Some expressions at other places. -/
def allMoved (move : Span → Span) : List Expr → List Expr
  | [] => []
  | expr :: rest => expr.moved move :: allMoved move rest

end

/-- An expression without its places. -/
def erased (expr : Expr) : Expr :=
  expr.moved fun _ => .nowhere

end Expr

namespace Stmt

mutual

/-- A statement at another place. -/
def moved (move : Span → Span) : Stmt → Stmt
  | .expression span expr wrapped => .expression (move span) (expr.moved move) wrapped
  | .binding span name initial =>
    .binding (move span) (name.moved move) (initial.map (Expr.moved move))
  | .block span statements => .block (move span) (allMoved move statements)
  | .condition span test yes none =>
    .condition (move span) (test.moved move) (yes.moved move) none
  | .condition span test yes (some no) =>
    .condition (move span) (test.moved move) (yes.moved move) (some (no.moved move))
  | .loop span test body => .loop (move span) (test.moved move) (body.moved move)
  | .giveBack span keyword value =>
    .giveBack (move span) (keyword.moved move) (value.map (Expr.moved move))
  | .function span name params body =>
    .function (move span) (name.moved move) (params.map (Token.moved move)) (allMoved move body)
  | .directive span name value => .directive (move span) (name.moved move) (value.moved move)
  | .remark span text => .remark (move span) (text.moved move)
  | .unknown span kind view => .unknown (move span) kind view

/-- Some statements at other places. -/
def allMoved (move : Span → Span) : List Stmt → List Stmt
  | [] => []
  | statement :: rest => statement.moved move :: allMoved move rest

end

/-- A statement without its places. -/
def erased (statement : Stmt) : Stmt :=
  statement.moved fun _ => .nowhere

end Stmt

/-- A program without its places. -/
def Program.erased (program : Program) : Program :=
  program.map Stmt.erased

section Fields

variable {move : Span → Span}

@[simp] theorem Token.kind_moved (token : Token) : (token.moved move).kind = token.kind := rfl

@[simp] theorem Token.lexeme_moved (token : Token) :
    (token.moved move).lexeme = token.lexeme := rfl

@[simp] theorem Expr.span_moved (expr : Expr) : (expr.moved move).span = move expr.span := by
  cases expr <;> rfl

@[simp] theorem Stmt.span_moved (statement : Stmt) :
    (statement.moved move).span = move statement.span := by
  cases statement with
  | condition span test yes no => cases no <;> rfl
  | _ => rfl

@[simp] theorem Expr.allMoved_eq_map (exprs : List Expr) :
    Expr.allMoved move exprs = exprs.map (Expr.moved move) := by
  induction exprs with
  | nil => rfl
  | cons expr rest ih => rw [Expr.allMoved, ih, List.map_cons]

@[simp] theorem Stmt.allMoved_eq_map (statements : List Stmt) :
    Stmt.allMoved move statements = statements.map (Stmt.moved move) := by
  induction statements with
  | nil => rfl
  | cons statement rest ih => rw [Stmt.allMoved, ih, List.map_cons]

end Fields

/-! ## Trees that stay where they are -/

namespace Expr

mutual

theorem moved_id (expr : Expr) : expr.moved id = expr := by
  cases expr with
  | constant span value => rfl
  | name span token => rfl
  | negation span operator operand =>
    rw [moved, moved_id operand]
    rfl
  | comparison span left operator right =>
    rw [moved, moved_id left, moved_id right]
    rfl
  | connective span left operator right =>
    rw [moved, moved_id left, moved_id right]
    rfl
  | call span callee marker arguments =>
    rw [moved, moved_id callee, allMoved_id arguments]
    rfl
  | unknown span kind view => rfl

theorem allMoved_id (exprs : List Expr) : allMoved id exprs = exprs := by
  cases exprs with
  | nil => rfl
  | cons expr rest => rw [allMoved, moved_id expr, allMoved_id rest]

end

theorem map_moved_id (part : Option Expr) : part.map (moved id) = part := by
  rw [funext moved_id]
  exact Option.map_id'

end Expr

namespace Stmt

mutual

/-- A statement that is moved nowhere stays as it is. -/
theorem moved_id (statement : Stmt) : statement.moved id = statement := by
  cases statement with
  | expression span expr wrapped =>
    rw [moved, Expr.moved_id]
    rfl
  | binding span name initial =>
    rw [moved, Expr.map_moved_id]
    rfl
  | block span statements =>
    rw [moved, allMoved_id statements]
    rfl
  | condition span test yes no =>
    cases no with
    | none =>
      rw [moved, Expr.moved_id, moved_id yes]
      rfl
    | some no =>
      rw [moved, Expr.moved_id, moved_id yes, moved_id no]
      rfl
  | loop span test body =>
    rw [moved, Expr.moved_id, moved_id body]
    rfl
  | giveBack span keyword value =>
    rw [moved, Expr.map_moved_id]
    rfl
  | function span name params body =>
    have same : params.map (Token.moved id) = params := List.map_id' params
    rw [moved, allMoved_id body, same]
    rfl
  | directive span name value => rfl
  | remark span text => rfl
  | unknown span kind view => rfl

theorem allMoved_id (statements : List Stmt) : allMoved id statements = statements := by
  cases statements with
  | nil => rfl
  | cons statement rest => rw [allMoved, moved_id statement, allMoved_id rest]

end

end Stmt

/-! ## Layout and depth do not look at places -/

namespace Expr

variable {move : Span → Span}

mutual

theorem layout_moved (expr : Expr) : (expr.moved move).layout = expr.layout := by
  cases expr with
  | constant span value => rfl
  | name span token => rfl
  | negation span operator operand => rw [moved, layout, layout, layout_moved operand]
  | comparison span left operator right =>
    rw [moved, layout, layout, layout_moved left, layout_moved right, Token.lexeme_moved]
  | connective span left operator right =>
    rw [moved, layout, layout, layout_moved left, layout_moved right, Token.lexeme_moved]
  | call span callee marker arguments =>
    rw [moved, layout, layout, layouts_moved arguments, layout_moved callee]
  | unknown span kind view => rfl

theorem layouts_moved (exprs : List Expr) : layouts (allMoved move exprs) = layouts exprs := by
  cases exprs with
  | nil => rfl
  | cons expr rest => rw [allMoved, layouts, layouts, layout_moved expr, layouts_moved rest]

end

mutual

theorem depth_moved (expr : Expr) : (expr.moved move).depth = expr.depth := by
  cases expr with
  | constant span value => rfl
  | name span token => rfl
  | negation span operator operand => rw [moved, depth, depth, depth_moved operand]
  | comparison span left operator right =>
    rw [moved, depth, depth, depth_moved left, depth_moved right]
  | connective span left operator right =>
    rw [moved, depth, depth, depth_moved left, depth_moved right]
  | call span callee marker arguments =>
    rw [moved, depth, depth, depth_moved callee, depths_moved arguments]
  | unknown span kind view => rfl

theorem depths_moved (exprs : List Expr) : depths (allMoved move exprs) = depths exprs := by
  cases exprs with
  | nil => rfl
  | cons expr rest => rw [allMoved, depths, depths, depth_moved expr, depths_moved rest]

end

theorem unwrapped_moved (expr : Expr) :
    (expr.moved move).unwrapped = expr.unwrapped.map (moved move) := by
  cases expr with
  | call span callee marker arguments => cases arguments <;> rfl
  | _ => rfl

end Expr

namespace Stmt

variable {move : Span → Span}

theorem map_lexeme_moved (tokens : List Token) :
    (tokens.map (Token.moved move)).map (·.lexeme) = tokens.map (·.lexeme) := by
  rw [List.map_map]
  rfl

mutual

/-- The layout of a statement does not depend on its places. -/
theorem layout_moved (blocks : Int) (statement : Stmt) :
    (statement.moved move).layout blocks = statement.layout blocks := by
  cases statement with
  | expression span expr wrapped =>
    cases wrapped with
    | false => rw [moved, layout, layout, Expr.layout_moved]
    | true =>
      rw [moved, layout, layout, Expr.unwrapped_moved]
      cases expr.unwrapped with
      | error fault => rfl
      | ok inner =>
        change (do return indent blocks ++ (← (inner.moved move).layout)) = _
        rw [Expr.layout_moved]
        rfl
  | binding span name initial =>
    cases initial with
    | none => rfl
    | some initial =>
      rw [moved, Option.map_some, layout, layout, Expr.layout_moved, Token.lexeme_moved]
  | block span statements => rw [moved, layout, layout, rows_moved]
  | condition span test yes no =>
    cases no with
    | none => rw [moved, layout, layout, Expr.layout_moved, layout_moved blocks yes]
    | some no =>
      rw [moved, layout, layout, Expr.layout_moved, layout_moved blocks yes,
        layout_moved blocks no]
  | loop span test body => rw [moved, layout, layout, Expr.layout_moved, layout_moved blocks body]
  | giveBack span keyword value =>
    cases value with
    | none => rfl
    | some value => rw [moved, Option.map_some, layout, layout, Expr.layout_moved]
  | function span name params body =>
    rw [moved, layout, layout, rows_moved, Token.lexeme_moved, map_lexeme_moved]
  | directive span name value => rfl
  | remark span text => rfl
  | unknown span kind view => rfl

theorem rows_moved (blocks : Int) (statements : List Stmt) :
    rows blocks (allMoved move statements) = rows blocks statements := by
  cases statements with
  | nil => rfl
  | cons statement rest =>
    rw [allMoved, rows, rows, layout_moved blocks statement, rows_moved blocks rest]

end

mutual

/-- Nor does the depth to which it nests. -/
theorem depth_moved (statement : Stmt) : (statement.moved move).depth = statement.depth := by
  cases statement with
  | expression span expr wrapped => rw [moved, depth, depth, Expr.depth_moved]
  | binding span name initial =>
    cases initial with
    | none => rfl
    | some initial =>
      rw [moved, Option.map_some, depth, depth, Option.elim, Option.elim, Expr.depth_moved]
  | block span statements => rw [moved, depth, depth, depths_moved]
  | condition span test yes no =>
    cases no with
    | none => rw [moved, depth, depth, Expr.depth_moved, depth_moved yes]
    | some no => rw [moved, depth, depth, Expr.depth_moved, depth_moved yes, depth_moved no]
  | loop span test body => rw [moved, depth, depth, Expr.depth_moved, depth_moved body]
  | giveBack span keyword value =>
    cases value with
    | none => rfl
    | some value =>
      rw [moved, Option.map_some, depth, depth, Option.elim, Option.elim, Expr.depth_moved]
  | function span name params body => rw [moved, depth, depth, depths_moved]
  | directive span name value => rfl
  | remark span text => rfl
  | unknown span kind view => rfl

theorem depths_moved (statements : List Stmt) :
    depths (allMoved move statements) = depths statements := by
  cases statements with
  | nil => rfl
  | cons statement rest => rw [allMoved, depths, depths, depth_moved statement, depths_moved rest]

end

end Stmt

namespace Program

theorem erased_eq_allMoved (program : Program) :
    program.erased = Stmt.allMoved (fun _ => .nowhere) program :=
  (Stmt.allMoved_eq_map program).symm

/-- Programs that differ in their places only have one layout. -/
theorem layout_congr {left right : Program} (same : left.erased = right.erased) :
    left.layout = right.layout := by
  have rows : Stmt.rows 0 left = Stmt.rows 0 right := by
    rw [← Stmt.rows_moved 0 left, ← Stmt.rows_moved 0 right, ← erased_eq_allMoved,
      ← erased_eq_allMoved, same]
  cases left with
  | nil =>
    cases right with
    | nil => rfl
    | cons statement rest => cases same
  | cons statement rest =>
    cases right with
    | nil => cases same
    | cons statement' rest' => exact rows

/-- Programs that differ in their places only are equally deep. -/
theorem depths_congr {left right : Program} (same : left.erased = right.erased) :
    Stmt.depths left = Stmt.depths right := by
  rw [← Stmt.depths_moved left, ← Stmt.depths_moved right, ← erased_eq_allMoved,
    ← erased_eq_allMoved, same]

end Program

end Marginalia
