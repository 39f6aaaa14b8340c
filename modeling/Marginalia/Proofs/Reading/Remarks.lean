import Marginalia.Proofs.Layout.Signs
import Marginalia.Proofs.Reading.Derivation
import Marginalia.Proofs.Running.Alike

/-!
# Remarks and the reader

Programs without places and remarks (`Program.bare`) tell the reader nearly all there is to know.
Places do not change them (`Program.bare_erased`). Which `else` belongs to which condition can be
seen from them (`Program.nearestElse_of_bare`). They are as deep for the reader as the programs
they are made from, or by one level less, where a block that is deeper than all others has nothing
in it but remarks (`Program.nesting_le_of_bare`).
-/

namespace Marginalia

/-! ## Places -/

section Places

variable {move : Span → Span}

namespace Expr

mutual

theorem moved_moved (again : Span → Span) (expr : Expr) :
    (expr.moved move).moved again = expr.moved (again ∘ move) := by
  cases expr with
  | constant span value => rfl
  | name span token => rfl
  | negation span operator operand =>
    rw [moved, moved, moved, moved_moved again operand]
    rfl
  | comparison span left operator right =>
    rw [moved, moved, moved, moved_moved again left, moved_moved again right]
    rfl
  | connective span left operator right =>
    rw [moved, moved, moved, moved_moved again left, moved_moved again right]
    rfl
  | call span callee marker arguments =>
    rw [moved, moved, moved, moved_moved again callee, allMoved_allMoved again arguments]
    rfl
  | unknown span kind view => rfl

theorem allMoved_allMoved (again : Span → Span) (exprs : List Expr) :
    allMoved again (allMoved move exprs) = allMoved (again ∘ move) exprs := by
  cases exprs with
  | nil => rfl
  | cons expr rest =>
    rw [allMoved, allMoved, allMoved, moved_moved again expr, allMoved_allMoved again rest]

end

theorem erased_moved (expr : Expr) : (expr.moved move).erased = expr.erased :=
  expr.moved_moved fun _ => .nowhere

theorem leadingNots_moved (expr : Expr) : (expr.moved move).leadingNots = expr.leadingNots := by
  cases expr with
  | negation span operator operand =>
    rw [moved, leadingNots, leadingNots, leadingNots_moved operand]
  | _ => rfl

mutual

theorem nots_moved (expr : Expr) : (expr.moved move).nots = expr.nots := by
  cases expr with
  | constant span value => rfl
  | name span token => rfl
  | negation span operator operand =>
    rw [moved, nots, nots, leadingNots_moved operand, nots_moved operand]
  | comparison span left operator right =>
    rw [moved, nots, nots, nots_moved left, nots_moved right]
  | connective span left operator right =>
    rw [moved, nots, nots, nots_moved left, nots_moved right]
  | call span callee marker arguments =>
    rw [moved, nots, nots, nots_moved callee, allNots_moved arguments]
  | unknown span kind view => rfl

theorem allNots_moved (exprs : List Expr) : allNots (allMoved move exprs) = allNots exprs := by
  cases exprs with
  | nil => rfl
  | cons expr rest => rw [allMoved, allNots, allNots, nots_moved expr, allNots_moved rest]

end

end Expr

namespace Stmt

mutual

/-- What is left of a statement without places and remarks does not depend on its places. -/
theorem bare_moved (statement : Stmt) : (statement.moved move).bare = statement.bare := by
  cases statement with
  | expression span expr wrapped =>
    exact congrArg (expression _ · wrapped) expr.erased_moved
  | binding span name initial =>
    cases initial with
    | none => rfl
    | some initial =>
      exact congrArg (binding _ _ <| some ·) initial.erased_moved
  | block span statements => rw [moved, bare, bare, allBare_moved statements]
  | condition span test yes no =>
    cases no with
    | none => rw [moved, bare, bare, test.erased_moved, bare_moved yes]
    | some no => rw [moved, bare, bare, test.erased_moved, bare_moved yes, bare_moved no]
  | loop span test body => rw [moved, bare, bare, test.erased_moved, bare_moved body]
  | giveBack span keyword value =>
    cases value with
    | none => rfl
    | some value =>
      exact congrArg (giveBack _ _ <| some ·) value.erased_moved
  | function span name params body =>
    rw [moved, bare, bare, allBare_moved body, List.map_map]
    rfl
  | directive span name value => rfl
  | remark span text => rfl
  | unknown span kind view => rfl

theorem allBare_moved (statements : List Stmt) :
    allBare (allMoved move statements) = allBare statements := by
  cases statements with
  | nil => rfl
  | cons statement rest =>
    have here := bare_moved statement
    have behind := allBare_moved rest
    rw [allMoved]
    cases statement with
    | condition span test yes no => cases no <;> exact congrArg₂ List.cons here behind
    | remark span text => exact behind
    | _ => exact congrArg₂ List.cons here behind

end

end Stmt

/-- Programs that differ in their places only are the same without places and remarks. -/
theorem Program.bare_erased (program : Program) : program.erased.bare = program.bare := by
  rw [Program.bare, Program.erased_eq_allMoved, Stmt.allBare_moved]
  rfl

end Places

/-! ## Conditions -/

namespace Stmt

theorem dangles_bare (statement : Stmt) : statement.bare.dangles = statement.dangles := by
  cases statement with
  | condition span test yes no =>
    cases no with
    | none => rfl
    | some no => exact no.dangles_bare
  | loop span test body => exact body.dangles_bare
  | _ => rfl

mutual

theorem nearestElse_bare (statement : Stmt) :
    statement.bare.NearestElse ↔ statement.NearestElse := by
  cases statement with
  | block span statements => exact allNearestElse_allBare statements
  | condition span test yes no =>
    cases no with
    | none => exact nearestElse_bare yes
    | some no =>
      rw [bare, NearestElse, NearestElse, dangles_bare, nearestElse_bare yes, nearestElse_bare no]
  | loop span test body => exact nearestElse_bare body
  | function span name params body => exact allNearestElse_allBare body
  | _ => exact Iff.rfl

theorem allNearestElse_allBare (statements : List Stmt) :
    AllNearestElse (allBare statements) ↔ AllNearestElse statements := by
  cases statements with
  | nil => exact Iff.rfl
  | cons statement rest =>
    have here := nearestElse_bare statement
    have behind := allNearestElse_allBare rest
    rw [AllNearestElse, ← here, ← behind]
    rcases statement.remark_or_bare with ⟨span, text, rfl⟩ | kept
    · exact (and_iff_right trivial).symm
    · rw [kept, AllNearestElse]

end

/-! ## Depth -/

theorem lineCost_bare (statement : Stmt) : statement.bare.lineCost = statement.lineCost := by
  cases statement with
  | condition span test yes no => cases no <;> rfl
  | _ => rfl

mutual

/-- Dropping remarks makes a statement nest at most one level less: only a remark of its own line
can have been the deepest. -/
theorem nesting_bare (statement : Stmt) :
    statement.bare.nesting ≤ statement.nesting ∧
      statement.nesting ≤ statement.bare.nesting + 1 := by
  cases statement with
  | block span statements =>
    have inside := linesNesting_allBare statements
    rw [bare, nesting, nesting]
    omega
  | condition span test yes no =>
    have first := nesting_bare yes
    cases no with
    | none =>
      rw [bare, nesting, nesting, Expr.erased, Expr.nots_moved]
      omega
    | some no =>
      have second := nesting_bare no
      rw [bare, nesting, nesting, Expr.erased, Expr.nots_moved]
      omega
  | loop span test body =>
    have inside := nesting_bare body
    rw [bare, nesting, nesting, Expr.erased, Expr.nots_moved]
    omega
  | function span name params body =>
    have inside := linesNesting_allBare body
    rw [bare, nesting, nesting]
    omega
  | expression span expr wrapped =>
    have same : (Stmt.expression span expr wrapped).bare.nesting = expr.nots + 1 :=
      congrArg (· + 1) expr.nots_moved
    rw [same, nesting]
    omega
  | binding span name initial | giveBack span name initial =>
    cases initial with
    | none => exact ⟨Nat.le_refl _, Nat.le_succ _⟩
    | some value =>
      have same : (value.moved fun _ => .nowhere).nots + 1 = value.nots + 1 :=
        congrArg (· + 1) value.nots_moved
      exact ⟨Nat.le_of_eq same, Nat.le_succ_of_le (Nat.le_of_eq same.symm)⟩
  | directive _ _ _ | remark _ _ | unknown _ _ _ => exact ⟨Nat.le_refl _, Nat.le_succ _⟩

theorem linesNesting_allBare (statements : List Stmt) :
    linesNesting (allBare statements) ≤ linesNesting statements ∧
      linesNesting statements ≤ linesNesting (allBare statements) + 1 := by
  cases statements with
  | nil => exact ⟨Nat.le_refl _, Nat.le_succ _⟩
  | cons statement rest =>
    have behind := linesNesting_allBare rest
    have here := nesting_bare statement
    have cost := lineCost_bare statement
    rcases statement.remark_or_bare with ⟨span, text, rfl⟩ | kept
    · rw [allBare, linesNesting, nesting, lineCost]
      omega
    · rw [kept, linesNesting, linesNesting, cost]
      omega

end

end Stmt

namespace Program

variable {program other : Program}

theorem nearestElse_of_bare (same : program.bare = other.bare) (nearest : other.NearestElse) :
    program.NearestElse := by
  refine (Stmt.allNearestElse_allBare program).mp ?_
  have bare := (Stmt.allNearestElse_allBare other).mpr nearest
  rw [Program.bare, Program.bare] at same
  rwa [same]

theorem nesting_le_of_bare (same : program.bare = other.bare) :
    program.nesting ≤ other.nesting + 1 := by
  have upper := (Stmt.linesNesting_allBare program).2
  have lower := (Stmt.linesNesting_allBare other).1
  rw [Program.bare, Program.bare] at same
  rw [same] at upper
  exact Nat.le_trans upper (Nat.succ_le_succ lower)

end Program

end Marginalia
