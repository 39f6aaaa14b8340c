import Marginalia.Proofs.Reading.Callees

/-!
# The marks that a run points at

A run that stops at a mistake points at the mark that closes a call, or at the mark of a return.
`Stmt.Marked` says what holds of these marks in a program.

Marks are tokens of the program, but for one: where the reader puts the printer around an
expression, the mark stands where the expression does. Either way its span runs from the beginning
of one token to the end of the same or a later one (`Reads.marked`).
-/

namespace Marginalia

/-! ## Marks -/

namespace Expr

mutual

/-- The property holds of every mark that closes a call in the expression. -/
def Marked (property : Token → Prop) : Expr → Prop
  | .constant _ _ | .name _ _ | .unknown _ _ _ => True
  | .negation _ _ operand => operand.Marked property
  | .comparison _ left _ right | .connective _ left _ right =>
    left.Marked property ∧ right.Marked property
  | .call _ callee marker arguments =>
    property marker ∧ callee.Marked property ∧ AllMarked property arguments

/-- The property holds of every mark that closes a call in one of the expressions. -/
def AllMarked (property : Token → Prop) : List Expr → Prop
  | [] => True
  | expr :: rest => expr.Marked property ∧ AllMarked property rest

end

theorem allMarked_iff {property : Token → Prop} {exprs : List Expr} :
    AllMarked property exprs ↔ ∀ expr ∈ exprs, expr.Marked property := by
  induction exprs with
  | nil => simp [AllMarked]
  | cons expr rest ih => rw [AllMarked, ih, List.forall_mem_cons]

end Expr

namespace Stmt

mutual

/-- The property holds of every mark that closes a call in the statement, and of every mark of a
return. -/
def Marked (property : Token → Prop) : Stmt → Prop
  | .expression _ expr _ => expr.Marked property
  | .binding _ _ initial => ∀ value ∈ initial, value.Marked property
  | .giveBack _ keyword value => property keyword ∧ ∀ given ∈ value, given.Marked property
  | .block _ statements | .function _ _ _ statements => AllMarked property statements
  | .condition _ test yes none => test.Marked property ∧ yes.Marked property
  | .condition _ test yes (some no) =>
    test.Marked property ∧ yes.Marked property ∧ no.Marked property
  | .loop _ test body => test.Marked property ∧ body.Marked property
  | .directive _ _ _ | .remark _ _ | .unknown _ _ _ => True

/-- The property holds of the marks of all the statements. -/
def AllMarked (property : Token → Prop) : List Stmt → Prop
  | [] => True
  | statement :: rest => statement.Marked property ∧ AllMarked property rest

end

theorem allMarked_iff {property : Token → Prop} {statements : List Stmt} :
    AllMarked property statements ↔ ∀ statement ∈ statements, statement.Marked property := by
  induction statements with
  | nil => simp [AllMarked]
  | cons statement rest ih => rw [AllMarked, ih, List.forall_mem_cons]

end Stmt

/-! ## Spans along tokens -/

/-- The span runs from the beginning of one of the tokens to the end of the same or a later one. -/
def RunsAlong (tokens : List Token) (span : Span) : Prop :=
  ∃ first later last, first :: later <:+ tokens ∧ last ∈ first :: later ∧
    span.start = first.span.start ∧ span.stop = last.span.stop

theorem RunsAlong.of_mem {tokens : List Token} {token : Token} (mem : token ∈ tokens) :
    RunsAlong tokens token.span := by
  obtain ⟨front, later, rfl⟩ := List.append_of_mem mem
  exact ⟨token, later, token, List.suffix_append _ _, List.mem_cons_self, rfl, rfl⟩

theorem RunsAlong.append {tokens : List Token} {span : Span} (along : RunsAlong tokens span)
    (more : List Token) : RunsAlong (tokens ++ more) span := by
  obtain ⟨first, later, last, ⟨front, rfl⟩, mem, start, stop⟩ := along
  refine ⟨first, later ++ more, last, ⟨front, ?_⟩, ?_, start, stop⟩
  · rw [List.append_assoc, List.cons_append]
  · rw [← List.cons_append]
    exact List.mem_append_left more mem

namespace Grammar

/-- The expression stops where the last token that it takes does. -/
def EndsLast (form : Phrase Expr) : Prop :=
  ∀ ⦃before : List Token⦄ ⦃expr : Expr⦄ ⦃after : List Token⦄, form before expr after →
    ∃ last, last :: after <:+ before ∧ expr.span.stop = last.span.stop

theorem endsLast_primary : EndsLast Primary := by
  intro before expr after read
  cases read <;> exact ⟨_, List.suffix_rfl, rfl⟩

theorem endsLast_negated {operand : Phrase Expr} (ends : EndsLast operand) (depth : Nat) :
    EndsLast (Negated operand depth) := by
  intro before expr after read
  induction read with
  | operand read => exact ends read
  | negation _ _ ih =>
    obtain ⟨last, behind, stop⟩ := ih
    exact ⟨last, behind.trans (List.suffix_cons _ _), stop⟩

theorem endsLast_leftGrouped {node : Span → Expr → Token → Expr → Expr} {kinds : List TokenKind}
    {operand : Phrase Expr} (ends : EndsLast operand) (shorter : Shortens operand)
    (spans : ∀ span left operator right, (node span left operator right).span = span) :
    EndsLast (LeftGrouped node kinds operand) := by
  intro before expr after read
  cases read with
  | single read => exact ends read
  | more left _ right =>
    obtain ⟨last, behind, stop⟩ := ends right
    have middle := (shortens_leftGrouped shorter left).suffix
    refine ⟨last, behind.trans ((List.suffix_cons _ _).trans middle), ?_⟩
    rw [spans]
    exact stop

theorem endsLast_expressionOver {operand : Phrase Expr} (ends : EndsLast operand)
    (shorter : Shortens operand) (depth : Nat) : EndsLast (ExpressionOver operand depth) := by
  have negated := shortens_negated shorter depth
  apply endsLast_leftGrouped _ (shortens_leftGrouped (shortens_leftGrouped negated))
    fun _ _ _ _ => rfl
  apply endsLast_leftGrouped _ (shortens_leftGrouped negated) fun _ _ _ _ => rfl
  apply endsLast_leftGrouped _ negated fun _ _ _ _ => rfl
  exact endsLast_negated ends depth

theorem endsLast_called (depth : Nat) : EndsLast (Called depth) := by
  intro before expr after read
  cases read with
  | primary read => exact endsLast_primary read
  | call called _ arguments _ =>
    have opened := (List.suffix_cons _ _).trans (shortens_called depth called).suffix
    exact ⟨_, (suffix_of_listed (shortens_plain depth) arguments).trans opened, rfl⟩

theorem endsLast_expression (depth : Nat) : EndsLast (Expression depth) :=
  endsLast_expressionOver (endsLast_called depth) (shortens_called depth) depth

/-- An expression runs from the first token that it takes to the last one. -/
theorem runsAlong_expression {depth : Nat} {tokens before after : List Token} {expr : Expr}
    (read : Expression depth before expr after) (inside : before <:+ tokens) :
    RunsAlong tokens expr.span := by
  obtain ⟨last, behind, stop⟩ := endsLast_expression depth read
  have mem : last ∈ before := behind.subset List.mem_cons_self
  cases before with
  | nil => exact absurd mem List.not_mem_nil
  | cons first later =>
    have derived := ((Derivation.restricts_expression depth).mp read).1
    have start := beginsFirst_expressionOver beginsFirst_called derived
    exact ⟨first, later, last, inside, mem, start, stop⟩

/-! ## Every mark runs along the tokens -/

/-- The token runs along some tokens. -/
def Along (tokens : List Token) (token : Token) : Prop :=
  RunsAlong tokens token.span

/-- What is read from the tokens, or from some way on in them, has the property. -/
def Within {α : Type} (tokens : List Token) (property : α → Prop) (form : Phrase α) : Prop :=
  ∀ ⦃before : List Token⦄ ⦃a : α⦄ ⦃after : List Token⦄, form before a after →
    before <:+ tokens → property a

section Expressions

variable {tokens : List Token} {depth : Nat}

theorem marked_primary : Within tokens (Expr.Marked (Along tokens)) Primary := by
  intro before expr after read _
  cases read <;> trivial

theorem marked_negated {operand : Phrase Expr}
    (marked : Within tokens (Expr.Marked (Along tokens)) operand) :
    Within tokens (Expr.Marked (Along tokens)) (Negated operand depth) := by
  intro before expr after read inside
  induction read with
  | operand read => exact marked read inside
  | negation _ _ ih =>
    rw [Expr.Marked]
    exact ih ((List.suffix_cons _ _).trans inside)

theorem marked_leftGrouped {node : Span → Expr → Token → Expr → Expr} {kinds : List TokenKind}
    {operand : Phrase Expr} (marked : Within tokens (Expr.Marked (Along tokens)) operand)
    (shorter : Shortens operand)
    (joined : ∀ span left operator right, left.Marked (Along tokens) → right.Marked (Along tokens) →
      (node span left operator right).Marked (Along tokens)) :
    Within tokens (Expr.Marked (Along tokens)) (LeftGrouped node kinds operand) := by
  intro before expr after read inside
  induction read with
  | single read => exact marked read inside
  | more left _ right ih =>
    have behind := (shortens_leftGrouped shorter left).suffix.trans inside
    exact joined _ _ _ _ (ih inside) (marked right ((List.suffix_cons _ _).trans behind))

theorem marked_expressionOver {operand : Phrase Expr}
    (marked : Within tokens (Expr.Marked (Along tokens)) operand) (shorter : Shortens operand) :
    Within tokens (Expr.Marked (Along tokens)) (ExpressionOver operand depth) := by
  have negated := shortens_negated shorter depth
  have connected : ∀ span left operator right, left.Marked (Along tokens) →
      right.Marked (Along tokens) →
      (Expr.connective span left operator right).Marked (Along tokens) :=
    fun _ _ _ _ left right => ⟨left, right⟩
  apply marked_leftGrouped _ (shortens_leftGrouped (shortens_leftGrouped negated)) connected
  apply marked_leftGrouped _ (shortens_leftGrouped negated) connected
  have compared : ∀ span left operator right, left.Marked (Along tokens) →
      right.Marked (Along tokens) →
      (Expr.comparison span left operator right).Marked (Along tokens) :=
    fun _ _ _ _ left right => ⟨left, right⟩
  apply marked_leftGrouped _ negated compared
  exact marked_negated marked

theorem marked_plain : Within tokens (Expr.Marked (Along tokens)) (Plain depth) :=
  marked_expressionOver marked_primary shortens_primary

theorem marked_separated {item : Phrase Expr}
    (marked : Within tokens (Expr.Marked (Along tokens)) item) (shorter : Shortens item) :
    Within tokens (∀ expr ∈ ·, Expr.Marked (Along tokens) expr) (Separated item) := by
  intro before exprs after read inside
  induction read with
  | single read => exact List.forall_mem_singleton.mpr (marked read inside)
  | more earlier _ _ last ih =>
    have behind := (shortens_separated shorter earlier).suffix.trans inside
    have found := marked last ((List.suffix_cons _ _).trans behind)
    exact List.forall_mem_append.mpr ⟨ih inside, List.forall_mem_singleton.mpr found⟩

theorem marked_called : Within tokens (Expr.Marked (Along tokens)) (Called depth) := by
  intro before expr after read inside
  induction read with
  | primary read => exact marked_primary read inside
  | call called _ arguments _ ih =>
    have opened := (List.suffix_cons _ _).trans ((shortens_called depth called).suffix.trans inside)
    have closed := (suffix_of_listed (shortens_plain depth) arguments).trans opened
    refine ⟨.of_mem (closed.subset List.mem_cons_self), ih inside, Expr.allMarked_iff.mpr ?_⟩
    cases arguments with
    | none => exact List.forall_mem_nil _
    | some arguments => exact marked_separated marked_plain (shortens_plain depth) arguments opened

theorem marked_expression : Within tokens (Expr.Marked (Along tokens)) (Expression depth) :=
  marked_expressionOver marked_called (shortens_called depth)

theorem marked_condition : Within tokens (Expr.Marked (Along tokens)) (Condition depth) := by
  intro before test after read inside
  cases read with
  | intro _ test _ => exact marked_plain test ((List.suffix_cons _ _).trans inside)

end Expressions

section Statements

variable {tokens : List Token} {depth : Nat}

/-- The printer around an expression is marked where the expression stands. -/
theorem marked_printed {before after : List Token} {expr : Expr}
    (read : Expression depth before expr after) (inside : before <:+ tokens) :
    (printed expr).Marked (Along tokens) := by
  have marked := marked_expression read inside
  unfold printed
  split
  · exact marked
  · exact ⟨runsAlong_expression read inside, trivial, marked, trivial⟩

theorem marked_lines {item : Phrase Stmt}
    (marked : Within tokens (Stmt.Marked (Along tokens)) item) (shorter : Shortens item) :
    Within tokens (Stmt.AllMarked (Along tokens)) (Lines item) := by
  intro before statements after read inside
  induction read with
  | nil => trivial
  | lineEnd _ _ ih => exact ih ((List.suffix_cons _ _).trans inside)
  | cons first _ ih => exact ⟨marked first inside, ih ((shorter first).suffix.trans inside)⟩

/-- What is read in a layer is marked along the tokens. -/
structure MarkedLayer (tokens : List Token) (depth : Nat) : Prop where
  statement : Within tokens (Stmt.Marked (Along tokens)) (Statement depth)
  declaration (nested : Bool) :
    Within tokens (Stmt.Marked (Along tokens)) (Declaration nested depth)
  body : Within tokens (fun inside => Stmt.AllMarked (Along tokens) inside.1) (Body depth)

namespace MarkedLayer

/-- The marks of a statement run along the tokens, if those of its branches and of its body do. -/
theorem statement_succ (layer : MarkedLayer tokens depth) :
    Within tokens (Stmt.Marked (Along tokens)) (Statement (depth + 1)) := by
  have inner := layer.statement
  have shorter := (shortens_layer depth).1
  intro before statement after read inside
  have later {token : Token} {rest : List Token} (begins : token :: rest <:+ tokens) :
      rest <:+ tokens := (List.suffix_cons _ _).trans begins
  cases read with
  | condition _ test yes =>
    have behind := (shortens_condition depth test).suffix.trans (later inside)
    rw [Stmt.Marked]
    exact ⟨marked_condition test (later inside), inner yes behind⟩
  | alternative _ test yes _ _ _ no =>
    have behind := (shortens_condition depth test).suffix.trans (later inside)
    have others := (List.suffix_append _ _).trans ((shorter yes).suffix.trans behind)
    rw [Stmt.Marked]
    exact ⟨marked_condition test (later inside), inner yes behind, inner no (later others)⟩
  | giveNothing _ _ =>
    refine ⟨.of_mem (inside.subset List.mem_cons_self), fun given same => ?_⟩
    cases same
  | giveBack _ value =>
    refine ⟨.of_mem (inside.subset List.mem_cons_self), fun given same => ?_⟩
    cases same
    exact marked_expression value (later inside)
  | loop _ test body =>
    have behind := (shortens_condition depth test).suffix.trans (later inside)
    rw [Stmt.Marked]
    exact ⟨marked_condition test (later inside), inner body behind⟩
  | block _ body =>
    rw [Stmt.Marked]
    exact layer.body body (later inside)
  | expression expr => exact marked_printed expr inside

theorem declaration_succ (layer : MarkedLayer tokens depth) (nested : Bool) :
    Within tokens (Stmt.Marked (Along tokens)) (Declaration nested (depth + 1)) := by
  intro before statement after read inside
  cases read with
  | remark _ _ | directive _ _ _ _ | directiveBe _ _ _ _ _ => trivial
  | binding _ _ =>
    intro given same
    cases same
  | function _ _ _ params _ _ body =>
    have listed := (suffix_of_listed shortens_name params).trans <| (List.suffix_cons _ _).trans <|
      (List.suffix_cons _ _).trans <| (List.suffix_cons _ _).trans inside
    rw [Stmt.Marked]
    exact layer.body body
      ((List.suffix_cons _ _).trans ((List.suffix_cons _ _).trans listed))
  | bindingBe _ _ _ value =>
    intro given same
    cases same
    exact marked_expression value <| (List.suffix_cons _ _).trans <| (List.suffix_cons _ _).trans <|
      (List.suffix_cons _ _).trans inside
  | statement read => exact layer.statement read inside

end MarkedLayer

theorem markedLayer (tokens : List Token) (depth : Nat) : MarkedLayer tokens depth := by
  induction depth with
  | zero =>
    exact ⟨fun _ _ _ => False.elim, fun _ _ _ _ => False.elim, fun _ _ _ => False.elim⟩
  | succ depth layer =>
    refine ⟨layer.statement_succ, layer.declaration_succ, ?_⟩
    rintro before body after ⟨lines, _⟩ inside
    exact marked_lines (layer.declaration true) ((shortens_layer depth).2.1 true) lines inside

/-- The marks of a program run along its tokens. -/
theorem Reads.marked {program : Program} (read : Reads depth tokens program) :
    Stmt.AllMarked (Along tokens) program :=
  marked_lines ((markedLayer tokens depth).declaration false)
    ((shortens_layer depth).2.1 false) read List.suffix_rfl

end Statements

end Grammar

end Marginalia
