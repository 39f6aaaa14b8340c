import Marginalia.Proofs.Reading.Derivation

/-!
# The callees of a program

What the printer is given lands on the line where the expression that named it begins.
So the places that a program can print to are known from the callees of its calls. The
callee of a call that was read begins with the first of its tokens; the callee of a
call that the reader put around an expression begins with the first token of that
expression. `exists_calleeAt` says this of every callee of a program, in nested blocks
and in the bodies of functions as well.
-/

namespace Marginalia

/-! ## Callees -/

namespace Expr

mutual

/-- The callees of the calls in the expression. -/
def callees : Expr → List Expr
  | .constant _ _ | .name _ _ | .unknown _ _ _ => []
  | .negation _ _ operand => operand.callees
  | .comparison _ left _ right | .connective _ left _ right => left.callees ++ right.callees
  | .call _ callee _ arguments => callee :: (callee.callees ++ allCallees arguments)

/-- The callees of the calls in some expressions. -/
def allCallees : List Expr → List Expr
  | [] => []
  | expr :: rest => expr.callees ++ allCallees rest

end

theorem allCallees_append (exprs others : List Expr) :
    allCallees (exprs ++ others) = allCallees exprs ++ allCallees others := by
  induction exprs with
  | nil => rfl
  | cons expr rest ih => rw [List.cons_append, allCallees, allCallees, ih, List.append_assoc]

theorem callees_subset_of_mem {expr : Expr} {exprs : List Expr} (mem : expr ∈ exprs) :
    expr.callees ⊆ allCallees exprs := by
  induction mem with
  | head rest => exact List.subset_append_left _ _
  | tail other _ ih => exact List.subset_append_of_subset_right _ ih

end Expr

namespace Stmt

mutual

/-- The callees of the calls in the statement. -/
def callees : Stmt → List Expr
  | .expression _ expr _ => expr.callees
  | .binding _ _ initial | .giveBack _ _ initial => initial.elim [] Expr.callees
  | .block _ statements | .function _ _ _ statements => allCallees statements
  | .condition _ test yes none => test.callees ++ yes.callees
  | .condition _ test yes (some no) => test.callees ++ (yes.callees ++ no.callees)
  | .loop _ test body => test.callees ++ body.callees
  | .directive _ _ _ | .remark _ _ | .unknown _ _ _ => []

/-- The callees of the calls in some statements. -/
def allCallees : List Stmt → List Expr
  | [] => []
  | statement :: rest => statement.callees ++ allCallees rest

end

theorem callees_subset_of_mem {statement : Stmt} {statements : List Stmt}
    (mem : statement ∈ statements) : statement.callees ⊆ allCallees statements := by
  induction mem with
  | head rest => exact List.subset_append_left _ _
  | tail other _ ih => exact List.subset_append_of_subset_right _ ih

end Stmt

/-- The callees of the calls in the program. -/
def Program.callees (program : Program) : List Expr :=
  Stmt.allCallees program

/-- The callee begins with a token of some tokens: it is spelled by tokens that begin with it, or
it is the printer that stands around an expression that is spelled so. -/
inductive CalleeAt (tokens : List Token) : Expr → Token → Prop
  | spelled {later after : List Token} {first : Token} {callee : Expr} :
    first :: later <:+ tokens → Derivation.Called (first :: later) callee after →
    CalleeAt tokens callee first
  | around {later after : List Token} {first : Token} {expr : Expr} :
    first :: later <:+ tokens → Derivation.Expression (first :: later) expr after →
    CalleeAt tokens (.name expr.span ⟨.name, "print", none, expr.span⟩) first

namespace Grammar

/-! ## Where an expression begins -/

/-- The expression begins where its first token does. -/
def BeginsFirst (form : Phrase Expr) : Prop :=
  ∀ ⦃first : Token⦄ ⦃later : List Token⦄ ⦃expr : Expr⦄ ⦃after : List Token⦄,
    form (first :: later) expr after → expr.span.start = first.span.start

theorem beginsFirst_primary : BeginsFirst Primary := by
  intro first later expr after read
  cases read <;> rfl

theorem beginsFirst_negated {operand : Phrase Expr} (begins : BeginsFirst operand) :
    BeginsFirst (Derivation.Negated operand) := by
  intro first later expr after read
  cases read with
  | operand read => exact begins read
  | negation _ _ => rfl

theorem beginsFirst_leftGrouped {node : Span → Expr → Token → Expr → Expr}
    {kinds : List TokenKind} {operand : Phrase Expr} (begins : BeginsFirst operand)
    (spans : ∀ span left operator right, (node span left operator right).span = span) :
    BeginsFirst (LeftGrouped node kinds operand) := by
  intro first later expr after read
  generalize whole : first :: later = before at read
  induction read with
  | single read =>
    subst whole
    exact begins read
  | more _ _ _ ih =>
    rw [spans]
    exact ih whole

theorem beginsFirst_expressionOver {operand : Phrase Expr} (begins : BeginsFirst operand) :
    BeginsFirst (Derivation.ExpressionOver operand) := by
  refine beginsFirst_leftGrouped ?_ fun _ _ _ _ => rfl
  refine beginsFirst_leftGrouped ?_ fun _ _ _ _ => rfl
  refine beginsFirst_leftGrouped ?_ fun _ _ _ _ => rfl
  exact beginsFirst_negated begins

theorem beginsFirst_called : BeginsFirst Derivation.Called := by
  intro first later expr after read
  generalize whole : first :: later = before at read
  induction read with
  | primary read =>
    subst whole
    exact beginsFirst_primary read
  | call _ _ _ _ ih => exact ih whole

end Grammar

namespace CalleeAt

variable {tokens more : List Token} {callee : Expr} {first : Token}

theorem start (begins : CalleeAt tokens callee first) :
    callee.span.start = first.span.start := by
  cases begins with
  | spelled _ read => exact Grammar.beginsFirst_called read
  | around _ read =>
    have same := Grammar.beginsFirst_expressionOver Grammar.beginsFirst_called read
    exact same

theorem mem (begins : CalleeAt tokens callee first) : first ∈ tokens := by
  cases begins with
  | spelled suffix _ | around suffix _ => exact suffix.subset List.mem_cons_self

theorem of_suffix (begins : CalleeAt tokens callee first) (suffix : tokens <:+ more) :
    CalleeAt more callee first := by
  cases begins with
  | spelled inside read => exact .spelled (inside.trans suffix) read
  | around inside read => exact .around (inside.trans suffix) read

end CalleeAt

namespace Grammar

/-! ## Every callee begins with a token -/

/-- Every callee of what is read begins with one of the tokens. -/
def Traced {α : Type} (callees : α → List Expr) (form : Phrase α) : Prop :=
  ∀ ⦃before : List Token⦄ ⦃a : α⦄ ⦃after : List Token⦄, form before a after →
    ∀ callee ∈ callees a, ∃ first, CalleeAt before callee first

section Expressions

variable {depth : Nat} {before middle after : List Token}

theorem exists_calleeAt_of_suffix {callee : Expr} (suffix : middle <:+ before)
    (found : ∃ first, CalleeAt middle callee first) : ∃ first, CalleeAt before callee first := by
  obtain ⟨first, begins⟩ := found
  exact ⟨first, begins.of_suffix suffix⟩

theorem traced_primary : Traced Expr.callees Primary := by
  intro before expr after read
  cases read <;> nofun

theorem traced_negated {operand : Phrase Expr} (traced : Traced Expr.callees operand) :
    Traced Expr.callees (Negated operand depth) := by
  intro before expr after read
  induction read with
  | operand read => exact traced read
  | negation _ _ ih =>
    intro callee mem
    rw [Expr.callees] at mem
    exact exists_calleeAt_of_suffix (List.suffix_cons _ _) (ih callee mem)

theorem traced_leftGrouped {node : Span → Expr → Token → Expr → Expr} {kinds : List TokenKind}
    {operand : Phrase Expr} (traced : Traced Expr.callees operand) (shorter : Shortens operand)
    (joined : ∀ span left operator right,
      (node span left operator right).callees = left.callees ++ right.callees) :
    Traced Expr.callees (LeftGrouped node kinds operand) := by
  intro before expr after read
  induction read with
  | single read => exact traced read
  | more left _ right ih =>
    intro callee mem
    rw [joined] at mem
    have behind := (shortens_leftGrouped shorter left).suffix
    rcases List.mem_append.mp mem with mem | mem
    · exact ih callee mem
    · exact exists_calleeAt_of_suffix ((List.suffix_cons _ _).trans behind)
        (traced right callee mem)

theorem traced_expressionOver {operand : Phrase Expr} (traced : Traced Expr.callees operand)
    (shorter : Shortens operand) : Traced Expr.callees (ExpressionOver operand depth) := by
  have negated := shortens_negated shorter depth
  refine traced_leftGrouped ?_ (shortens_leftGrouped (shortens_leftGrouped negated))
    fun _ _ _ _ => by rw [Expr.callees]
  refine traced_leftGrouped ?_ (shortens_leftGrouped negated) fun _ _ _ _ => by rw [Expr.callees]
  refine traced_leftGrouped ?_ negated fun _ _ _ _ => by rw [Expr.callees]
  exact traced_negated traced

theorem traced_plain : Traced Expr.callees (Plain depth) :=
  traced_expressionOver traced_primary shortens_primary

theorem traced_listed {item : Phrase Expr} (traced : Traced Expr.callees item)
    (shorter : Shortens item) : Traced Expr.allCallees (Listed item) := by
  intro before exprs after read
  cases read with
  | none => nofun
  | some read =>
    induction read with
    | single read =>
      intro callee mem
      rw [Expr.allCallees, Expr.allCallees, List.append_nil] at mem
      exact traced read callee mem
    | more earlier _ _ last ih =>
      intro callee mem
      rw [Expr.allCallees_append, Expr.allCallees, Expr.allCallees, List.append_nil] at mem
      have behind := (shortens_separated shorter earlier).suffix
      rcases List.mem_append.mp mem with mem | mem
      · exact ih callee mem
      · exact exists_calleeAt_of_suffix ((List.suffix_cons _ _).trans behind)
          (traced last callee mem)

theorem exists_cons_of_called {callee : Expr} (read : Called depth before callee after) :
    ∃ first, CalleeAt before callee first := by
  cases before with
  | nil => exact absurd (shortens_called depth read).shorter (Nat.not_lt_zero _)
  | cons first later =>
    exact ⟨first, .spelled List.suffix_rfl ((Derivation.restricts_called depth).mp read).1⟩

theorem traced_called : Traced Expr.callees (Called depth) := by
  intro before expr after read
  induction read with
  | primary read => exact traced_primary read
  | call called _ arguments _ ih =>
    intro callee mem
    rw [Expr.callees] at mem
    have behind := (shortens_called depth called).suffix
    rcases List.mem_cons.mp mem with rfl | mem
    · exact exists_cons_of_called called
    rcases List.mem_append.mp mem with mem | mem
    · exact ih callee mem
    · exact exists_calleeAt_of_suffix ((List.suffix_cons _ _).trans behind)
        (traced_listed traced_plain (shortens_plain depth) arguments callee mem)

theorem traced_expression : Traced Expr.callees (Expression depth) :=
  traced_expressionOver traced_called (shortens_called depth)

theorem traced_condition : Traced Expr.callees (Condition depth) := by
  intro before test after read
  cases read with
  | intro _ test _ =>
    intro callee mem
    exact exists_calleeAt_of_suffix (List.suffix_cons _ _) (traced_plain test callee mem)

/-- The printer around an expression begins with the first token of the expression. -/
theorem traced_printed {expr : Expr} (read : Expression depth before expr after) :
    ∀ callee ∈ (printed expr).callees, ∃ first, CalleeAt before callee first := by
  intro callee mem
  by_cases calls : Derivation.CallsPrinter expr
  · rw [Derivation.printed_of_callsPrinter calls, Stmt.callees] at mem
    exact traced_expression read callee mem
  · rw [Derivation.printed_of_not_callsPrinter calls, Stmt.callees, Derivation.printing,
      Expr.callees, Expr.callees, Expr.allCallees, Expr.allCallees, List.append_nil,
      List.nil_append] at mem
    rcases List.mem_cons.mp mem with rfl | mem
    · cases before with
      | nil => exact absurd (shortens_expression depth read).shorter (Nat.not_lt_zero _)
      | cons first later =>
        exact ⟨first, .around List.suffix_rfl ((Derivation.restricts_expression depth).mp read).1⟩
    · exact traced_expression read callee mem

end Expressions

section Statements

variable {depth : Nat} {before after : List Token}

theorem traced_lines {item : Phrase Stmt} (traced : Traced Stmt.callees item)
    (shorter : Shortens item) : Traced Stmt.allCallees (Lines item) := by
  intro before statements after read
  induction read with
  | nil => nofun
  | lineEnd _ _ ih =>
    intro callee mem
    exact exists_calleeAt_of_suffix (List.suffix_cons _ _) (ih callee mem)
  | cons first _ ih =>
    intro callee mem
    rw [Stmt.allCallees] at mem
    rcases List.mem_append.mp mem with mem | mem
    · exact traced first callee mem
    · exact exists_calleeAt_of_suffix (shorter first).suffix (ih callee mem)

/-- The callees of a statement begin with tokens that it was read from, if those of its branches and
of its body do. A printer that the reader puts around an expression begins where that does. -/
theorem traced_statement_succ (inner : Traced Stmt.callees (Statement depth))
    (body : Traced (fun inside => Stmt.allCallees inside.1) (Body depth)) :
    Traced Stmt.callees (Statement (depth + 1)) := by
  have shorter := (shortens_layer depth).1
  intro before statement after read callee mem
  cases read with
  | condition _ test yes =>
    rw [Stmt.callees] at mem
    refine exists_calleeAt_of_suffix (List.suffix_cons _ _) ?_
    rcases List.mem_append.mp mem with mem | mem
    · exact traced_condition test callee mem
    · exact exists_calleeAt_of_suffix (shortens_condition depth test).suffix
        (inner yes callee mem)
  | alternative _ test yes _ _ _ no =>
    rw [Stmt.callees] at mem
    have behindTest := (shortens_condition depth test).suffix
    have behindYes := (List.suffix_append _ _).trans (shorter yes).suffix
    refine exists_calleeAt_of_suffix (List.suffix_cons _ _) ?_
    rcases List.mem_append.mp mem with mem | mem
    · exact traced_condition test callee mem
    refine exists_calleeAt_of_suffix behindTest ?_
    rcases List.mem_append.mp mem with mem | mem
    · exact inner yes callee mem
    · exact exists_calleeAt_of_suffix ((List.suffix_cons _ _).trans behindYes)
        (inner no callee mem)
  | giveNothing _ _ => cases mem
  | giveBack _ value =>
    exact exists_calleeAt_of_suffix (List.suffix_cons _ _) (traced_expression value callee mem)
  | loop _ test inside =>
    rw [Stmt.callees] at mem
    refine exists_calleeAt_of_suffix (List.suffix_cons _ _) ?_
    rcases List.mem_append.mp mem with mem | mem
    · exact traced_condition test callee mem
    · exact exists_calleeAt_of_suffix (shortens_condition depth test).suffix
        (inner inside callee mem)
  | block _ inside =>
    rw [Stmt.callees] at mem
    exact exists_calleeAt_of_suffix (List.suffix_cons _ _) (body inside callee mem)
  | expression expr => exact traced_printed expr callee mem

theorem traced_declaration_succ (nested : Bool) (inner : Traced Stmt.callees (Statement depth))
    (body : Traced (fun inside => Stmt.allCallees inside.1) (Body depth)) :
    Traced Stmt.callees (Declaration nested (depth + 1)) := by
  intro before statement after read callee mem
  cases read with
  | remark _ _ | directive _ _ _ _ | directiveBe _ _ _ _ _ | binding _ _ => cases mem
  | function _ _ _ params _ _ inside =>
    rw [Stmt.callees] at mem
    have behind := suffix_of_listed shortens_name params
    refine exists_calleeAt_of_suffix ?_ (body inside callee mem)
    exact (List.suffix_cons _ _).trans <| (List.suffix_cons _ _).trans <| behind.trans <|
      (List.suffix_cons _ _).trans <| (List.suffix_cons _ _).trans <| List.suffix_cons _ _
  | bindingBe _ _ _ value =>
    refine exists_calleeAt_of_suffix ?_ (traced_expression value callee mem)
    exact (List.suffix_cons _ _).trans <| (List.suffix_cons _ _).trans <| List.suffix_cons _ _
  | statement read => exact inner read callee mem

theorem traced_layer (depth : Nat) :
    Traced Stmt.callees (Statement depth) ∧
      (∀ nested, Traced Stmt.callees (Declaration nested depth)) ∧
      Traced (fun inside => Stmt.allCallees inside.1) (Body depth) := by
  induction depth with
  | zero => exact ⟨fun _ _ _ => False.elim, fun _ _ _ _ => False.elim, fun _ _ _ => False.elim⟩
  | succ depth ih =>
    obtain ⟨statement, declaration, body⟩ := ih
    refine ⟨traced_statement_succ statement body,
      fun nested => traced_declaration_succ nested statement body, ?_⟩
    rintro before inside after ⟨lines, _⟩
    exact traced_lines (declaration true) ((shortens_layer depth).2.1 true) lines

/-- Every callee of a program begins with one of its tokens. -/
theorem Reads.exists_calleeAt {tokens : List Token} {program : Program}
    (read : Reads depth tokens program) :
    ∀ callee ∈ program.callees, ∃ first, CalleeAt tokens callee first :=
  traced_lines ((traced_layer depth).2.1 false) ((shortens_layer depth).2.1 false) read

end Statements

end Grammar

end Marginalia
