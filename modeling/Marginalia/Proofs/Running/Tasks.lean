import Marginalia.Proofs.Reading.Parts
import Marginalia.Proofs.Running.Moments
import Marginalia.Proofs.Store.Contents

/-!
# What is still to be done

At a moment of a run some parts of its program are still to be dealt with: expressions are to be
evaluated and statements to be carried out, calls are to be made and values to be written and given
back. These are the tasks of the focus and of the frames. Where a run turns to something else, a
task is replaced by its parts, and no others come up (`Focus.tasks_turn`, `Frame.tasks_take`,
`Frame.tasks_resume`). So what holds of the parts of every task of which it holds stays true of all
tasks, until the run enters a block or a call (`Focus.All.turn`, `Frame.All.take`,
`Frame.All.resume`).

One such property is that a task stands in the program (`Task.StandsIn`).
-/

namespace Marginalia

/-! ## Expressions of a program -/

/-- The expressions of the statement itself, without those of the statements inside it. -/
def Stmt.exprs : Stmt → List Expr
  | .expression _ expr _ | .condition _ expr _ _ | .loop _ expr _ => [expr]
  | .binding _ _ initial | .giveBack _ _ initial => initial.toList
  | .block _ _ | .function _ _ _ _ | .directive _ _ _ | .remark _ _ | .unknown _ _ _ => []

/-- The statements that may be carried out in place of the statement, in the same scope. -/
def Stmt.branches : Stmt → List Stmt
  | .condition _ _ yes no => yes :: no.toList
  | .loop _ _ body => [body]
  | _ => []

theorem Stmt.branches_subset_children (statement : Stmt) :
    statement.branches ⊆ statement.children := by
  cases statement with
  | condition span test yes no =>
    rw [children_condition]
    exact List.Subset.refl _
  | loop span test body => exact List.Subset.refl _
  | _ => exact List.nil_subset _

/-- The expressions that the expression is put together from. -/
def Expr.parts : Expr → List Expr
  | .negation _ _ operand => [operand]
  | .comparison _ left _ right | .connective _ left _ right => [left, right]
  | .call _ callee _ arguments => callee :: arguments
  | .constant _ _ | .name _ _ | .unknown _ _ _ => []

namespace Program

/-- The expression stands in the program, in a statement or at any depth inside another one. -/
inductive HasExpr (program : Program) : Expr → Prop
  | inStmt {statement : Stmt} {expr : Expr} :
    program.Has statement → expr ∈ statement.exprs → program.HasExpr expr
  | part {whole expr : Expr} : program.HasExpr whole → expr ∈ whole.parts → program.HasExpr expr

/-- A call of the program has this callee and this mark. -/
def HasCall (program : Program) (callee : Expr) (marker : Token) : Prop :=
  ∃ span arguments, program.HasExpr (.call span callee marker arguments)

variable {program : Program}

/-- What holds of the statements at the top and of what stands in a statement of which it holds,
holds of all statements. -/
theorem Has.all {holds : Stmt → Prop} {statement : Stmt} (has : program.Has statement)
    (tops : ∀ statement ∈ program, holds statement)
    (inner : ∀ outer, holds outer → ∀ child ∈ outer.children, holds child) : holds statement := by
  induction has with
  | top mem => exact tops _ mem
  | inner _ mem ih => exact inner _ ih _ mem

theorem HasExpr.all {holds : Expr → Prop} {expr : Expr} (has : program.HasExpr expr)
    (stmts : ∀ statement, program.Has statement → ∀ expr ∈ statement.exprs, holds expr)
    (parts : ∀ whole, holds whole → ∀ part ∈ whole.parts, holds part) : holds expr := by
  induction has with
  | inStmt known mem => exact stmts _ known _ mem
  | part _ mem ih => exact parts _ ih _ mem

end Program

/-! ## Tasks -/

/-- Something that a run has still to do. -/
inductive Task where
  /-- An expression is to be evaluated. -/
  | eval (expr : Expr)
  /-- A statement is to be carried out. -/
  | exec (statement : Stmt)
  /-- What an expression comes to is to be called, and the mark is that of the call. -/
  | call (callee : Expr) (marker : Token)
  /-- A function is to be entered that an expression has come to. -/
  | enter (callee : Expr) (function : Function)
  /-- The body of a function is to be carried out. -/
  | body (statements : List Stmt)
  /-- A value is to be written to a name. -/
  | write (name : String)
  /-- A value is to be given back by the return with this mark. -/
  | giveBack (keyword : Token)

namespace Task

/-- What is to be done when the task is turned to, in the same scope. -/
def parts : Task → List Task
  | .eval expr =>
    (match expr with
      | .call _ callee marker _ => [.call callee marker]
      | _ => []) ++ expr.parts.map .eval
  | .exec statement =>
    (match statement with
      | .binding _ name _ => [.write name.lexeme]
      | .giveBack _ keyword _ => [.giveBack keyword]
      | _ => []) ++ (statement.exprs.map .eval ++ statement.branches.map .exec)
  | .call _ _ | .enter _ _ | .body _ | .write _ | .giveBack _ => []

/-- The property holds of the parts of every task of which it holds. -/
def Closed (holds : Task → Prop) : Prop :=
  ∀ ⦃task⦄, holds task → ∀ part ∈ task.parts, holds part

/-- A property is closed if it goes from expressions to their parts and to the calls they are, and
from statements to their expressions and branches, the names they bind and the marks of returns. -/
theorem closed_of {holds : Task → Prop}
    (parts : ∀ expr, holds (.eval expr) → ∀ part ∈ expr.parts, holds (.eval part))
    (calls : ∀ span callee marker arguments, holds (.eval (.call span callee marker arguments)) →
      holds (.call callee marker))
    (exprs : ∀ statement, holds (.exec statement) → ∀ expr ∈ statement.exprs, holds (.eval expr))
    (branches : ∀ statement, holds (.exec statement) →
      ∀ branch ∈ statement.branches, holds (.exec branch))
    (writes : ∀ span name initial, holds (.exec (.binding span name initial)) →
      holds (.write name.lexeme))
    (returns : ∀ span keyword value, holds (.exec (.giveBack span keyword value)) →
      holds (.giveBack keyword)) : Closed holds := by
  intro task here part mem
  cases task with
  | eval expr =>
    rcases List.mem_append.mp mem with called | inner
    · cases expr with
      | call span callee marker arguments =>
        obtain rfl := List.mem_singleton.mp called
        exact calls _ _ _ _ here
      | _ => cases called
    · obtain ⟨inside, there, rfl⟩ := List.mem_map.mp inner
      exact parts _ here inside there
  | exec statement =>
    rcases List.mem_append.mp mem with own | inner
    · cases statement with
      | binding _ _ _ =>
        obtain rfl := List.mem_singleton.mp own
        exact writes _ _ _ here
      | giveBack _ _ _ =>
        obtain rfl := List.mem_singleton.mp own
        exact returns _ _ _ here
      | _ => cases own
    · rcases List.mem_append.mp inner with evaluated | branch
      · obtain ⟨expr, there, rfl⟩ := List.mem_map.mp evaluated
        exact exprs _ here expr there
      · obtain ⟨inside, there, rfl⟩ := List.mem_map.mp branch
        exact branches _ here inside there
  | call _ _ | enter _ _ | body _ | write _ | giveBack _ => cases mem

end Task

/-- What the focus has still to do. -/
def Focus.tasks : Focus → List Task
  | .eval expr => [.eval expr]
  | .exec statement => [.exec statement]
  | .pass callee marker _ _ rest => .call callee marker :: rest.map .eval
  | .call callee function _ => [.enter callee function]
  | .bind _ _ _ body => [.body body]
  | .assign names _ => names.map .write
  | .ended outcome => outcome.toList.map (.giveBack ·.keyword)
  | .result _ | .answer _ => []

/-- What is left to do in the frame. -/
def Frame.tasks : Frame → List Task
  | .leftOf right | .connective _ right => [.eval right]
  | .callee named marker exprs | .argument named marker _ _ exprs =>
    .call named marker :: exprs.map .eval
  | .binding name => [.write name]
  | .giveBack keyword => [.giveBack keyword]
  | .condition yes no => (yes :: no.toList).map .exec
  | .testing test body | .looping test body => [.eval test, .exec body]
  | .rest statements => statements.map .exec
  | .negation | .rightOf _ | .discard | .leaveBlock _ | .leaveCall _ => []

/-- The property holds of all that the focus has still to do. -/
def Focus.All (holds : Task → Prop) (focus : Focus) : Prop :=
  ∀ task ∈ focus.tasks, holds task

/-- The property holds of all that is left to do in the frame. -/
def Frame.All (holds : Task → Prop) (frame : Frame) : Prop :=
  ∀ task ∈ frame.tasks, holds task

section Turning

variable {holds : Task → Prop} {next : Focus} {pushed : List Frame}

theorem Focus.all_ended_none : (ended none).All holds :=
  List.forall_mem_nil _

theorem Frame.all_rest {statements : List Stmt} :
    (rest statements).All holds ↔ ∀ statement ∈ statements, holds (.exec statement) :=
  List.forall_mem_map

theorem Frame.all_leaveBlock (scope : ScopeId) : (leaveBlock scope).All holds :=
  List.forall_mem_nil _

theorem Frame.all_leaveCall (scope : ScopeId) : (leaveCall scope).All holds :=
  List.forall_mem_nil _

/-- Turning to what is next breaks up one task into its parts. -/
theorem Focus.tasks_turn {focus : Focus} (turns : focus.turn? = some (next, pushed)) :
    next.tasks ++ pushed.flatMap Frame.tasks ⊆ focus.tasks ++ focus.tasks.flatMap Task.parts := by
  cases focus with
  | eval expr =>
    cases expr with
    | name _ _ | unknown _ _ _ => cases turns
    | _ =>
      cases turns
      simp +contextual [List.subset_def, tasks, Frame.tasks, Task.parts, Expr.parts, or_imp]
  | exec statement =>
    cases statement with
    | binding _ _ initial | giveBack _ _ initial =>
      cases initial <;> cases turns <;>
        simp [tasks, Frame.tasks, Task.parts, Stmt.exprs]
    | condition _ _ _ _ =>
      cases turns
      simp +contextual [List.subset_def, tasks, Frame.tasks, Task.parts, Stmt.exprs,
        Stmt.branches]
    | _ => cases turns <;> simp [tasks, Frame.tasks, Task.parts, Stmt.exprs, Stmt.branches]
  | pass _ _ _ _ rest =>
    cases rest <;> cases turns
    simp +contextual [List.subset_def, tasks, Frame.tasks]
  | assign names _ =>
    cases names <;> cases turns
    exact List.nil_subset _
  | result _ | ended _ | call _ _ _ | bind _ _ _ _ | answer _ => cases turns

/-- Taking a value brings no new task. -/
theorem Frame.tasks_take {frame : Frame} {value : Value}
    (takes : frame.take? value = some (next, pushed)) :
    next.tasks ++ pushed.flatMap Frame.tasks ⊆ frame.tasks := by
  cases frame with
  | connective _ _ | testing _ _ =>
    rw [take?] at takes
    split at takes <;> cases takes <;> simp [Focus.tasks, tasks]
  | condition yes no =>
    rw [take?] at takes
    split at takes
    · cases takes
      simp [Focus.tasks, tasks]
    · cases no <;> cases takes <;> simp [Focus.tasks, tasks]
  | _ => cases takes <;> simp [Focus.tasks, tasks]

/-- Going on where a statement has ended brings no new task. -/
theorem Frame.tasks_resume {frame : Frame} {outcome : Option Returned}
    (resumes : frame.resume? outcome = some (next, pushed)) :
    next.tasks ++ pushed.flatMap Frame.tasks ⊆ (Focus.ended outcome).tasks ++ frame.tasks := by
  cases outcome with
  | none =>
    cases frame with
    | rest statements => cases statements <;> cases resumes <;> simp [Focus.tasks, tasks]
    | _ => cases resumes <;> simp [Focus.tasks, tasks]
  | some returned => cases frame <;> cases resumes <;> simp [Focus.tasks]

/-- What holds of all tasks of a focus and some frames holds of each of them. -/
theorem Focus.all_of_tasks
    (all : ∀ task ∈ next.tasks ++ pushed.flatMap Frame.tasks, holds task) :
    next.All holds ∧ ∀ frame ∈ pushed, frame.All holds := by
  obtain ⟨here, behind⟩ := List.forall_mem_append.mp all
  exact ⟨here, List.forall_mem_flatMap.mp behind⟩

theorem Focus.All.turn {focus : Focus} (all : focus.All holds) (closed : Task.Closed holds)
    (turns : focus.turn? = some (next, pushed)) :
    next.All holds ∧ ∀ frame ∈ pushed, frame.All holds := by
  refine all_of_tasks fun task mem => ?_
  rcases List.mem_append.mp (tasks_turn turns mem) with old | part
  · exact all task old
  · obtain ⟨whole, there, part⟩ := List.mem_flatMap.mp part
    exact closed (all whole there) task part

theorem Frame.All.take {frame : Frame} {value : Value} (all : frame.All holds)
    (takes : frame.take? value = some (next, pushed)) :
    next.All holds ∧ ∀ frame ∈ pushed, frame.All holds :=
  Focus.all_of_tasks fun task mem => all task (tasks_take takes mem)

theorem Frame.All.resume {frame : Frame} {outcome : Option Returned} (all : frame.All holds)
    (ended : (Focus.ended outcome).All holds)
    (resumes : frame.resume? outcome = some (next, pushed)) :
    next.All holds ∧ ∀ frame ∈ pushed, frame.All holds := by
  refine Focus.all_of_tasks fun task mem => ?_
  rcases List.mem_append.mp (tasks_resume resumes mem) with back | left
  · exact ended task back
  · exact all task left

end Turning

/-! ## Tasks of a program -/

/-- The function was declared in the program, or it is none of a program. -/
def Function.StandsIn (program : Program) : Function → Prop
  | .declared name params body _ => ∃ span, program.Has (.function span name params body)
  | .printer | .listener _ => True

theorem Function.StandsIn.body {program : Program} {name : Token} {params : List Token}
    {body : List Stmt} {home : ScopeId}
    (stands : (Function.declared name params body home).StandsIn program) :
    ∀ statement ∈ body, program.Has statement := by
  obtain ⟨span, has⟩ := stands
  exact fun statement mem => has.inner mem

/-- The task stands in the program. -/
def Task.StandsIn (program : Program) : Task → Prop
  | .eval expr => program.HasExpr expr
  | .exec statement => program.Has statement
  | .call callee marker => program.HasCall callee marker
  | .enter callee function =>
    (∃ marker, program.HasCall callee marker) ∧ function.StandsIn program
  | .body statements => ∀ statement ∈ statements, program.Has statement
  | .write _ | .giveBack _ => True

/-- The parts of a task that stands in a program stand there as well. -/
theorem Task.closed_standsIn (program : Program) : Closed (StandsIn program) := by
  apply closed_of
  · exact fun _ stands _ => Program.HasExpr.part stands
  · exact fun span _ _ arguments stands => ⟨span, arguments, stands⟩
  · exact fun _ stands _ => Program.HasExpr.inStmt stands
  · exact fun statement stands _ mem => stands.inner (statement.branches_subset_children mem)
  · exact fun _ _ _ _ => trivial
  · exact fun _ _ _ _ => trivial

/-- All that is still to be done at the moment stands in the program, and so do the functions that
were made. -/
structure Moment.StandsIn (program : Program) (moment : Moment) : Prop where
  focus : moment.focus.All (Task.StandsIn program)
  frames : ∀ frame ∈ moment.frames, frame.All (Task.StandsIn program)
  functions : moment.machine.store.functions.All (Function.StandsIn program)

namespace Moment.StandsIn

variable {program : Program} {moment : Moment}

theorem task (stands : moment.StandsIn program) {focus : Focus} (same : moment.focus = focus)
    {task : Task} (mem : task ∈ focus.tasks) : task.StandsIn program := by
  rw [← same] at mem
  exact stands.focus task mem

theorem eval (stands : moment.StandsIn program) {expr : Expr}
    (same : moment.focus = .eval expr) : program.HasExpr expr :=
  stands.task same List.mem_cons_self

theorem exec (stands : moment.StandsIn program) {statement : Stmt}
    (same : moment.focus = .exec statement) : program.Has statement :=
  stands.task same List.mem_cons_self

theorem call (stands : moment.StandsIn program) {callee : Expr} {function : Function}
    {arguments : List Value} (same : moment.focus = .call callee function arguments) :
    (∃ marker, program.HasCall callee marker) ∧ function.StandsIn program :=
  stands.task same List.mem_cons_self

end Moment.StandsIn

end Marginalia
