import Marginalia.Token

/-!
# Programs

A program is a list of statements over expressions. Every node keeps the span of the text it was
read from, and the tokens that later stages point at: the name of a variable, the operator, the
mark that closes a call, the mark of a return.

An expression that stands alone as a statement is there to be printed: the reader wraps it in a
call of the printer and notes the wrap in the statement.

Trees may also be put together by hand. A node of a kind that its place does not admit is kept as
`unknown` with its kind and description, so that layout, outline and evaluation can say what they
met. The reader never makes one.
-/

namespace Marginalia

/-- A value that is written out in a program. -/
inductive Constant where
  | nothing
  | truth (value : Bool)
  | text (value : String)
deriving DecidableEq, Repr, Inhabited

/-- The value a quoted text stands for. -/
def Constant.ofLiteral : Option String → Constant
  | none => .nothing
  | some value => .text value

/-- An expression. -/
inductive Expr where
  | constant (span : Span) (value : Constant)
  | name (span : Span) (token : Token)
  | negation (span : Span) (operator : Token) (operand : Expr)
  | comparison (span : Span) (left : Expr) (operator : Token) (right : Expr)
  | connective (span : Span) (left : Expr) (operator : Token) (right : Expr)
  | call (span : Span) (callee : Expr) (marker : Token) (arguments : List Expr)
  | unknown (span : Span) (kind : String) (view : Document)
deriving Repr, Inhabited

/-- A statement. -/
inductive Stmt where
  /-- An expression; `wrapped` says that the reader put the printer around it. -/
  | expression (span : Span) (expr : Expr) (wrapped : Bool)
  | binding (span : Span) (name : Token) (initial : Option Expr)
  | block (span : Span) (statements : List Stmt)
  | condition (span : Span) (test : Expr) (yes : Stmt) (no : Option Stmt)
  | loop (span : Span) (test : Expr) (body : Stmt)
  | giveBack (span : Span) (keyword : Token) (value : Option Expr)
  | function (span : Span) (name : Token) (params : List Token) (body : List Stmt)
  | directive (span : Span) (name value : Token)
  | remark (span : Span) (text : Token)
  | unknown (span : Span) (kind : String) (view : Document)
deriving Repr, Inhabited

namespace Expr

/-- Where the expression stands. -/
def span : Expr → Span
  | .constant span _ | .name span _ | .negation span _ _ | .comparison span _ _ _
  | .connective span _ _ _ | .call span _ _ _ | .unknown span _ _ => span

/-- The label of the expression's kind. -/
def kind : Expr → String
  | .constant _ _ => "Literal"
  | .name _ _ => "Var"
  | .negation _ _ _ => "Unary"
  | .comparison _ _ _ _ => "Binary"
  | .connective _ _ _ _ => "Logical"
  | .call _ _ _ _ => "Call"
  | .unknown _ kind _ => kind

mutual

/-- How deeply the expression is nested. -/
def depth : Expr → Nat
  | .constant _ _ | .name _ _ | .unknown _ _ _ => 1
  | .negation _ _ operand => operand.depth + 1
  | .comparison _ left _ right | .connective _ left _ right => max left.depth right.depth + 1
  | .call _ callee _ arguments => max callee.depth (depths arguments) + 1

/-- The depth of the deepest of some expressions. -/
def depths : List Expr → Nat
  | [] => 0
  | expr :: rest => max expr.depth (depths rest)

end

end Expr

namespace Stmt

/-- Where the statement stands. -/
def span : Stmt → Span
  | .expression span _ _ | .binding span _ _ | .block span _ | .condition span _ _ _
  | .loop span _ _ | .giveBack span _ _ | .function span _ _ _ | .directive span _ _
  | .remark span _ | .unknown span _ _ => span

/-- The label of the statement's kind. -/
def kind : Stmt → String
  | .expression _ _ _ => "ExpressionStatement"
  | .binding _ _ _ => "VarStatement"
  | .block _ _ => "Block"
  | .condition _ _ _ _ => "Condition"
  | .loop _ _ _ => "While"
  | .giveBack _ _ _ => "Return"
  | .function _ _ _ _ => "FunctionDecl"
  | .directive _ _ _ => "Directive"
  | .remark _ _ => "Comment"
  | .unknown _ kind _ => kind

mutual

/-- How deeply the statement is nested, its expressions included. -/
def depth : Stmt → Nat
  | .expression _ expr _ => expr.depth + 1
  | .binding _ _ initial | .giveBack _ _ initial => (initial.elim 0 Expr.depth) + 1
  | .block _ statements | .function _ _ _ statements => depths statements + 1
  | .condition _ test yes none => max test.depth yes.depth + 1
  | .condition _ test yes (some no) => max test.depth (max yes.depth no.depth) + 1
  | .loop _ test body => max test.depth body.depth + 1
  | .directive _ _ _ | .remark _ _ | .unknown _ _ _ => 1

/-- The depth of the deepest of some statements. -/
def depths : List Stmt → Nat
  | [] => 0
  | statement :: rest => max statement.depth (depths rest)

end

end Stmt

/-- The statements of a whole text, in order. -/
abbrev Program := List Stmt

/-- The names that are bound to the printer when a run begins. -/
def printerNames : List String :=
  ["print", "know", "say"]

/-- How deeply programs, spellings and values may nest, and calls may recurse. -/
def depthLimit : Nat := 1000

end Marginalia
