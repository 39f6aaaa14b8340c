import Marginalia.Program
import Marginalia.Fault
import Marginalia.Text.Blank

/-!
# Canonical layout

`Program.layout` writes a program with one statement a line, two blanks of indent for every block
around it, and one blank between words. An expression that the reader wrapped in the printer is
written bare, so that reading the layout wraps it again. A branch or the body of a loop continues
the line of its condition: the indent it would have on a line of its own is dropped.

Only trees that were put together by hand have no layout; the fault says what was met.
-/

namespace Marginalia

/-- The blanks before a statement with so many blocks around it. Blocks may be owed: as long as
their number is below zero there is no indent. -/
def indent (blocks : Int) : String :=
  String.ofList (List.replicate (2 * blocks.toNat) ' ')

/-- A statement's text where it continues a line. -/
def continued (text : String) : String :=
  String.ofList (trimStart text.toList)

/-- A value as it is written in a program. -/
def Constant.layout : Constant → String
  | .nothing => "nothing"
  | .truth value => if value then "true" else "false"
  | .text value => "“" ++ value ++ "”"

namespace Expr

mutual

/-- An expression as it is written in a program. -/
def layout : Expr → Except Fault String
  | .constant _ value => return value.layout
  | .name _ token => return token.lexeme
  | .negation _ _ operand => return "not " ++ (← operand.layout)
  | .comparison _ left operator right | .connective _ left operator right =>
    return (← left.layout) ++ " " ++ operator.lexeme ++ " " ++ (← right.layout)
  | .call _ callee _ arguments => do
    let items ← layouts arguments
    return (← callee.layout) ++ "—" ++ String.intercalate ", " items ++ "—"
  | .unknown _ kind _ => throw (.unknownExpression kind)

/-- Some expressions, each as it is written in a program. -/
def layouts : List Expr → Except Fault (List String)
  | [] => return []
  | expr :: rest => return (← expr.layout) :: (← layouts rest)

end

/-- What the printer was wrapped around. -/
def unwrapped : Expr → Except Fault Expr
  | .call _ _ _ (first :: _) => return first
  | .call _ _ _ [] => throw .wrapsNoArgument
  | expr => throw (.wrapsNoCall expr.kind)

end Expr

namespace Stmt

mutual

/-- A statement with so many blocks around it, from the beginning of its line. -/
def layout (blocks : Int) : Stmt → Except Fault String
  | .expression _ expr true => return indent blocks ++ (← (← expr.unwrapped).layout)
  | .expression _ expr false => return indent blocks ++ (← expr.layout)
  | .binding _ name none => return indent blocks ++ "let " ++ name.lexeme
  | .binding _ name (some initial) =>
    return indent blocks ++ "let " ++ name.lexeme ++ " be " ++ (← initial.layout)
  | .block _ statements =>
    return indent blocks ++ ":\n" ++ (← rows (blocks + 1) statements) ++ indent blocks ++ "."
  | .condition _ test yes none => do
    let test ← test.layout
    return indent blocks ++ "if—" ++ test ++ "— " ++ continued (← yes.layout blocks)
  | .condition _ test yes (some no) => do
    let test ← test.layout
    let yes ← yes.layout blocks
    return indent blocks ++ "if—" ++ test ++ "— " ++ continued yes ++ " else " ++
      continued (← no.layout blocks)
  | .loop _ test body => do
    let test ← test.layout
    return indent blocks ++ "while—" ++ test ++ "— " ++ continued (← body.layout blocks)
  | .giveBack _ _ none => return indent blocks ++ "&"
  | .giveBack _ _ (some value) => return indent blocks ++ "& " ++ (← value.layout)
  | .function _ name params statements =>
    return indent blocks ++ "to " ++ name.lexeme ++ "—" ++
      String.intercalate ", " (params.map (·.lexeme)) ++ "—:\n" ++
      (← rows (blocks + 1) statements) ++ indent blocks ++ "."
  | .directive _ name value => return indent blocks ++ "#" ++ name.lexeme ++ " " ++ value.lexeme
  | .remark _ text => return indent blocks ++ "†" ++ text.literal.getD "None"
  | .unknown _ kind _ => throw (.unknownStatement kind)

/-- Some statements, each on a line of its own. -/
def rows (blocks : Int) : List Stmt → Except Fault String
  | [] => return ""
  | statement :: rest => return (← statement.layout blocks) ++ "\n" ++ (← rows blocks rest)

end

end Stmt

/-- The canonical text of a program; it ends with a line feed. -/
def Program.layout (program : Program) : Except Fault String :=
  match program with
  | [] => return "\n"
  | statements => Stmt.rows 0 statements

end Marginalia
