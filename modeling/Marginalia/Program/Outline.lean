import Marginalia.Program

/-!
# Outlines

The outline of a program is its tree as a document: every node names its kind, then its span if
spans are asked for, then its parts in a fixed order. Absent parts are null.
-/

namespace Marginalia

/-- A value as a document. -/
def Constant.outline : Constant → Document
  | .nothing => .null
  | .truth value => .bool value
  | .text value => .text value

/-- A node: its kind, its span if asked for, and its parts. -/
def outlineNode (spans : Bool) (kind : String) (span : Span)
    (parts : List (String × Document)) : Document :=
  .object (("node_type", .text kind) ::
    if spans then ("span", span.document) :: parts else parts)

namespace Expr

mutual

/-- An expression as a document. -/
def outline (spans : Bool) : Expr → Document
  | .constant span value => outlineNode spans "Literal" span [("value", value.outline)]
  | .name span token => outlineNode spans "Var" span [("name", token.document spans)]
  | .negation span operator operand =>
    outlineNode spans "Unary" span
      [("operator", operator.document spans), ("operand", operand.outline spans)]
  | .comparison span left operator right =>
    outlineNode spans "Binary" span
      [("left", left.outline spans), ("operator", operator.document spans),
       ("right", right.outline spans)]
  | .connective span left operator right =>
    outlineNode spans "Logical" span
      [("left", left.outline spans), ("operator", operator.document spans),
       ("right", right.outline spans)]
  | .call span callee marker arguments =>
    outlineNode spans "Call" span
      [("callee", callee.outline spans), ("marker", marker.document spans),
       ("arguments", .list (outlines spans arguments))]
  | .unknown _ _ view => view

/-- Some expressions as documents. -/
def outlines (spans : Bool) : List Expr → List Document
  | [] => []
  | expr :: rest => expr.outline spans :: outlines spans rest

end

end Expr

namespace Stmt

mutual

/-- A statement as a document. -/
def outline (spans : Bool) : Stmt → Document
  | .expression span expr wrapped =>
    outlineNode spans "ExpressionStatement" span
      [("expression", expr.outline spans), ("implicit", .bool wrapped)]
  | .binding span name initial =>
    outlineNode spans "VarStatement" span
      [("name", name.document spans), ("initializer", .ofOption (Expr.outline spans) initial)]
  | .block span statements =>
    outlineNode spans "Block" span [("statements", .list (outlines spans statements))]
  | .condition span test yes none =>
    outlineNode spans "Condition" span
      [("test", test.outline spans), ("then_branch", yes.outline spans), ("else_branch", .null)]
  | .condition span test yes (some no) =>
    outlineNode spans "Condition" span
      [("test", test.outline spans), ("then_branch", yes.outline spans),
       ("else_branch", no.outline spans)]
  | .loop span test body =>
    outlineNode spans "While" span
      [("test", test.outline spans), ("body", body.outline spans)]
  | .giveBack span keyword value =>
    outlineNode spans "Return" span
      [("keyword", keyword.document spans), ("value", .ofOption (Expr.outline spans) value)]
  | .function span name params statements =>
    outlineNode spans "FunctionDecl" span
      [("name", name.document spans), ("params", .list (params.map (Token.document spans))),
       ("body", .list (outlines spans statements))]
  | .directive span name value =>
    outlineNode spans "Directive" span
      [("name", name.document spans), ("value", value.document spans)]
  | .remark span text => outlineNode spans "Comment" span [("text", text.document spans)]
  | .unknown _ _ view => view

/-- Some statements as documents. -/
def outlines (spans : Bool) : List Stmt → List Document
  | [] => []
  | statement :: rest => statement.outline spans :: outlines spans rest

end

end Stmt

/-- A program as a document. -/
def Program.outline (spans : Bool) (program : Program) : Document :=
  .list (Stmt.outlines spans program)

end Marginalia
