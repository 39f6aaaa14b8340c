import Marginalia.Proofs.Reading.Complete
import Marginalia.Proofs.Reading.Places
import Marginalia.Proofs.Scanning.Written

/-!
# The tokens of a layout

`Stmt.signs` lists the tokens, without places, that the canonical layout of a
statement is written in. It is defined on trees and does not mention text; that
the layout really is written in these tokens is shown in
`Marginalia.Proofs.Layout.Spelled`.

The layout puts an `else` right behind the branch before it. A return that gives
nothing back needs the end of a line, a dot or a remark there, so a branch that
ends in one (`Stmt.openEnded`) leaves the `else` stranded (`Stmt.strandsElse`).
Trees without a stranded `else` are read again from their own tokens: if the
grammar derives a tree from any tokens at all, it derives it from its signs
(`Grammar.reads_signs`).
-/

namespace Marginalia

/-! ## Stranded branches -/

/-- The statement ends in a return that gives nothing back. -/
def Stmt.openEnded : Stmt → Bool
  | .giveBack _ _ none => true
  | .condition _ _ yes none => yes.openEnded
  | .condition _ _ _ (some no) => no.openEnded
  | .loop _ _ body => body.openEnded
  | _ => false

namespace Stmt

mutual

/-- Somewhere in the statement a condition has two branches, and its first one is open-ended. -/
def strandsElse : Stmt → Bool
  | .condition _ _ yes none => yes.strandsElse
  | .condition _ _ yes (some no) => yes.openEnded || yes.strandsElse || no.strandsElse
  | .loop _ _ body => body.strandsElse
  | .block _ statements | .function _ _ _ statements => anyStrandsElse statements
  | _ => false

/-- One of the statements strands an `else`. -/
def anyStrandsElse : List Stmt → Bool
  | [] => false
  | statement :: rest => statement.strandsElse || anyStrandsElse rest

end

end Stmt

/-- Somewhere in the program a condition has two branches, and its first one is open-ended. -/
def Program.strandsElse (program : Program) : Bool :=
  Stmt.anyStrandsElse program

/-! ## Signs -/

/-- A token without a place that says nothing but its own text. -/
def plainSign (kind : TokenKind) (lexeme : String) : Token :=
  ⟨kind, lexeme, none, .nowhere⟩

def dashSign : Token := plainSign .dash "—"

def commaSign : Token := plainSign .comma ","

def colonSign : Token := plainSign .colon ":"

def dotSign : Token := plainSign .dot "."

def poundSign : Token := plainSign .pound "#"

def ifSign : Token := plainSign .ifWord "if"

def elseSign : Token := plainSign .elseWord "else"

def whileSign : Token := plainSign .whileWord "while"

def letSign : Token := plainSign .letWord "let"

def beSign : Token := plainSign .beWord "be"

def toSign : Token := plainSign .toWord "to"

/-- Some phrases with commas between them. -/
def separatedSigns (phrases : List (List Token)) : List Token :=
  [commaSign].intercalate phrases

def Constant.sign : Constant → Token
  | .nothing => plainSign .nothingWord "nothing"
  | .truth true => plainSign .trueWord "true"
  | .truth false => plainSign .falseWord "false"
  | .text value => ⟨.string, "“" ++ value ++ "”", some value, .nowhere⟩

namespace Expr

mutual

/-- The tokens of an expression's layout. -/
def signs : Expr → List Token
  | .constant _ value => [value.sign]
  | .name _ token => [token.erased]
  | .negation _ operator operand => operator.erased :: operand.signs
  | .comparison _ left operator right | .connective _ left operator right =>
    left.signs ++ operator.erased :: right.signs
  | .call _ callee marker arguments =>
    callee.signs ++ dashSign :: (separatedSigns (allSigns arguments) ++ [marker.erased])
  | .unknown _ _ _ => []

/-- The tokens of some expressions' layouts. -/
def allSigns : List Expr → List (List Token)
  | [] => []
  | expr :: rest => expr.signs :: allSigns rest

end

theorem allSigns_eq_map (exprs : List Expr) : allSigns exprs = exprs.map signs := by
  induction exprs with
  | nil => rfl
  | cons expr rest ih => rw [allSigns, ih, List.map_cons]

end Expr

namespace Stmt

mutual

/-- The tokens of a statement's layout. -/
def signs : Stmt → List Token
  | .expression _ expr false => expr.signs
  | .expression _ (.call _ _ _ (first :: _)) true => first.signs
  | .expression _ expr true => expr.signs
  | .binding _ name none => [letSign, name.erased]
  | .binding _ name (some initial) =>
    letSign :: name.erased :: beSign :: initial.signs
  | .block _ statements => colonSign :: lineEndSign :: (rowSigns statements ++ [dotSign])
  | .condition _ test yes none =>
    ifSign :: dashSign :: (test.signs ++ dashSign :: yes.signs)
  | .condition _ test yes (some no) =>
    ifSign :: dashSign ::
      (test.signs ++ dashSign :: (yes.signs ++ elseSign :: no.signs))
  | .loop _ test body =>
    whileSign :: dashSign :: (test.signs ++ dashSign :: body.signs)
  | .giveBack _ keyword none => [keyword.erased]
  | .giveBack _ keyword (some value) => keyword.erased :: value.signs
  | .function _ name params statements =>
    toSign :: name.erased :: dashSign ::
      (separatedSigns (params.map fun param => [param.erased]) ++
        dashSign :: colonSign :: lineEndSign :: (rowSigns statements ++ [dotSign]))
  | .directive _ name value => [poundSign, name.erased, value.erased]
  | .remark _ text => [daggerSign, text.erased]
  | .unknown _ _ _ => []

/-- The tokens of some statements' layouts, each on a line of its own. -/
def rowSigns : List Stmt → List Token
  | [] => []
  | statement :: rest => statement.signs ++ lineEndSign :: rowSigns rest

end

end Stmt

/-- The tokens of a program's layout. -/
def Program.signs : Program → List Token
  | [] => [lineEndSign]
  | statements => Stmt.rowSigns statements

/-! ## Trees at other places -/

section Moved

variable {move : Span → Span}

@[simp] theorem Token.span_erased (token : Token) : token.erased.span = .nowhere := rfl

@[simp] theorem Expr.span_erased (expr : Expr) : expr.erased.span = .nowhere :=
  expr.span_moved

@[simp] theorem Stmt.span_erased (statement : Stmt) : statement.erased.span = .nowhere :=
  statement.span_moved

@[simp] theorem Span.upTo_nowhere : Span.nowhere.upTo .nowhere = .nowhere := rfl

theorem Stmt.dangles_moved (statement : Stmt) :
    (statement.moved move).dangles = statement.dangles := by
  cases statement with
  | condition span test yes no =>
    cases no with
    | none => rfl
    | some no => exact no.dangles_moved
  | loop span test body => exact body.dangles_moved
  | _ => rfl

end Moved

/-! ## Reading the signs again -/

namespace Grammar

/-- What the form derives from some tokens it also derives, without places, from its signs. -/
def Rereads {α : Type} (signs : α → List Token) (erase : α → α) (form : Phrase α) : Prop :=
  ∀ ⦃before : List Token⦄ ⦃a : α⦄ ⦃after : List Token⦄, form before a after →
    ∀ rest, form (signs a ++ rest) (erase a) rest

theorem rereads_primary : Rereads Expr.signs Expr.erased Primary := by
  intro before expr after read rest
  cases read with
  | falsehood _ => exact Primary.falsehood rfl
  | truth _ => exact Primary.truth rfl
  | nothing _ => exact Primary.nothing rfl
  | @text after token _ =>
    cases token.literal with
    | none => exact Primary.nothing rfl
    | some value => exact Primary.text rfl
  | name kind => exact Primary.name kind

theorem rereads_negated {operand : Phrase Expr} (rereads : Rereads Expr.signs Expr.erased operand)
    (depth : Nat) : Rereads Expr.signs Expr.erased (Negated operand depth) := by
  intro before expr after read rest
  induction read with
  | operand read => exact .operand (rereads read rest)
  | @negation before after depth operator expr kind _ ih =>
    have again : Negated operand (depth + 1) (operator.erased :: (expr.signs ++ rest))
        (.negation (operator.erased.span.upTo expr.erased.span) operator.erased expr.erased) rest :=
      .negation kind ih
    rwa [Token.span_erased, Expr.span_erased] at again

/-- Nodes of an operator write it between their operands. -/
structure IsOperatorNode (node : Span → Expr → Token → Expr → Expr) : Prop where
  layout : ∀ span left operator right,
    (node span left operator right).layout =
      do return (← left.layout) ++ " " ++ operator.lexeme ++ " " ++ (← right.layout)
  signs : ∀ span left operator right,
    (node span left operator right).signs = left.signs ++ operator.erased :: right.signs
  erased : ∀ span left operator right,
    (node span left operator right).erased =
      node .nowhere left.erased operator.erased right.erased

theorem isOperatorNode_connective : IsOperatorNode .connective :=
  ⟨fun _ _ _ _ => rfl, fun _ _ _ _ => rfl, fun _ _ _ _ => rfl⟩

theorem isOperatorNode_comparison : IsOperatorNode .comparison :=
  ⟨fun _ _ _ _ => rfl, fun _ _ _ _ => rfl, fun _ _ _ _ => rfl⟩

theorem rereads_leftGrouped {node : Span → Expr → Token → Expr → Expr} {kinds : List TokenKind}
    {operand : Phrase Expr} (isNode : IsOperatorNode node)
    (rereads : Rereads Expr.signs Expr.erased operand) :
    Rereads Expr.signs Expr.erased (LeftGrouped node kinds operand) := by
  intro before expr after read rest
  induction read generalizing rest with
  | single read => exact .single (rereads read rest)
  | @more before middle after operator left right _ mem rightRead ih =>
    have again : LeftGrouped node kinds operand _ _ rest :=
      .more (ih (operator.erased :: (right.signs ++ rest))) mem (rereads rightRead rest)
    rw [Expr.span_erased, Expr.span_erased, Span.upTo_nowhere] at again
    rw [isNode.signs, isNode.erased, List.append_assoc]
    exact again

theorem rereads_expressionOver {operand : Phrase Expr}
    (rereads : Rereads Expr.signs Expr.erased operand) (depth : Nat) :
    Rereads Expr.signs Expr.erased (ExpressionOver operand depth) :=
  rereads_leftGrouped isOperatorNode_connective
    (rereads_leftGrouped isOperatorNode_connective
      (rereads_leftGrouped isOperatorNode_comparison (rereads_negated rereads depth)))

theorem rereads_plain (depth : Nat) : Rereads Expr.signs Expr.erased (Plain depth) :=
  rereads_expressionOver rereads_primary depth

theorem rereads_name : Rereads (fun token => [token.erased]) Token.erased Name := by
  intro before token after read rest
  cases read with
  | intro kind => exact .intro kind

theorem separatedSigns_append {phrases : List (List Token)} (ne_nil : phrases ≠ [])
    (phrase : List Token) :
    separatedSigns (phrases ++ [phrase]) = separatedSigns phrases ++ commaSign :: phrase := by
  induction phrases with
  | nil => exact absurd rfl ne_nil
  | cons first phrases ih =>
    cases phrases with
    | nil => simp [separatedSigns]
    | cons second phrases =>
      have rest := ih (List.cons_ne_nil _ _)
      simp only [separatedSigns, List.cons_append, List.intercalate_cons_cons] at rest ⊢
      rw [rest]
      simp only [List.append_assoc]

theorem rereads_separated {α : Type} {signs : α → List Token} {erase : α → α} {item : Phrase α}
    (rereads : Rereads signs erase item) :
    Rereads (fun items => separatedSigns (items.map signs)) (List.map erase) (Separated item) := by
  intro before items after read rest
  induction read generalizing rest with
  | single read =>
    simp only [List.map_cons, List.map_nil, separatedSigns, List.intercalate_singleton]
    exact .single (rereads read rest)
  | @more before middle after comma items found front _ room read ih =>
    have ne_nil : items.map signs ≠ [] := by
      cases front <;> simp
    have again := Separated.more (ih (commaSign :: (signs found ++ rest))) rfl
      (by rwa [List.length_map]) (rereads read rest)
    simp only [List.map_append, List.map_cons, List.map_nil, separatedSigns_append ne_nil,
      List.append_assoc]
    exact again

theorem rereads_listed {α : Type} {signs : α → List Token} {erase : α → α} {item : Phrase α}
    (rereads : Rereads signs erase item) :
    Rereads (fun items => separatedSigns (items.map signs)) (List.map erase) (Listed item) := by
  intro before items after read rest
  cases read with
  | none => exact .none
  | some read => exact .some (rereads_separated rereads read rest)

theorem rereads_called (depth : Nat) : Rereads Expr.signs Expr.erased (Called depth) := by
  intro before expr after read rest
  induction read generalizing rest with
  | primary read => exact .primary (rereads_primary read rest)
  | @call before middle after opening marker callee arguments _ _ inside kind ih =>
    have items := rereads_listed (rereads_plain depth) inside (marker.erased :: rest)
    have again := Called.call (ih (dashSign :: _)) rfl items kind
    rw [Expr.span_erased, Token.span_erased, Span.upTo_nowhere] at again
    rw [Expr.erased, Expr.moved, Expr.allMoved_eq_map, Expr.signs, Expr.allSigns_eq_map]
    simp only [List.append_assoc, List.cons_append, List.nil_append]
    exact again

theorem rereads_expression (depth : Nat) : Rereads Expr.signs Expr.erased (Expression depth) :=
  rereads_expressionOver (rereads_called depth) depth

theorem rereads_condition {depth : Nat} {before after : List Token} {test : Expr}
    (read : Condition depth before test after) (rest : List Token) :
    Condition depth (dashSign :: (test.signs ++ dashSign :: rest)) test.erased rest := by
  cases read with
  | intro _ inside _ => exact .intro rfl (rereads_plain depth inside (dashSign :: rest)) rfl

/-! ## Statements -/

theorem erased_printed (expr : Expr) : (printed expr).erased = printed expr.erased := by
  unfold printed
  rw [Expr.erased, Parser.isPrinterCall_moved]
  split
  · rw [Stmt.erased, Stmt.moved, Expr.span_moved]
  · rw [Stmt.erased, Stmt.moved, Expr.span_moved, Parser.inPrinter_moved]

theorem signs_printed (expr : Expr) : (printed expr).signs = expr.signs := by
  unfold printed
  split
  · rfl
  · rfl

/-- A statement without a stranded `else` is read again from its signs, where an open end is
followed by something that ends a return. -/
def RereadsStatement (form : Phrase Stmt) : Prop :=
  ∀ ⦃before : List Token⦄ ⦃statement : Stmt⦄ ⦃after : List Token⦄, form before statement after →
    statement.strandsElse = false → ∀ rest,
      (statement.openEnded = true → nextKind rest ∈ Parser.returnStops) →
      form (statement.signs ++ rest) statement.erased rest

/-- Bodies without a stranded `else` are read again from their signs. -/
def RereadsBody (form : Phrase (List Stmt × Token)) : Prop :=
  ∀ ⦃before : List Token⦄ ⦃statements : List Stmt⦄ ⦃dot : Token⦄ ⦃after : List Token⦄,
    form before (statements, dot) after → Stmt.anyStrandsElse statements = false → ∀ rest,
      form (lineEndSign :: (Stmt.rowSigns statements ++ dotSign :: rest))
        (statements.map Stmt.erased, dotSign) rest

theorem rereads_lines {item : Phrase Stmt} (rereads : RereadsStatement item)
    {before after : List Token} {statements : List Stmt}
    (read : Lines item before statements after) (safe : Stmt.anyStrandsElse statements = false)
    (rest : List Token) :
    Lines item (Stmt.rowSigns statements ++ rest) (statements.map Stmt.erased) rest := by
  induction read with
  | nil => exact .nil
  | lineEnd _ _ ih => exact ih safe
  | @cons before middle after statement statements first _ ih =>
    rw [Stmt.anyStrandsElse, Bool.or_eq_false_iff] at safe
    rw [Stmt.rowSigns, List.append_assoc, List.cons_append, List.map_cons]
    have stops : nextKind (lineEndSign :: (Stmt.rowSigns statements ++ rest)) ∈
        Parser.returnStops := by
      rw [nextKind_cons]
      decide
    exact .cons (rereads first safe.1 _ fun _ => stops) (.lineEnd rfl (ih safe.2))

theorem rereads_bodyRule {item : Phrase Stmt} (rereads : RereadsStatement item) :
    RereadsBody (BodyRule item) := by
  intro before statements dot after read safe rest
  cases read with
  | intro inside _ =>
    exact .intro (.lineEnd rfl (rereads_lines rereads inside safe (dotSign :: rest))) rfl

section Rules

variable {depth : Nat} {inner : Phrase Stmt} {body : Phrase (List Stmt × Token)}
  (innerRereads : RereadsStatement inner) (bodyRereads : RereadsBody body)

include innerRereads bodyRereads

/-- A statement of one more level is read again from its signs, if those below are. -/
theorem rereads_statementRule : RereadsStatement (StatementRule depth inner body) := by
  intro before statement after read safe rest closed
  cases read with
  | @condition before middle after ifToken test yes _ testRead yesRead =>
    have testAgain := rereads_condition testRead (yes.signs ++ rest)
    have again : StatementRule depth inner body _
        (.condition (ifSign.span.upTo yes.erased.span) test.erased yes.erased none) rest :=
      .condition rfl testAgain (innerRereads yesRead safe rest closed)
    rw [Stmt.span_erased] at again
    simp only [Stmt.signs, List.cons_append, List.append_assoc]
    exact again
  | @alternative before middle after ends others ifToken elseToken test yes no _ testRead yesRead
      whole _ _ noRead =>
    simp only [Stmt.strandsElse, Bool.or_eq_false_iff] at safe
    obtain ⟨⟨yesEnds, yesSafe⟩, noSafe⟩ := safe
    have yesAgain := innerRereads yesRead yesSafe (elseSign :: (no.signs ++ rest)) fun isOpen => by
      rw [yesEnds] at isOpen
      cases isOpen
    have noAgain := innerRereads noRead noSafe rest closed
    have testAgain := rereads_condition testRead (yes.signs ++ elseSign :: (no.signs ++ rest))
    have noEnds : LineEnds [] := fun _ mem => absurd mem List.not_mem_nil
    have again := @StatementRule.alternative depth inner body _ _ rest [] _ ifSign elseSign _ _ _
      rfl testAgain yesAgain (yes.dangles_moved.trans whole) noEnds rfl noAgain
    rw [Stmt.span_erased] at again
    simp only [Stmt.signs, List.cons_append, List.append_assoc]
    exact again
  | giveNothing kind stop => exact .giveNothing kind (closed rfl)
  | @giveBack before after keyword value kind valueRead =>
    have again : StatementRule depth inner body _
        (.giveBack (keyword.erased.span.upTo value.erased.span) keyword.erased value.erased) rest :=
      .giveBack kind (rereads_expression depth valueRead rest)
    rwa [Token.span_erased, Expr.span_erased] at again
  | @loop before middle after whileToken test inside _ testRead insideRead =>
    have testAgain := rereads_condition testRead (inside.signs ++ rest)
    have again : StatementRule depth inner body _
        (.loop (whileSign.span.upTo inside.erased.span) test.erased inside.erased) rest :=
      .loop rfl testAgain (innerRereads insideRead safe rest closed)
    rw [Stmt.span_erased] at again
    simp only [Stmt.signs, List.cons_append, List.append_assoc]
    exact again
  | @block before after colon dot statements _ inside =>
    have again : StatementRule depth inner body _
        (.block (colonSign.span.upTo dotSign.span) (statements.map Stmt.erased)) rest :=
      .block rfl (bodyRereads inside safe rest)
    rw [Stmt.erased, Stmt.moved, Stmt.allMoved_eq_map]
    simp only [Stmt.signs, List.cons_append, List.append_assoc, List.nil_append]
    exact again
  | expression exprRead =>
    rw [signs_printed, erased_printed]
    exact .expression (rereads_expression depth exprRead rest)

/-- So is a declaration, at the top and inside of a block. -/
theorem rereads_declarationRule (nested : Bool) :
    RereadsStatement (DeclarationRule nested depth inner body) := by
  intro before statement after read safe rest closed
  cases read with
  | remark _ kind => exact .remark rfl kind
  | directive outside _ nameKind valueKind => exact .directive outside rfl nameKind valueKind
  | directiveBe outside _ nameKind _ valueKind => exact .directive outside rfl nameKind valueKind
  | @function before middle after params toToken name opening closing colon dot statements _
      nameKind _ paramsRead _ _ inside =>
    have paramsAgain := rereads_listed rereads_name paramsRead
      (dashSign :: colonSign :: lineEndSign :: (Stmt.rowSigns statements ++ dotSign :: rest))
    have again := @DeclarationRule.function nested depth inner body _ _ rest _ toSign name.erased
      dashSign dashSign colonSign dotSign _ rfl nameKind rfl paramsAgain rfl rfl
      (bodyRereads inside safe rest)
    rw [Stmt.erased, Stmt.moved, Stmt.allMoved_eq_map]
    simp only [Stmt.signs, List.cons_append, List.append_assoc, List.nil_append]
    exact again
  | binding _ nameKind => exact .binding rfl nameKind
  | @bindingBe before after letToken name be value _ nameKind _ valueRead =>
    have again := @DeclarationRule.bindingBe nested depth inner body _ rest letSign name.erased
      beSign _ rfl nameKind rfl (rereads_expression depth valueRead rest)
    rwa [Expr.span_erased] at again
  | statement read => exact .statement (innerRereads read safe rest closed)

end Rules

theorem rereads_layer (depth : Nat) :
    RereadsStatement (Statement depth) ∧ (∀ nested, RereadsStatement (Declaration nested depth)) ∧
      RereadsBody (Body depth) := by
  induction depth with
  | zero => exact ⟨fun _ _ _ => False.elim, fun _ _ _ _ => False.elim, fun _ _ _ _ => False.elim⟩
  | succ depth ih =>
    obtain ⟨statement, declaration, body⟩ := ih
    exact ⟨rereads_statementRule statement body, rereads_declarationRule statement body,
      rereads_bodyRule (declaration true)⟩

/-- A program without a stranded `else` is derived from the tokens of its own layout. -/
theorem reads_signs {depth : Nat} {tokens : List Token} {program : Program}
    (read : Reads depth tokens program) (safe : program.strandsElse = false) :
    Reads depth program.signs program.erased := by
  cases program with
  | nil => exact .lineEnd rfl .nil
  | cons statement rest =>
    have again := rereads_lines ((rereads_layer depth).2.1 false) read safe []
    rwa [List.append_nil] at again

end Grammar

end Marginalia
