import Marginalia.Proofs.Reading.Runs

/-!
# The grammar of programs

A `Phrase` says what may be read from some tokens: `form before a after` holds when
`a` is spelled by the tokens of `before` up to `after`. The forms below are the
rules of the language, one constructor a rule, and say nothing about how a reader
finds its way. Three rules look at what surrounds a phrase:

* a return gives nothing back only before one of `Parser.returnStops`;
* the first branch of a condition with an `else` does not itself end in a
  condition that waits for one (`Stmt.dangles`), so each `else` belongs to the
  nearest condition;
* line ends stand between the lines of a program or block, and before `else`.

Statements, declarations and bodies refer to each other. They are built in
layers: `Statement (depth + 1)` is made of statements and bodies of the layer
`depth`, so whatever holds of one layer and is handed on to the next holds of
all of them by induction on `depth`.
-/

namespace Marginalia

/-- The statement ends in a condition that has no second branch. -/
def Stmt.dangles : Stmt → Bool
  | .condition _ _ _ none => true
  | .condition _ _ _ (some no) => no.dangles
  | .loop _ _ body => body.dangles
  | _ => false

namespace Grammar

/-- What may be read from the tokens of the first list that stand before the second. -/
abbrev Phrase (α : Type) := List Token → α → List Token → Prop

/-! ## Expressions -/

/-- A value written out, or a name. -/
inductive Primary : Phrase Expr
  | falsehood {after : List Token} {token : Token} :
    token.kind = .falseWord →
    Primary (token :: after) (.constant token.span (.truth false)) after
  | truth {after : List Token} {token : Token} :
    token.kind = .trueWord →
    Primary (token :: after) (.constant token.span (.truth true)) after
  | nothing {after : List Token} {token : Token} :
    token.kind = .nothingWord →
    Primary (token :: after) (.constant token.span .nothing) after
  | text {after : List Token} {token : Token} :
    token.kind = .string →
    Primary (token :: after) (.constant token.span (.ofLiteral token.literal)) after
  | name {after : List Token} {token : Token} :
    token.kind = .name → Primary (token :: after) (.name token.span token) after

/-- Up to `depth` times `not` before an operand. -/
inductive Negated (operand : Phrase Expr) : Nat → Phrase Expr
  | operand {before after : List Token} {depth : Nat} {expr : Expr} :
    operand before expr after → Negated operand depth before expr after
  | negation {before after : List Token} {depth : Nat} {operator : Token} {expr : Expr} :
    operator.kind = .notWord → Negated operand depth before expr after →
    Negated operand (depth + 1) (operator :: before)
      (.negation (operator.span.upTo expr.span) operator expr) after

/-- Operands with operators between them, grouped to the left. -/
inductive LeftGrouped (node : Span → Expr → Token → Expr → Expr) (kinds : List TokenKind)
    (operand : Phrase Expr) : Phrase Expr
  | single {before after : List Token} {expr : Expr} :
    operand before expr after → LeftGrouped node kinds operand before expr after
  | more {before middle after : List Token} {operator : Token} {left right : Expr} :
    LeftGrouped node kinds operand before left (operator :: middle) →
    operator.kind ∈ kinds → operand middle right after →
    LeftGrouped node kinds operand before
      (node (left.span.upTo right.span) left operator right) after

/-- Negations, comparisons, `and`, `or`, each binding less than the one before it. -/
def ExpressionOver (operand : Phrase Expr) (depth : Nat) : Phrase Expr :=
  LeftGrouped .connective [.orWord] <|
    LeftGrouped .connective [.andWord] <|
      LeftGrouped .comparison [.isWord, .amWord, .areWord] <|
        Negated operand depth

/-- An expression without a call. -/
def Plain (depth : Nat) : Phrase Expr :=
  ExpressionOver Primary depth

/-- Items with commas between them. -/
inductive Separated {α : Type} (item : Phrase α) : Phrase (List α)
  | single {before after : List Token} {found : α} :
    item before found after → Separated item before [found] after
  | more {before middle after : List Token} {comma : Token} {items : List α} {found : α} :
    Separated item before items (comma :: middle) → comma.kind = .comma →
    items.length < argumentLimit → item middle found after →
    Separated item before (items ++ [found]) after

/-- No items, or items with commas between them. -/
inductive Listed {α : Type} (item : Phrase α) : Phrase (List α)
  | none {after : List Token} : Listed item after [] after
  | some {before after : List Token} {items : List α} :
    Separated item before items after → Listed item before items after

/-- A value or a name, and any number of argument lists behind it. -/
inductive Called (depth : Nat) : Phrase Expr
  | primary {before after : List Token} {expr : Expr} :
    Primary before expr after → Called depth before expr after
  | call {before middle after : List Token} {opening marker : Token} {callee : Expr}
    {arguments : List Expr} :
    Called depth before callee (opening :: middle) → opening.kind = .dash →
    Listed (Plain depth) middle arguments (marker :: after) → marker.kind = .dash →
    Called depth before (.call (callee.span.upTo marker.span) callee marker arguments) after

/-- An expression. -/
def Expression (depth : Nat) : Phrase Expr :=
  ExpressionOver (Called depth) depth

/-- An expression without a call, between two dashes. -/
inductive Condition (depth : Nat) : Phrase Expr
  | intro {before after : List Token} {opening closing : Token} {test : Expr} :
    opening.kind = .dash → Plain depth before test (closing :: after) → closing.kind = .dash →
    Condition depth (opening :: before) test after

/-- A name by itself. -/
inductive Name : Phrase Token
  | intro {after : List Token} {token : Token} :
    token.kind = .name → Name (token :: after) token after

/-! ## Statements -/

/-- An expression as a statement: a direct call of the printer as it is, all else inside one. -/
def printed (expr : Expr) : Stmt :=
  if Parser.isPrinterCall expr then .expression expr.span expr false
  else .expression expr.span (Parser.inPrinter expr) true

/-- Every token ends a line. -/
def LineEnds (tokens : List Token) : Prop :=
  ∀ token ∈ tokens, token.kind = .lineEnd

/-- Some items, each on a line of its own or right behind another, with line ends between. -/
inductive Lines (item : Phrase Stmt) : Phrase (List Stmt)
  | nil {after : List Token} : Lines item after [] after
  | lineEnd {before after : List Token} {token : Token} {statements : List Stmt} :
    token.kind = .lineEnd → Lines item before statements after →
    Lines item (token :: before) statements after
  | cons {before middle after : List Token} {statement : Stmt} {statements : List Stmt} :
    item before statement middle → Lines item middle statements after →
    Lines item before (statement :: statements) after

/-- Lines and the dot behind them. -/
inductive BodyRule (item : Phrase Stmt) : Phrase (List Stmt × Token)
  | intro {before after : List Token} {statements : List Stmt} {dot : Token} :
    Lines item before statements (dot :: after) → dot.kind = .dot →
    BodyRule item before (statements, dot) after

/-- The rules of statements over the statements and bodies of the layer below. -/
inductive StatementRule (depth : Nat) (inner : Phrase Stmt) (body : Phrase (List Stmt × Token)) :
    Phrase Stmt
  | condition {before middle after : List Token} {ifToken : Token} {test : Expr} {yes : Stmt} :
    ifToken.kind = .ifWord → Condition depth before test middle → inner middle yes after →
    StatementRule depth inner body (ifToken :: before)
      (.condition (ifToken.span.upTo yes.span) test yes none) after
  | alternative {before middle after ends others : List Token} {ifToken elseToken : Token}
    {test : Expr} {yes no : Stmt} :
    ifToken.kind = .ifWord → Condition depth before test middle →
    inner middle yes (ends ++ elseToken :: others) → yes.dangles = false → LineEnds ends →
    elseToken.kind = .elseWord → inner others no after →
    StatementRule depth inner body (ifToken :: before)
      (.condition (ifToken.span.upTo no.span) test yes (some no)) after
  | giveNothing {after : List Token} {keyword : Token} :
    keyword.kind = .ampersand → nextKind after ∈ Parser.returnStops →
    StatementRule depth inner body (keyword :: after)
      (.giveBack keyword.span keyword none) after
  | giveBack {before after : List Token} {keyword : Token} {value : Expr} :
    keyword.kind = .ampersand → Expression depth before value after →
    StatementRule depth inner body (keyword :: before)
      (.giveBack (keyword.span.upTo value.span) keyword (some value)) after
  | loop {before middle after : List Token} {whileToken : Token} {test : Expr} {inside : Stmt} :
    whileToken.kind = .whileWord → Condition depth before test middle →
    inner middle inside after →
    StatementRule depth inner body (whileToken :: before)
      (.loop (whileToken.span.upTo inside.span) test inside) after
  | block {before after : List Token} {colon dot : Token} {statements : List Stmt} :
    colon.kind = .colon → body before (statements, dot) after →
    StatementRule depth inner body (colon :: before)
      (.block (colon.span.upTo dot.span) statements) after
  | expression {before after : List Token} {expr : Expr} :
    Expression depth before expr after →
    StatementRule depth inner body before (printed expr) after

/-- The rules of declarations over the statements and bodies of the layer below. -/
inductive DeclarationRule (nested : Bool) (depth : Nat) (inner : Phrase Stmt)
    (body : Phrase (List Stmt × Token)) : Phrase Stmt
  | remark {after : List Token} {dagger text : Token} :
    dagger.kind = .dagger → text.kind = .string →
    DeclarationRule nested depth inner body (dagger :: text :: after)
      (.remark (dagger.span.upTo text.span) text) after
  | directive {after : List Token} {pound name value : Token} :
    nested = false → pound.kind = .pound → name.kind = .name → value.kind = .name →
    DeclarationRule nested depth inner body (pound :: name :: value :: after)
      (.directive (pound.span.upTo value.span) name value) after
  | directiveBe {after : List Token} {pound name be value : Token} :
    nested = false → pound.kind = .pound → name.kind = .name → be.kind = .beWord →
    value.kind = .name →
    DeclarationRule nested depth inner body (pound :: name :: be :: value :: after)
      (.directive (pound.span.upTo value.span) name value) after
  | function {before middle after params : List Token}
    {toToken name opening closing colon dot : Token} {statements : List Stmt} :
    toToken.kind = .toWord → name.kind = .name → opening.kind = .dash →
    Listed Name before params (closing :: colon :: middle) → closing.kind = .dash →
    colon.kind = .colon → body middle (statements, dot) after →
    DeclarationRule nested depth inner body (toToken :: name :: opening :: before)
      (.function (toToken.span.upTo dot.span) name params statements) after
  | binding {after : List Token} {letToken name : Token} :
    letToken.kind = .letWord → name.kind = .name →
    DeclarationRule nested depth inner body (letToken :: name :: after)
      (.binding (letToken.span.upTo name.span) name none) after
  | bindingBe {before after : List Token} {letToken name be : Token} {value : Expr} :
    letToken.kind = .letWord → name.kind = .name → be.kind = .beWord →
    Expression depth before value after →
    DeclarationRule nested depth inner body (letToken :: name :: be :: before)
      (.binding (letToken.span.upTo value.span) name (some value)) after
  | statement {before after : List Token} {statement : Stmt} :
    inner before statement after →
    DeclarationRule nested depth inner body before statement after

mutual

/-- A statement: what may stand as a branch or as the body of a loop. -/
def Statement : Nat → Phrase Stmt
  | 0 => fun _ _ _ => False
  | depth + 1 => StatementRule depth (Statement depth) (Body depth)

/-- A declaration or a statement: what may stand in a block or at the top. -/
def Declaration (nested : Bool) : Nat → Phrase Stmt
  | 0 => fun _ _ _ => False
  | depth + 1 => DeclarationRule nested depth (Statement depth) (Body depth)

/-- The inside of a block with its dot. -/
def Body : Nat → Phrase (List Stmt × Token)
  | 0 => fun _ _ _ => False
  | depth + 1 => BodyRule (Declaration true depth)

end

/-- A whole program: its lines up to the end of the text. -/
def Reads (depth : Nat) (tokens : List Token) (program : Program) : Prop :=
  Lines (Declaration false depth) tokens program []

/-! ## Line ends between lines -/

theorem lines_append {item : Phrase Stmt} {before middle after : List Token}
    {statements others : List Stmt} (first : Lines item before statements middle)
    (second : Lines item middle others after) : Lines item before (statements ++ others) after := by
  induction first with
  | nil => exact second
  | lineEnd kind _ ih => exact .lineEnd kind (ih second)
  | cons read _ ih => exact .cons read (ih second)

theorem lines_pastLineEnds (item : Phrase Stmt) (before : List Token) :
    Lines item before [] (Parser.pastLineEnds before) := by
  induction before with
  | nil => exact .nil
  | cons token before ih =>
    by_cases kind : token.kind = .lineEnd
    · rw [Parser.pastLineEnds_cons_lineEnd kind]
      exact .lineEnd kind ih
    · rw [Parser.pastLineEnds_of_ne (show nextKind (token :: before) ≠ .lineEnd from kind)]
      exact .nil

theorem exists_append_pastLineEnds (before : List Token) :
    ∃ ends, LineEnds ends ∧ before = ends ++ Parser.pastLineEnds before := by
  refine ⟨before.takeWhile (·.kind = .lineEnd), ?_, List.takeWhile_append_dropWhile.symm⟩
  intro token mem
  simpa using List.all_eq_true.mp List.all_takeWhile token mem

theorem pastLineEnds_append {ends : List Token} (all : LineEnds ends) (rest : List Token) :
    Parser.pastLineEnds (ends ++ rest) = Parser.pastLineEnds rest := by
  induction ends with
  | nil => rfl
  | cons token ends ih =>
    rw [List.cons_append, Parser.pastLineEnds_cons_lineEnd (all token List.mem_cons_self)]
    exact ih fun other mem => all other (List.mem_cons_of_mem _ mem)

/-! ## Every phrase takes a token -/

/-- The first list is what is left of the second after some of its tokens were taken. -/
structure Behind (after before : List Token) : Prop where
  suffix : after <:+ before
  shorter : after.length < before.length

namespace Behind

variable {before middle after : List Token}

theorem cons (token : Token) (after : List Token) : Behind after (token :: after) :=
  ⟨List.suffix_cons token after, Nat.lt_succ_self _⟩

theorem of_suffix_right (left : Behind after middle) (right : middle <:+ before) :
    Behind after before :=
  ⟨left.suffix.trans right, Nat.lt_of_lt_of_le left.shorter right.length_le⟩

theorem trans (left : Behind after middle) (right : Behind middle before) :
    Behind after before :=
  left.of_suffix_right right.suffix

end Behind

/-- What is read takes at least one token. -/
def Shortens {α : Type} (form : Phrase α) : Prop :=
  ∀ ⦃before : List Token⦄ ⦃a : α⦄ ⦃after : List Token⦄, form before a after → Behind after before

theorem shortens_primary : Shortens Primary := by
  intro before expr after read
  cases read <;> exact .cons _ _

theorem shortens_negated {operand : Phrase Expr} (shorter : Shortens operand) (depth : Nat) :
    Shortens (Negated operand depth) := by
  intro before expr after read
  induction read with
  | operand read => exact shorter read
  | negation _ _ ih => exact ih.trans (.cons _ _)

theorem shortens_leftGrouped {node : Span → Expr → Token → Expr → Expr} {kinds : List TokenKind}
    {operand : Phrase Expr} (shorter : Shortens operand) :
    Shortens (LeftGrouped node kinds operand) := by
  intro before expr after read
  induction read with
  | single read => exact shorter read
  | more _ _ right ih => exact ((shorter right).trans (.cons _ _)).trans ih

theorem shortens_expressionOver {operand : Phrase Expr} (shorter : Shortens operand) (depth : Nat) :
    Shortens (ExpressionOver operand depth) :=
  shortens_leftGrouped (shortens_leftGrouped (shortens_leftGrouped
    (shortens_negated shorter depth)))

theorem shortens_plain (depth : Nat) : Shortens (Plain depth) :=
  shortens_expressionOver shortens_primary depth

theorem shortens_separated {α : Type} {item : Phrase α} (shorter : Shortens item) :
    Shortens (Separated item) := by
  intro before items after read
  induction read with
  | single read => exact shorter read
  | more _ _ _ found ih => exact ((shorter found).trans (.cons _ _)).trans ih

theorem suffix_of_listed {α : Type} {item : Phrase α} (shorter : Shortens item)
    {before after : List Token} {items : List α} (read : Listed item before items after) :
    after <:+ before := by
  cases read with
  | none => exact List.suffix_rfl
  | some read => exact (shortens_separated shorter read).suffix

theorem shortens_called (depth : Nat) : Shortens (Called depth) := by
  intro before expr after read
  induction read with
  | primary read => exact shortens_primary read
  | call _ _ arguments _ ih =>
    have inside := suffix_of_listed (shortens_plain depth) arguments
    exact (((Behind.cons _ _).of_suffix_right inside).trans (.cons _ _)).trans ih

theorem shortens_expression (depth : Nat) : Shortens (Expression depth) :=
  shortens_expressionOver (shortens_called depth) depth

theorem shortens_condition (depth : Nat) : Shortens (Condition depth) := by
  intro before test after read
  cases read with
  | intro _ test _ => exact ((Behind.cons _ _).trans (shortens_plain depth test)).trans (.cons _ _)

theorem shortens_name : Shortens Name := by
  intro before token after read
  cases read
  exact .cons _ _

theorem suffix_of_lines {item : Phrase Stmt} (shorter : Shortens item)
    {before after : List Token} {statements : List Stmt}
    (read : Lines item before statements after) : after <:+ before := by
  induction read with
  | nil => exact List.suffix_rfl
  | lineEnd _ _ ih => exact ih.trans (List.suffix_cons _ _)
  | cons first _ ih => exact ih.trans (shorter first).suffix

theorem shortens_bodyRule {item : Phrase Stmt} (shorter : Shortens item) :
    Shortens (BodyRule item) := by
  intro before inside after read
  cases read with
  | intro lines _ => exact (Behind.cons _ _).of_suffix_right (suffix_of_lines shorter lines)

theorem shortens_statementRule {depth : Nat} {inner : Phrase Stmt}
    {body : Phrase (List Stmt × Token)} (innerShorter : Shortens inner)
    (bodyShorter : Shortens body) : Shortens (StatementRule depth inner body) := by
  intro before statement after read
  cases read with
  | condition _ test yes =>
    exact ((innerShorter yes).trans (shortens_condition depth test)).trans (.cons _ _)
  | alternative _ test yes _ _ _ no =>
    have yesShorter := (List.suffix_append _ _).trans (innerShorter yes).suffix
    have noShorter := ((innerShorter no).trans (.cons _ _)).of_suffix_right yesShorter
    exact (noShorter.trans (shortens_condition depth test)).trans (.cons _ _)
  | giveNothing _ _ => exact .cons _ _
  | giveBack _ value => exact (shortens_expression depth value).trans (.cons _ _)
  | loop _ test inside =>
    exact ((innerShorter inside).trans (shortens_condition depth test)).trans (.cons _ _)
  | block _ inside => exact (bodyShorter inside).trans (.cons _ _)
  | expression expr => exact shortens_expression depth expr

theorem shortens_declarationRule {nested : Bool} {depth : Nat} {inner : Phrase Stmt}
    {body : Phrase (List Stmt × Token)} (innerShorter : Shortens inner)
    (bodyShorter : Shortens body) : Shortens (DeclarationRule nested depth inner body) := by
  intro before statement after read
  cases read with
  | remark _ _ | binding _ _ => exact (Behind.cons _ _).trans (.cons _ _)
  | directive _ _ _ _ => exact ((Behind.cons _ _).trans (.cons _ _)).trans (.cons _ _)
  | directiveBe _ _ _ _ _ =>
    exact (((Behind.cons _ _).trans (.cons _ _)).trans (.cons _ _)).trans (.cons _ _)
  | function _ _ _ params _ _ inside =>
    have afterParams := suffix_of_listed shortens_name params
    have afterColon := (List.suffix_cons _ _).trans ((List.suffix_cons _ _).trans afterParams)
    exact ((((bodyShorter inside).of_suffix_right afterColon).trans (.cons _ _)).trans
      (.cons _ _)).trans (.cons _ _)
  | bindingBe _ _ _ value =>
    exact (((shortens_expression depth value).trans (.cons _ _)).trans (.cons _ _)).trans
      (.cons _ _)
  | statement read => exact innerShorter read

theorem shortens_layer (depth : Nat) :
    Shortens (Statement depth) ∧ (∀ nested, Shortens (Declaration nested depth)) ∧
      Shortens (Body depth) := by
  induction depth with
  | zero => exact ⟨fun _ _ _ => False.elim, fun _ _ _ _ => False.elim, fun _ _ _ => False.elim⟩
  | succ depth ih =>
    obtain ⟨statement, declaration, body⟩ := ih
    exact ⟨shortens_statementRule statement body,
      fun _ => shortens_declarationRule statement body, shortens_bodyRule (declaration true)⟩

/-! ## How a phrase begins -/

/-- What is read begins with a token of one of the kinds. -/
def Starts {α : Type} (kinds : List TokenKind) (form : Phrase α) : Prop :=
  ∀ ⦃before : List Token⦄ ⦃a : α⦄ ⦃after : List Token⦄, form before a after →
    nextKind before ∈ kinds

/-- How a value or a name begins. -/
def operandKinds : List TokenKind :=
  [.falseWord, .trueWord, .nothingWord, .string, .name]

/-- How an expression begins. -/
def expressionKinds : List TokenKind :=
  .notWord :: operandKinds

/-- How a statement begins. -/
def statementKinds : List TokenKind :=
  [.ifWord, .ampersand, .whileWord, .colon] ++ expressionKinds

/-- How a declaration begins. -/
def declarationKinds : List TokenKind :=
  [.dagger, .pound, .toWord, .letWord] ++ statementKinds

theorem starts_primary : Starts operandKinds Primary := by
  intro before expr after read
  cases read with
  | falsehood kind | truth kind | nothing kind | text kind | name kind =>
    rw [nextKind_cons, kind]
    decide

theorem starts_negated {operand : Phrase Expr} (starts : Starts operandKinds operand)
    (depth : Nat) : Starts expressionKinds (Negated operand depth) := by
  intro before expr after read
  cases read with
  | operand read => exact List.mem_cons_of_mem _ (starts read)
  | negation kind _ =>
    rw [nextKind_cons, kind]
    exact List.mem_cons_self

theorem starts_leftGrouped {node : Span → Expr → Token → Expr → Expr}
    {kinds starting : List TokenKind} {operand : Phrase Expr} (starts : Starts starting operand) :
    Starts starting (LeftGrouped node kinds operand) := by
  intro before expr after read
  induction read with
  | single read => exact starts read
  | more _ _ _ ih => exact ih

theorem starts_expressionOver {operand : Phrase Expr} (starts : Starts operandKinds operand)
    (depth : Nat) : Starts expressionKinds (ExpressionOver operand depth) :=
  starts_leftGrouped (starts_leftGrouped (starts_leftGrouped (starts_negated starts depth)))

theorem starts_called (depth : Nat) : Starts operandKinds (Called depth) := by
  intro before expr after read
  induction read with
  | primary read => exact starts_primary read
  | call _ _ _ _ ih => exact ih

theorem starts_expression (depth : Nat) : Starts expressionKinds (Expression depth) :=
  starts_expressionOver (starts_called depth) depth

theorem starts_separated {α : Type} {kinds : List TokenKind} {item : Phrase α}
    (starts : Starts kinds item) : Starts kinds (Separated item) := by
  intro before items after read
  induction read with
  | single read => exact starts read
  | more _ _ _ _ ih => exact ih

theorem starts_name : Starts [.name] Name := by
  intro before token after read
  cases read with
  | intro kind => exact List.mem_singleton.mpr kind

theorem starts_statement (depth : Nat) : Starts statementKinds (Statement depth) := by
  intro before statement after read
  cases depth with
  | zero => exact read.elim
  | succ depth =>
    cases read with
    | condition kind _ _ | alternative kind _ _ _ _ _ _ | giveNothing kind _ | giveBack kind _
    | loop kind _ _ | block kind _ =>
      rw [nextKind_cons, kind]
      decide
    | expression expr => exact List.mem_append_right _ (starts_expression depth expr)

theorem starts_declaration (nested : Bool) (depth : Nat) :
    Starts declarationKinds (Declaration nested depth) := by
  intro before statement after read
  cases depth with
  | zero => exact read.elim
  | succ depth =>
    cases read with
    | remark kind _ | directive _ kind _ _ | directiveBe _ kind _ _ _ | binding kind _
    | function kind _ _ _ _ _ _ | bindingBe kind _ _ _ =>
      rw [nextKind_cons, kind]
      decide
    | statement read => exact List.mem_append_right _ (starts_statement depth read)

end Grammar

end Marginalia
