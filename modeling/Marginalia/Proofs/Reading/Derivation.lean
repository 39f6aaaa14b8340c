import Marginalia.Proofs.Reading.Complete

/-!
# Derivations without a limit

`Grammar.Reads` follows the reader in counting how deeply it goes, and in giving
each `else` to the nearest condition. The rules here do neither: they are the
grammar of the language in full, one constructor a rule, and a program is derived
if it has a derivation at all, however deep. An `else` may belong to any condition
before it that has none, so some tokens derive several programs.

Which of them the reader means can be seen from the program itself. In
`Stmt.NearestElse` no first branch of a condition with an `else` ends in a
condition without one. How deep the reader has to go can be seen, too: one level
for every statement in another, two for the inside of a block, and one for every
`not` of the longest run of them (`Stmt.nesting`). `reads_iff` says that the
counted rules are these rules and the two conditions on the program.
-/

namespace Marginalia

/-! ## How deep a program is for its reader -/

namespace Expr

/-- How many times `not` stands before the expression. -/
def leadingNots : Expr → Nat
  | .negation _ _ operand => operand.leadingNots + 1
  | _ => 0

mutual

/-- The longest run of `not` in the expression. -/
def nots : Expr → Nat
  | .constant _ _ | .name _ _ | .unknown _ _ _ => 0
  | .negation _ _ operand => max (operand.leadingNots + 1) operand.nots
  | .comparison _ left _ right | .connective _ left _ right => max left.nots right.nots
  | .call _ callee _ arguments => max callee.nots (allNots arguments)

/-- The longest run of `not` in some expressions. -/
def allNots : List Expr → Nat
  | [] => 0
  | expr :: rest => max expr.nots (allNots rest)

end

theorem leadingNots_le_nots (expr : Expr) : expr.leadingNots ≤ expr.nots := by
  cases expr with
  | negation _ _ operand => exact Nat.le_max_left _ _
  | _ => exact Nat.zero_le _

theorem allNots_le_iff {exprs : List Expr} {limit : Nat} :
    allNots exprs ≤ limit ↔ ∀ expr ∈ exprs, expr.nots ≤ limit := by
  induction exprs with
  | nil => simp [allNots]
  | cons expr rest ih => rw [allNots, Nat.max_le, ih, List.forall_mem_cons]

end Expr

namespace Stmt

/-- What a statement costs as a line beyond what it costs as a branch; declarations are lines
only. -/
def lineCost : Stmt → Nat
  | .binding _ _ _ | .function _ _ _ _ | .directive _ _ _ | .remark _ _ => 0
  | _ => 1

mutual

/-- How many levels the reader goes down for the statement. -/
def nesting : Stmt → Nat
  | .expression _ expr _ => expr.nots + 1
  | .binding _ _ initial | .giveBack _ _ initial => initial.elim 0 Expr.nots + 1
  | .block _ statements | .function _ _ _ statements => linesNesting statements + 2
  | .condition _ test yes none => max test.nots yes.nesting + 1
  | .condition _ test yes (some no) => max test.nots (max yes.nesting no.nesting) + 1
  | .loop _ test body => max test.nots body.nesting + 1
  | .directive _ _ _ | .remark _ _ | .unknown _ _ _ => 1

/-- How many levels the reader goes down for some lines. -/
def linesNesting : List Stmt → Nat
  | [] => 0
  | statement :: rest => max (statement.nesting + statement.lineCost) (linesNesting rest)

end

/-- How many levels the reader goes down for the statement as a line. -/
def lineNesting (statement : Stmt) : Nat :=
  statement.nesting + statement.lineCost

theorem nesting_pos (statement : Stmt) : 0 < statement.nesting := by
  cases statement with
  | condition _ _ _ no => cases no <;> exact Nat.succ_pos _
  | _ => exact Nat.succ_pos _

theorem lineNesting_pos (statement : Stmt) : 0 < statement.lineNesting :=
  Nat.lt_of_lt_of_le statement.nesting_pos (Nat.le_add_right _ _)

theorem linesNesting_le_iff {statements : List Stmt} {limit : Nat} :
    linesNesting statements ≤ limit ↔ ∀ statement ∈ statements, statement.lineNesting ≤ limit := by
  induction statements with
  | nil => simp [linesNesting]
  | cons statement rest ih =>
    rw [linesNesting, Nat.max_le, ih, List.forall_mem_cons, lineNesting]

mutual

/-- Each `else` in the statement belongs to the nearest condition before it. -/
def NearestElse : Stmt → Prop
  | .condition _ _ yes none => yes.NearestElse
  | .condition _ _ yes (some no) => yes.dangles = false ∧ yes.NearestElse ∧ no.NearestElse
  | .loop _ _ body => body.NearestElse
  | .block _ statements | .function _ _ _ statements => AllNearestElse statements
  | .expression _ _ _ | .binding _ _ _ | .giveBack _ _ _ | .directive _ _ _ | .remark _ _
  | .unknown _ _ _ => True

/-- Each `else` in some statements belongs to the nearest condition before it. -/
def AllNearestElse : List Stmt → Prop
  | [] => True
  | statement :: rest => statement.NearestElse ∧ AllNearestElse rest

end

theorem allNearestElse_iff {statements : List Stmt} :
    AllNearestElse statements ↔ ∀ statement ∈ statements, statement.NearestElse := by
  induction statements with
  | nil => simp [AllNearestElse]
  | cons statement rest ih => rw [AllNearestElse, ih, List.forall_mem_cons]

end Stmt

/-- How many levels the reader goes down for the program. -/
def Program.nesting (program : Program) : Nat :=
  Stmt.linesNesting program

/-- Each `else` in the program belongs to the nearest condition before it. -/
def Program.NearestElse (program : Program) : Prop :=
  Stmt.AllNearestElse program

namespace Derivation

open Grammar (Phrase Primary LeftGrouped Separated Listed Name LineEnds Lines)

/-! ## The rules -/

/-- `not` any number of times before an operand. -/
inductive Negated (operand : Phrase Expr) : Phrase Expr
  | operand {before after : List Token} {expr : Expr} :
    operand before expr after → Negated operand before expr after
  | negation {before after : List Token} {operator : Token} {expr : Expr} :
    operator.kind = .notWord → Negated operand before expr after →
    Negated operand (operator :: before)
      (.negation (operator.span.upTo expr.span) operator expr) after

/-- Negations, comparisons, `and`, `or`, each binding less than the one before it and grouped to
the left. -/
def ExpressionOver (operand : Phrase Expr) : Phrase Expr :=
  LeftGrouped .connective [.orWord] <|
    LeftGrouped .connective [.andWord] <|
      LeftGrouped .comparison [.isWord, .amWord, .areWord] <|
        Negated operand

/-- An expression without a call: an argument or a condition. -/
def Plain : Phrase Expr :=
  ExpressionOver Primary

/-- A value or a name, and any number of argument lists behind it. -/
inductive Called : Phrase Expr
  | primary {before after : List Token} {expr : Expr} :
    Primary before expr after → Called before expr after
  | call {before middle after : List Token} {opening marker : Token} {callee : Expr}
    {arguments : List Expr} :
    Called before callee (opening :: middle) → opening.kind = .dash →
    Listed Plain middle arguments (marker :: after) → marker.kind = .dash →
    Called before (.call (callee.span.upTo marker.span) callee marker arguments) after

/-- An expression. -/
def Expression : Phrase Expr :=
  ExpressionOver Called

/-- An expression without a call, between two dashes. -/
inductive Condition : Phrase Expr
  | intro {before after : List Token} {opening closing : Token} {test : Expr} :
    opening.kind = .dash → Plain before test (closing :: after) → closing.kind = .dash →
    Condition (opening :: before) test after

/-- The expression calls the printer by one of its names. -/
def CallsPrinter (expr : Expr) : Prop :=
  ∃ span nameSpan name marker arguments,
    expr = .call span (.name nameSpan name) marker arguments ∧ name.lexeme ∈ printerNames

/-- A call of the printer by the name `print`, where the expression stands. -/
def printing (expr : Expr) : Expr :=
  .call expr.span (.name expr.span ⟨.name, "print", none, expr.span⟩)
    ⟨.dash, "—", none, expr.span⟩ [expr]

mutual

/-- A statement: what may stand as a branch or as the body of a loop. -/
inductive Statement : Phrase Stmt
  | condition {before middle after : List Token} {ifToken : Token} {test : Expr} {yes : Stmt} :
    ifToken.kind = .ifWord → Condition before test middle → Statement middle yes after →
    Statement (ifToken :: before)
      (.condition (ifToken.span.upTo yes.span) test yes none) after
  | alternative {before middle after ends others : List Token} {ifToken elseToken : Token}
    {test : Expr} {yes no : Stmt} :
    ifToken.kind = .ifWord → Condition before test middle →
    Statement middle yes (ends ++ elseToken :: others) →
    LineEnds ends → elseToken.kind = .elseWord → Statement others no after →
    Statement (ifToken :: before)
      (.condition (ifToken.span.upTo no.span) test yes (some no)) after
  | giveNothing {after : List Token} {keyword : Token} :
    keyword.kind = .ampersand → nextKind after ∈ [.lineEnd, .dot, .dagger, .textEnd] →
    Statement (keyword :: after) (.giveBack keyword.span keyword none) after
  | giveBack {before after : List Token} {keyword : Token} {value : Expr} :
    keyword.kind = .ampersand → Expression before value after →
    Statement (keyword :: before)
      (.giveBack (keyword.span.upTo value.span) keyword (some value)) after
  | loop {before middle after : List Token} {whileToken : Token} {test : Expr} {inside : Stmt} :
    whileToken.kind = .whileWord → Condition before test middle →
    Statement middle inside after →
    Statement (whileToken :: before)
      (.loop (whileToken.span.upTo inside.span) test inside) after
  | block {before after : List Token} {colon dot : Token} {statements : List Stmt} :
    colon.kind = .colon → Lines (Declaration true) before statements (dot :: after) →
    dot.kind = .dot →
    Statement (colon :: before) (.block (colon.span.upTo dot.span) statements) after
  | printer {before after : List Token} {expr : Expr} :
    Expression before expr after → CallsPrinter expr →
    Statement before (.expression expr.span expr false) after
  | wrapped {before after : List Token} {expr : Expr} :
    Expression before expr after → ¬ CallsPrinter expr →
    Statement before (.expression expr.span (printing expr) true) after

/-- A declaration or a statement: what may stand in a block (`nested`) or at the top. -/
inductive Declaration : Bool → Phrase Stmt
  | remark {nested : Bool} {after : List Token} {dagger text : Token} :
    dagger.kind = .dagger → text.kind = .string →
    Declaration nested (dagger :: text :: after)
      (.remark (dagger.span.upTo text.span) text) after
  | directive {after : List Token} {pound name value : Token} :
    pound.kind = .pound → name.kind = .name → value.kind = .name →
    Declaration false (pound :: name :: value :: after)
      (.directive (pound.span.upTo value.span) name value) after
  | directiveBe {after : List Token} {pound name be value : Token} :
    pound.kind = .pound → name.kind = .name → be.kind = .beWord → value.kind = .name →
    Declaration false (pound :: name :: be :: value :: after)
      (.directive (pound.span.upTo value.span) name value) after
  | function {nested : Bool} {before middle after params : List Token}
    {toToken name opening closing colon dot : Token} {statements : List Stmt} :
    toToken.kind = .toWord → name.kind = .name → opening.kind = .dash →
    Listed Name before params (closing :: colon :: middle) → closing.kind = .dash →
    colon.kind = .colon → Lines (Declaration true) middle statements (dot :: after) →
    dot.kind = .dot →
    Declaration nested (toToken :: name :: opening :: before)
      (.function (toToken.span.upTo dot.span) name params statements) after
  | binding {nested : Bool} {after : List Token} {letToken name : Token} :
    letToken.kind = .letWord → name.kind = .name →
    Declaration nested (letToken :: name :: after)
      (.binding (letToken.span.upTo name.span) name none) after
  | bindingBe {nested : Bool} {before after : List Token} {letToken name be : Token}
    {value : Expr} :
    letToken.kind = .letWord → name.kind = .name → be.kind = .beWord →
    Expression before value after →
    Declaration nested (letToken :: name :: be :: before)
      (.binding (letToken.span.upTo value.span) name (some value)) after
  | statement {nested : Bool} {before after : List Token} {statement : Stmt} :
    Statement before statement after →
    Declaration nested before statement after

end

end Derivation

/-- The tokens derive the program: its lines up to the end of the text. -/
def Derives (tokens : List Token) (program : Program) : Prop :=
  Grammar.Lines (Derivation.Declaration false) tokens program []

namespace Derivation

open Grammar (Phrase Primary LeftGrouped Separated Listed Name LineEnds Lines)

/-! ## The counted rules are the rules and a count -/

/-- The second form has the phrases of the first whose meaning fits. -/
def Restricts {α : Type} (fits : α → Prop) (free bounded : Phrase α) : Prop :=
  ∀ ⦃before : List Token⦄ ⦃a : α⦄ ⦃after : List Token⦄,
    bounded before a after ↔ free before a after ∧ fits a

section Expressions

variable {limit : Nat} {free bounded : Phrase Expr}

theorem restricts_primary (limit : Nat) : Restricts (fun expr => expr.nots ≤ limit) Primary
    Primary := by
  intro before expr after
  refine ⟨fun read => ⟨read, ?_⟩, fun both => both.1⟩
  cases read <;> exact Nat.zero_le _

theorem leadingNots_of_primary {before after : List Token} {expr : Expr}
    (read : Primary before expr after) : expr.leadingNots = 0 := by
  cases read <;> rfl

theorem leadingNots_of_called {before after : List Token} {expr : Expr}
    (read : Called before expr after) : expr.leadingNots = 0 := by
  cases read with
  | primary read => exact leadingNots_of_primary read
  | call _ _ _ _ => rfl

section Negations

variable (restricts : Restricts (fun expr => expr.nots ≤ limit) free bounded)

include restricts

theorem negated_of_bounded (bare : ∀ {before expr after}, free before expr after →
    expr.leadingNots = 0) {depth : Nat} {before after : List Token} {expr : Expr}
    (read : Grammar.Negated bounded depth before expr after) :
    Negated free before expr after ∧ expr.leadingNots ≤ depth ∧ expr.nots ≤ max depth limit := by
  induction read with
  | operand read =>
    obtain ⟨derived, few⟩ := restricts.mp read
    refine ⟨.operand derived, ?_, Nat.le_trans few (Nat.le_max_right _ _)⟩
    rw [bare derived]
    exact Nat.zero_le _
  | negation kind _ ih =>
    obtain ⟨derived, leading, few⟩ := ih
    refine ⟨.negation kind derived, Nat.succ_le_succ leading, ?_⟩
    rw [Expr.nots]
    omega

theorem bounded_of_negated {before after : List Token} {expr : Expr}
    (derived : Negated free before expr after) {depth : Nat} (few : expr.nots ≤ limit)
    (leading : expr.leadingNots ≤ depth) :
    Grammar.Negated bounded depth before expr after := by
  induction derived generalizing depth with
  | operand derived => exact .operand (restricts.mpr ⟨derived, few⟩)
  | negation kind _ ih =>
    rw [Expr.leadingNots] at leading
    rw [Expr.nots] at few
    obtain ⟨depth, rfl⟩ : ∃ less, depth = less + 1 := ⟨depth - 1, by omega⟩
    exact .negation kind (ih (by omega) (by omega))

theorem restricts_negated (bare : ∀ {before expr after}, free before expr after →
    expr.leadingNots = 0) :
    Restricts (fun expr => expr.nots ≤ limit) (Negated free) (Grammar.Negated bounded limit) := by
  intro before expr after
  constructor
  · intro read
    obtain ⟨derived, _, few⟩ := negated_of_bounded restricts bare read
    exact ⟨derived, by rwa [Nat.max_self] at few⟩
  · rintro ⟨derived, few⟩
    exact bounded_of_negated restricts derived few
      (Nat.le_trans expr.leadingNots_le_nots few)

end Negations

/-- Operators that group to the left count no negations of their own. -/
theorem restricts_leftGrouped {node : Span → Expr → Token → Expr → Expr} {kinds : List TokenKind}
    (restricts : Restricts (fun expr => expr.nots ≤ limit) free bounded)
    (joined : ∀ span left operator right,
      (node span left operator right).nots = max left.nots right.nots) :
    Restricts (fun expr => expr.nots ≤ limit) (LeftGrouped node kinds free)
      (LeftGrouped node kinds bounded) := by
  intro before expr after
  constructor
  · intro read
    induction read with
    | single read =>
      obtain ⟨derived, few⟩ := restricts.mp read
      exact ⟨.single derived, few⟩
    | more _ mem right ih =>
      obtain ⟨rightDerived, rightFew⟩ := restricts.mp right
      refine ⟨.more ih.1 mem rightDerived, ?_⟩
      change Expr.nots _ ≤ limit
      rw [joined]
      exact Nat.max_le.mpr ⟨ih.2, rightFew⟩
  · rintro ⟨derived, few⟩
    induction derived with
    | single derived => exact .single (restricts.mpr ⟨derived, few⟩)
    | more _ mem right ih =>
      rw [joined, Nat.max_le] at few
      exact .more (ih few.1) mem (restricts.mpr ⟨right, few.2⟩)

theorem restricts_expressionOver
    (restricts : Restricts (fun expr => expr.nots ≤ limit) free bounded)
    (bare : ∀ {before expr after}, free before expr after → expr.leadingNots = 0) :
    Restricts (fun expr => expr.nots ≤ limit) (ExpressionOver free)
      (Grammar.ExpressionOver bounded limit) := by
  refine restricts_leftGrouped ?_ fun _ _ _ _ => by rw [Expr.nots]
  refine restricts_leftGrouped ?_ fun _ _ _ _ => by rw [Expr.nots]
  refine restricts_leftGrouped ?_ fun _ _ _ _ => by rw [Expr.nots]
  exact restricts_negated restricts bare

theorem restricts_plain (limit : Nat) :
    Restricts (fun expr => expr.nots ≤ limit) Plain (Grammar.Plain limit) :=
  restricts_expressionOver (restricts_primary limit) leadingNots_of_primary

/-- Items in a list are counted one by one. -/
theorem restricts_listed {α : Type} {fits : α → Prop} {free bounded : Phrase α}
    (restricts : Restricts fits free bounded) :
    Restricts (fun items => ∀ item ∈ items, fits item) (Listed free) (Listed bounded) := by
  have separated : Restricts (fun items => ∀ item ∈ items, fits item) (Separated free)
      (Separated bounded) := by
    intro before items after
    constructor
    · intro read
      induction read with
      | single read =>
        obtain ⟨derived, fit⟩ := restricts.mp read
        exact ⟨.single derived, by simpa using fit⟩
      | more _ kind room read ih =>
        obtain ⟨derived, fit⟩ := restricts.mp read
        refine ⟨.more ih.1 kind room derived, fun item mem => ?_⟩
        rcases List.mem_append.mp mem with early | last
        · exact ih.2 item early
        · rwa [List.mem_singleton.mp last]
    · rintro ⟨derived, fit⟩
      induction derived with
      | single derived => exact .single (restricts.mpr ⟨derived, fit _ List.mem_cons_self⟩)
      | more _ kind room derived ih =>
        have last := fit _ (List.mem_append_right _ List.mem_cons_self)
        exact .more (ih fun item mem => fit item (List.mem_append_left _ mem)) kind room
          (restricts.mpr ⟨derived, last⟩)
  intro before items after
  constructor
  · intro read
    cases read with
    | none => exact ⟨.none, nofun⟩
    | some read => exact ⟨.some (separated.mp read).1, (separated.mp read).2⟩
  · rintro ⟨derived, fit⟩
    cases derived with
    | none => exact .none
    | some derived => exact .some (separated.mpr ⟨derived, fit⟩)

/-- A call counts the negations of its callee and its arguments, one by one. -/
theorem restricts_called (limit : Nat) :
    Restricts (fun expr => expr.nots ≤ limit) Called (Grammar.Called limit) := by
  intro before expr after
  constructor
  · intro read
    induction read with
    | primary read =>
      obtain ⟨derived, few⟩ := (restricts_primary limit).mp read
      exact ⟨.primary derived, few⟩
    | call _ opening arguments marker ih =>
      obtain ⟨derived, few⟩ := (restricts_listed (restricts_plain limit)).mp arguments
      refine ⟨.call ih.1 opening derived marker, ?_⟩
      change Expr.nots _ ≤ limit
      rw [Expr.nots]
      exact Nat.max_le.mpr ⟨ih.2, Expr.allNots_le_iff.mpr few⟩
  · rintro ⟨derived, few⟩
    induction derived with
    | primary derived => exact .primary derived
    | call _ opening arguments marker ih =>
      rw [Expr.nots, Nat.max_le, Expr.allNots_le_iff] at few
      exact .call (ih few.1) opening ((restricts_listed (restricts_plain limit)).mpr
        ⟨arguments, few.2⟩) marker

theorem restricts_expression (limit : Nat) :
    Restricts (fun expr => expr.nots ≤ limit) Expression (Grammar.Expression limit) :=
  restricts_expressionOver (restricts_called limit) leadingNots_of_called

theorem restricts_condition (limit : Nat) :
    Restricts (fun expr => expr.nots ≤ limit) Condition (Grammar.Condition limit) := by
  intro before test after
  constructor
  · rintro ⟨opening, read, closing⟩
    obtain ⟨derived, few⟩ := (restricts_plain limit).mp read
    exact ⟨.intro opening derived closing, few⟩
  · rintro ⟨⟨opening, derived, closing⟩, few⟩
    exact .intro opening ((restricts_plain limit).mpr ⟨derived, few⟩) closing

end Expressions

section Statements

variable {before after : List Token} {statement : Stmt} {expr : Expr}

theorem isPrinterCall_iff (expr : Expr) : Parser.isPrinterCall expr = true ↔ CallsPrinter expr := by
  unfold Parser.isPrinterCall
  split
  next span nameSpan token marker arguments =>
    rw [List.contains_iff_mem]
    constructor
    · intro mem
      exact ⟨span, nameSpan, token, marker, arguments, rfl, mem⟩
    · rintro ⟨_, _, _, _, _, same, mem⟩
      cases same
      exact mem
  next other =>
    refine ⟨nofun, ?_⟩
    rintro ⟨span, nameSpan, token, marker, arguments, rfl, _⟩
    exact absurd rfl (other _ _ _ _ _)

theorem statement_printed (derived : Expression before expr after) :
    Statement before (Grammar.printed expr) after := by
  unfold Grammar.printed
  split
  next calls => exact .printer derived ((isPrinterCall_iff expr).mp calls)
  next other => exact .wrapped derived fun calls => other ((isPrinterCall_iff expr).mpr calls)

theorem printed_of_callsPrinter (calls : CallsPrinter expr) :
    Grammar.printed expr = .expression expr.span expr false := by
  rw [Grammar.printed, if_pos ((isPrinterCall_iff expr).mpr calls)]

theorem printed_of_not_callsPrinter (other : ¬ CallsPrinter expr) :
    Grammar.printed expr = .expression expr.span (printing expr) true := by
  rw [Grammar.printed, if_neg fun calls => other ((isPrinterCall_iff expr).mp calls)]
  rfl

theorem nots_printing (expr : Expr) : (printing expr).nots = expr.nots := by
  simp [printing, Expr.nots, Expr.allNots]

theorem nesting_printed (expr : Expr) : (Grammar.printed expr).nesting = expr.nots + 1 := by
  by_cases calls : CallsPrinter expr
  · rw [printed_of_callsPrinter calls, Stmt.nesting]
  · rw [printed_of_not_callsPrinter calls, Stmt.nesting, nots_printing]

theorem lineCost_of_statement (derived : Statement before statement after) :
    statement.lineCost = 1 := by
  cases derived <;> rfl

theorem restricts_lines {fits : Stmt → Prop} {free bounded : Phrase Stmt}
    (restricts : Restricts fits free bounded) :
    Restricts (fun statements => ∀ statement ∈ statements, fits statement) (Lines free)
      (Lines bounded) := by
  intro before statements after
  constructor
  · intro read
    induction read with
    | nil => exact ⟨.nil, nofun⟩
    | lineEnd kind _ ih => exact ⟨.lineEnd kind ih.1, ih.2⟩
    | cons first _ ih =>
      obtain ⟨derived, fit⟩ := restricts.mp first
      exact ⟨.cons derived ih.1, List.forall_mem_cons.mpr ⟨fit, ih.2⟩⟩
  · rintro ⟨derived, fit⟩
    induction derived with
    | nil => exact .nil
    | lineEnd kind _ ih => exact .lineEnd kind (ih fit)
    | cons first _ ih =>
      obtain ⟨here, others⟩ := List.forall_mem_cons.mp fit
      exact .cons (restricts.mpr ⟨first, here⟩) (ih others)

end Statements

theorem nearestElse_printed (expr : Expr) : (Grammar.printed expr).NearestElse := by
  unfold Grammar.printed
  split <;> trivial

/-- The statement is read as a branch within `depth` levels. -/
def FitsBranch (depth : Nat) (statement : Stmt) : Prop :=
  statement.nesting ≤ depth ∧ statement.NearestElse

/-- The statement is read as a line within `depth` levels. -/
def FitsLine (depth : Nat) (statement : Stmt) : Prop :=
  statement.lineNesting ≤ depth ∧ statement.NearestElse

theorem forall_fitsLine_iff {depth : Nat} {statements : List Stmt} :
    (∀ statement ∈ statements, FitsLine depth statement) ↔
      Stmt.linesNesting statements ≤ depth ∧ Stmt.AllNearestElse statements := by
  rw [Stmt.linesNesting_le_iff, Stmt.allNearestElse_iff]
  exact ⟨fun fits => ⟨fun statement mem => (fits statement mem).1,
      fun statement mem => (fits statement mem).2⟩,
    fun both statement mem => ⟨both.1 statement mem, both.2 statement mem⟩⟩

/-- One layer of the counted rules is the rules for what fits into it. -/
structure RestrictsLayer (depth : Nat) : Prop where
  statement : Restricts (FitsBranch depth) Statement (Grammar.Statement depth)
  declaration : ∀ nested, Restricts (FitsLine depth) (Declaration nested)
    (Grammar.Declaration nested depth)
  body : ∀ {before after : List Token} {statements : List Stmt} {dot : Token},
    Grammar.Body depth before (statements, dot) after ↔
      (Lines (Declaration true) before statements (dot :: after) ∧ dot.kind = .dot) ∧
        Stmt.linesNesting statements < depth ∧ Stmt.AllNearestElse statements

section Layer

variable {depth : Nat} {before after : List Token} {statement : Stmt}

/-- A statement that the counted rules read is one of the grammar, nested no deeper than they count
and with each `else` at the nearest condition. -/
theorem statement_of_counted (layer : RestrictsLayer depth)
    (read : Grammar.Statement (depth + 1) before statement after) :
    Statement before statement after ∧ FitsBranch (depth + 1) statement := by
  unfold FitsBranch
  cases read with
  | condition kind test yes =>
    obtain ⟨test, testFits⟩ := (restricts_condition depth).mp test
    obtain ⟨yes, yesFits, yesNearest⟩ := layer.statement.mp yes
    refine ⟨.condition kind test yes, ?_, yesNearest⟩
    rw [Stmt.nesting]
    omega
  | alternative kind test yes closed ends elseKind no =>
    obtain ⟨test, testFits⟩ := (restricts_condition depth).mp test
    obtain ⟨yes, yesFits, yesNearest⟩ := layer.statement.mp yes
    obtain ⟨no, noFits, noNearest⟩ := layer.statement.mp no
    refine ⟨.alternative kind test yes ends elseKind no, ?_, closed, yesNearest, noNearest⟩
    rw [Stmt.nesting]
    omega
  | giveNothing kind stop =>
    exact ⟨.giveNothing kind stop, Nat.succ_le_succ (Nat.zero_le _), trivial⟩
  | giveBack kind value =>
    obtain ⟨value, fits⟩ := (restricts_expression depth).mp value
    exact ⟨.giveBack kind value, Nat.succ_le_succ fits, trivial⟩
  | loop kind test inside =>
    obtain ⟨test, testFits⟩ := (restricts_condition depth).mp test
    obtain ⟨inside, insideFits, nearest⟩ := layer.statement.mp inside
    refine ⟨.loop kind test inside, ?_, nearest⟩
    rw [Stmt.nesting]
    omega
  | block kind inside =>
    obtain ⟨⟨lines, dot⟩, fits, nearest⟩ := layer.body.mp inside
    refine ⟨.block kind lines dot, ?_, nearest⟩
    rw [Stmt.nesting]
    omega
  | expression expr =>
    obtain ⟨derived, fits⟩ := (restricts_expression depth).mp expr
    refine ⟨statement_printed derived, ?_, nearestElse_printed _⟩
    rw [nesting_printed]
    omega

/-- A statement of the grammar that is nested no deeper, with each `else` at the nearest condition,
is read by the counted rules. -/
theorem counted_of_statement (layer : RestrictsLayer depth)
    (derived : Statement before statement after) (fits : FitsBranch (depth + 1) statement) :
    Grammar.StatementRule depth (Grammar.Statement depth) (Grammar.Body depth) before statement
      after := by
  obtain ⟨fits, nearest⟩ := fits
  cases derived with
  | condition kind test yes =>
    rw [Stmt.nesting] at fits
    exact .condition kind ((restricts_condition depth).mpr ⟨test, by omega⟩)
      (layer.statement.mpr ⟨yes, by omega, nearest⟩)
  | alternative kind test yes ends elseKind no =>
    rw [Stmt.nesting] at fits
    obtain ⟨closed, yesNearest, noNearest⟩ := nearest
    exact .alternative kind ((restricts_condition depth).mpr ⟨test, by omega⟩)
      (layer.statement.mpr ⟨yes, by omega, yesNearest⟩) closed ends elseKind
      (layer.statement.mpr ⟨no, by omega, noNearest⟩)
  | giveNothing kind stop => exact .giveNothing kind stop
  | giveBack kind value =>
    exact .giveBack kind ((restricts_expression depth).mpr ⟨value, Nat.le_of_succ_le_succ fits⟩)
  | loop kind test inside =>
    rw [Stmt.nesting] at fits
    exact .loop kind ((restricts_condition depth).mpr ⟨test, by omega⟩)
      (layer.statement.mpr ⟨inside, by omega, nearest⟩)
  | block kind lines dot =>
    rw [Stmt.nesting] at fits
    exact .block kind (layer.body.mpr ⟨⟨lines, dot⟩, by omega, nearest⟩)
  | printer expr calls =>
    rw [Stmt.nesting] at fits
    rw [← printed_of_callsPrinter calls]
    exact .expression ((restricts_expression depth).mpr ⟨expr, Nat.le_of_succ_le_succ fits⟩)
  | wrapped expr other =>
    rw [Stmt.nesting, nots_printing] at fits
    rw [← printed_of_not_callsPrinter other]
    exact .expression ((restricts_expression depth).mpr ⟨expr, Nat.le_of_succ_le_succ fits⟩)

/-- A declaration that the counted rules read is one of the grammar and fits on a line of its own.
-/
theorem declaration_of_counted (layer : RestrictsLayer depth) {nested : Bool}
    (read : Grammar.Declaration nested (depth + 1) before statement after) :
    Declaration nested before statement after ∧ FitsLine (depth + 1) statement := by
  unfold FitsLine
  cases read with
  | remark kind text => exact ⟨.remark kind text, Nat.succ_le_succ (Nat.zero_le _), trivial⟩
  | directive outside kind name value =>
    subst outside
    exact ⟨.directive kind name value, Nat.succ_le_succ (Nat.zero_le _), trivial⟩
  | directiveBe outside kind name be value =>
    subst outside
    exact ⟨.directiveBe kind name be value, Nat.succ_le_succ (Nat.zero_le _), trivial⟩
  | function kind name opening params closing colon inside =>
    obtain ⟨⟨lines, dot⟩, fits, nearest⟩ := layer.body.mp inside
    refine ⟨.function kind name opening params closing colon lines dot, ?_, nearest⟩
    rw [Stmt.lineNesting, Stmt.nesting, Stmt.lineCost]
    omega
  | binding kind name => exact ⟨.binding kind name, Nat.succ_le_succ (Nat.zero_le _), trivial⟩
  | bindingBe kind name be value =>
    obtain ⟨value, fits⟩ := (restricts_expression depth).mp value
    exact ⟨.bindingBe kind name be value, Nat.succ_le_succ fits, trivial⟩
  | statement read =>
    obtain ⟨derived, fits, nearest⟩ := layer.statement.mp read
    refine ⟨.statement derived, ?_, nearest⟩
    rw [Stmt.lineNesting, lineCost_of_statement derived]
    omega

/-- A declaration of the grammar that fits on a line of its own is read by the counted rules. -/
theorem counted_of_declaration (layer : RestrictsLayer depth) {nested : Bool}
    (derived : Declaration nested before statement after) (fits : FitsLine (depth + 1) statement) :
    Grammar.DeclarationRule nested depth (Grammar.Statement depth) (Grammar.Body depth) before
      statement after := by
  obtain ⟨fits, nearest⟩ := fits
  rw [Stmt.lineNesting] at fits
  cases derived with
  | remark kind text => exact .remark kind text
  | directive kind name value => exact .directive rfl kind name value
  | directiveBe kind name be value => exact .directiveBe rfl kind name be value
  | function kind name opening params closing colon lines dot =>
    rw [Stmt.nesting, Stmt.lineCost] at fits
    exact .function kind name opening params closing colon
      (layer.body.mpr ⟨⟨lines, dot⟩, by omega, nearest⟩)
  | binding kind name => exact .binding kind name
  | bindingBe kind name be value =>
    exact .bindingBe kind name be
      ((restricts_expression depth).mpr ⟨value, Nat.le_of_succ_le_succ fits⟩)
  | statement derived =>
    rw [lineCost_of_statement derived] at fits
    exact .statement (layer.statement.mpr ⟨derived, by omega, nearest⟩)

theorem body_succ_iff (layer : RestrictsLayer depth) {statements : List Stmt} {dot : Token} :
    Grammar.Body (depth + 1) before (statements, dot) after ↔
      (Lines (Declaration true) before statements (dot :: after) ∧ dot.kind = .dot) ∧
        Stmt.linesNesting statements < depth + 1 ∧ Stmt.AllNearestElse statements := by
  change Grammar.BodyRule (Grammar.Declaration true depth) _ _ _ ↔ _
  rw [Nat.lt_succ_iff, ← forall_fitsLine_iff]
  constructor
  · rintro ⟨lines, kind⟩
    obtain ⟨derived, fits⟩ := (restricts_lines (layer.declaration true)).mp lines
    exact ⟨⟨derived, kind⟩, fits⟩
  · rintro ⟨⟨derived, kind⟩, fits⟩
    exact .intro ((restricts_lines (layer.declaration true)).mpr ⟨derived, fits⟩) kind

end Layer

theorem restricts_layer (depth : Nat) : RestrictsLayer depth := by
  induction depth with
  | zero =>
    refine ⟨?_, fun nested => ?_, ⟨False.elim, fun both => absurd both.2.1 (Nat.not_lt_zero _)⟩⟩
    · intro before statement after
      exact ⟨False.elim, fun both => absurd both.2.1 (Nat.not_le_of_lt statement.nesting_pos)⟩
    · intro before statement after
      exact ⟨False.elim, fun both => absurd both.2.1 (Nat.not_le_of_lt statement.lineNesting_pos)⟩
  | succ depth layer =>
    refine ⟨?_, fun nested => ?_, body_succ_iff layer⟩
    · intro before statement after
      exact ⟨statement_of_counted layer, fun both => counted_of_statement layer both.1 both.2⟩
    · intro before statement after
      exact ⟨declaration_of_counted layer, fun both => counted_of_declaration layer both.1 both.2⟩

/-- The counted rules read a program exactly if it is derived, gives each `else` to the nearest
condition, and is not nested too deeply. -/
theorem reads_iff {depth : Nat} {tokens : List Token} {program : Program} :
    Grammar.Reads depth tokens program ↔
      Derives tokens program ∧ program.nesting ≤ depth ∧ program.NearestElse := by
  rw [Program.nesting, Program.NearestElse, ← forall_fitsLine_iff]
  have lines := restricts_lines ((restricts_layer depth).declaration false)
  exact @lines tokens program []

/-- What holds of the statements and lines that are nested one level more wherever it holds of
those inside them, holds of all that are nested at most `depth` deep. -/
theorem layer_of_succ (holds : Nat → Phrase Stmt → Prop) (zero : ∀ form, holds 0 form)
    (statement : ∀ {depth}, holds depth Statement → holds depth (Declaration true) →
      holds (depth + 1) Statement)
    (declaration : ∀ {depth} (nested : Bool), holds (depth + 1) Statement →
      holds depth (Declaration true) → holds (depth + 1) (Declaration nested)) (depth : Nat) :
    holds depth Statement ∧ ∀ nested, holds depth (Declaration nested) := by
  induction depth with
  | zero => exact ⟨zero _, fun _ => zero _⟩
  | succ depth ih =>
    obtain ⟨branches, lines⟩ := ih
    have statements := statement branches (lines true)
    exact ⟨statements, fun nested => declaration nested statements (lines true)⟩

end Derivation

end Marginalia
