import Marginalia.Proofs.Reading.Callees
import Marginalia.Proofs.Reading.Followed
import Marginalia.Proofs.Scanning.Cuts

/-!
# The tokens of a statement

Every statement of a program, at whatever depth, has tokens of its own: those from the first to
the last that its span goes along (`Frames`). By themselves, with nothing behind them, they derive
this statement and no more (`Covers`): what a statement looks at behind its tokens is either there
or ends a line, and the end of the text ends a line, too.

The statements right inside a statement stand among its tokens one behind the other, and those of a
program among the tokens of the program (`Spread`). So the tokens of every statement are a part of
the tokens of the program, and that part is not cut off in the middle of a remark
(`Derives.exists_part`).
-/

namespace Marginalia

/-! ## Statements in statements -/

/-- The statements right inside a statement, in their order. -/
def Stmt.children : Stmt → List Stmt
  | .block _ statements | .function _ _ _ statements => statements
  | .condition _ _ yes none => [yes]
  | .condition _ _ yes (some no) => [yes, no]
  | .loop _ _ body => [body]
  | .expression _ _ _ | .binding _ _ _ | .giveBack _ _ _ | .directive _ _ _ | .remark _ _
  | .unknown _ _ _ => []

/-- The statement stands in the program, at the top or at any depth inside another one. -/
inductive Program.Has (program : Program) : Stmt → Prop
  | top {statement : Stmt} : statement ∈ program → program.Has statement
  | inner {outer statement : Stmt} :
    program.Has outer → statement ∈ outer.children → program.Has statement

namespace Stmt

variable {statement child : Stmt}

theorem children_condition (span : Span) (test : Expr) (yes : Stmt) (no : Option Stmt) :
    (condition span test yes no).children = yes :: no.toList := by
  cases no <;> rfl

theorem lineCost_le (statement : Stmt) : statement.lineCost ≤ 1 := by
  cases statement <;> simp [lineCost]

/-- What stands in a statement nests no deeper than the statement, each as a line of its own. -/
theorem lineNesting_child_le (mem : child ∈ statement.children) :
    child.lineNesting ≤ statement.lineNesting := by
  have cost := child.lineCost_le
  have line : statement.nesting ≤ statement.lineNesting := Nat.le_add_right _ _
  unfold lineNesting at *
  cases statement with
  | block _ statements | function _ _ _ statements =>
    have inside := linesNesting_le_iff.mp (Nat.le_refl (linesNesting statements)) child mem
    rw [lineNesting] at inside
    rw [nesting] at line ⊢
    omega
  | condition _ test yes no =>
    cases no with
    | none =>
      obtain rfl := List.mem_singleton.mp mem
      rw [nesting] at line ⊢
      omega
    | some no =>
      rw [nesting] at line ⊢
      obtain rfl | rfl : child = yes ∨ child = no := by simpa [children] using mem
      · omega
      · omega
  | loop _ test body =>
    obtain rfl := List.mem_singleton.mp mem
    rw [nesting] at line ⊢
    omega
  | _ => cases mem

theorem nearestElse_child (nearest : statement.NearestElse) (mem : child ∈ statement.children) :
    child.NearestElse := by
  cases statement with
  | block _ statements | function _ _ _ statements => exact allNearestElse_iff.mp nearest child mem
  | condition _ test yes no =>
    cases no with
    | none =>
      obtain rfl := List.mem_singleton.mp mem
      exact nearest
    | some no =>
      obtain ⟨_, first, second⟩ := nearest
      obtain rfl | rfl : child = yes ∨ child = no := by simpa [children] using mem
      · exact first
      · exact second
  | loop _ test body =>
    obtain rfl := List.mem_singleton.mp mem
    exact nearest
  | _ => cases mem

end Stmt

namespace Program.Has

variable {program : Program} {statement : Stmt}

theorem lineNesting_le (has : program.Has statement) : statement.lineNesting ≤ program.nesting := by
  induction has with
  | top mem => exact Stmt.linesNesting_le_iff.mp (Nat.le_refl _) _ mem
  | inner _ mem ih => exact Nat.le_trans (Stmt.lineNesting_child_le mem) ih

theorem nearestElse (has : program.Has statement) (nearest : program.NearestElse) :
    statement.NearestElse := by
  induction has with
  | top mem => exact Stmt.allNearestElse_iff.mp nearest _ mem
  | inner _ mem ih => exact Stmt.nearestElse_child ih mem

end Program.Has

/-! ## Spans along tokens -/

/-- The span runs from the first of the tokens to the last, which is not the mark of a remark. -/
structure Frames (tokens : List Token) (span : Span) : Prop where
  begins : ∃ first later, tokens = first :: later ∧ span.start = first.span.start
  ends : ∃ front last, tokens = front ++ [last] ∧ last.kind ≠ .dagger ∧
    span.stop = last.span.stop

namespace Frames

variable {front tokens : List Token} {first last : Token} {kind : TokenKind} {span : Span}

theorem whole (frames : Frames tokens span) : Whole tokens := by
  obtain ⟨front, last, rfl, other, _⟩ := frames.ends
  exact .of_last front other

theorem single (same : first.kind = kind) (other : kind ≠ .dagger) : Frames [first] first.span :=
  ⟨⟨first, [], rfl, rfl⟩, ⟨[], first, rfl, same ▸ other, rfl⟩⟩

/-- A span up to the last of some tokens. -/
theorem upToLast (first : Token) (front : List Token) (same : last.kind = kind)
    (other : kind ≠ .dagger) : Frames (first :: front ++ [last]) (first.span.upTo last.span) :=
  ⟨⟨first, front ++ [last], rfl, rfl⟩, ⟨first :: front, last, rfl, same ▸ other, rfl⟩⟩

/-- A span up to the end of another one. -/
theorem upTo (first : Token) (front : List Token) (frames : Frames tokens span) :
    Frames (first :: front ++ tokens) (first.span.upTo span) := by
  obtain ⟨middle, last, rfl, other, stop⟩ := frames.ends
  refine ⟨⟨first, _, rfl, rfl⟩, first :: front ++ middle, last, ?_, other, stop⟩
  rw [List.append_assoc]

end Frames

namespace Derivation

open Grammar (Phrase Primary LeftGrouped Separated Listed Name LineEnds Lines)

section Expressions

/-- The expression stops where the last of its tokens does, which is not the mark of a remark. -/
def Closes (form : Phrase Expr) : Prop :=
  ∀ ⦃before : List Token⦄ ⦃expr : Expr⦄ ⦃after : List Token⦄, form before expr after →
    ∃ front last, before = front ++ last :: after ∧ last.kind ≠ .dagger ∧
      expr.span.stop = last.span.stop

variable {operand : Phrase Expr}

theorem closes_primary : Closes Primary := by
  intro before expr after read
  cases read with
  | falsehood kind | truth kind | nothing kind | text kind | name kind =>
    refine ⟨[], _, rfl, ?_, rfl⟩
    rw [kind]
    decide

theorem closes_negated (closes : Closes operand) : Closes (Negated operand) := by
  intro before expr after read
  induction read with
  | operand read => exact closes read
  | @negation _ _ operator _ _ _ ih =>
    obtain ⟨front, last, rfl, other, stop⟩ := ih
    exact ⟨operator :: front, last, rfl, other, stop⟩

theorem closes_leftGrouped {node : Span → Expr → Token → Expr → Expr} {kinds : List TokenKind}
    (detaches : Detaches Anything operand) (closes : Closes operand)
    (spans : ∀ span left operator right, (node span left operator right).span = span) :
    Closes (LeftGrouped node kinds operand) := by
  intro before expr after read
  cases read with
  | single read => exact closes read
  | @more _ _ _ operator _ _ left _ right =>
    obtain ⟨taken, rfl, _⟩ := detaches_leftGrouped detaches left
    obtain ⟨front, last, rfl, other, stop⟩ := closes right
    refine ⟨taken ++ operator :: front, last, ?_, other, ?_⟩
    · rw [List.append_assoc, List.cons_append]
    · rw [spans]
      exact stop

theorem closes_expressionOver (detaches : Detaches Anything operand) (closes : Closes operand) :
    Closes (ExpressionOver operand) := by
  have negated := detaches_negated detaches
  apply closes_leftGrouped (detaches_leftGrouped (detaches_leftGrouped negated)) _
    fun _ _ _ _ => rfl
  apply closes_leftGrouped (detaches_leftGrouped negated) _ fun _ _ _ _ => rfl
  apply closes_leftGrouped negated _ fun _ _ _ _ => rfl
  exact closes_negated closes

theorem closes_called : Closes Called := by
  intro before expr after read
  cases read with
  | primary read => exact closes_primary read
  | @call _ _ _ opening marker _ _ callee _ arguments markerKind =>
    obtain ⟨called, rfl, _⟩ := detaches_called callee
    obtain ⟨listed, rfl, _⟩ := detaches_listed detaches_plain arguments
    refine ⟨called ++ opening :: listed, marker, ?_, ?_, rfl⟩
    · rw [List.append_assoc, List.cons_append]
    · rw [markerKind]
      decide

theorem frames_expression {part : List Token} {expr : Expr} (read : Expression part expr []) :
    Frames part expr.span := by
  obtain ⟨front, last, whole, other, stop⟩ :=
    closes_expressionOver detaches_called closes_called read
  refine ⟨?_, front, last, whole, other, stop⟩
  cases part with
  | nil => exact absurd whole.symm (List.append_ne_nil_of_right_ne_nil _ (List.cons_ne_nil _ _))
  | cons first later =>
    have start := Grammar.beginsFirst_expressionOver Grammar.beginsFirst_called read
    exact ⟨first, later, rfl, start⟩

end Expressions

/-! ## Statements by themselves -/

/-- The phrases of the form that are nested at most `depth` deep, and have nothing behind them, run
along all their tokens. -/
def FramesWithin (depth : Nat) (form : Phrase Stmt) : Prop :=
  ∀ ⦃part : List Token⦄ ⦃statement : Stmt⦄, form part statement [] → statement.nesting ≤ depth →
    Frames part statement.span

section Statements

variable {depth : Nat}

/-- A statement of one more level runs along all its tokens, from its first one to the last. -/
theorem framesWithin_statement_succ (branches : FramesWithin depth Statement) :
    FramesWithin (depth + 1) Statement := by
  intro part statement derived fits
  cases derived with
  | condition kind test yes =>
    rw [Stmt.nesting] at fits
    obtain ⟨tested, rfl, _⟩ := detaches_condition test
    exact (branches yes (by omega)).upTo _ tested
  | @alternative _ _ _ ends _ ifToken elseToken _ _ _ kind test yes lineEnds elseKind no =>
    rw [Stmt.nesting] at fits
    obtain ⟨tested, rfl, _⟩ := detaches_condition test
    obtain ⟨first, rfl, _⟩ := detaches_statement yes
    have frames := (branches no (by omega)).upTo ifToken (tested ++ first ++ ends ++ [elseToken])
    simp only [List.append_assoc, List.cons_append, List.nil_append] at frames
    exact frames
  | giveNothing kind _ => exact .single kind (by decide)
  | giveBack kind value => exact (frames_expression value).upTo _ []
  | loop kind test inside =>
    rw [Stmt.nesting] at fits
    obtain ⟨tested, rfl, _⟩ := detaches_condition test
    exact (branches inside (by omega)).upTo _ tested
  | block kind inside dotKind =>
    obtain ⟨taken, rfl, _⟩ := detaches_lines true inside
    exact .upToLast _ taken dotKind (by decide)
  | printer expr _ | wrapped expr _ => exact frames_expression expr

/-- So does a declaration, of whatever kind. -/
theorem framesWithin_declaration_succ (nested : Bool)
    (branches : FramesWithin (depth + 1) Statement) :
    FramesWithin (depth + 1) (Declaration nested) := by
  intro part statement derived fits
  cases derived with
  | remark kind text => exact .upToLast _ [] text (by decide)
  | @directive _ pound name value kind nameKind valueKind =>
    exact .upToLast pound [name] valueKind (by decide)
  | @directiveBe _ pound name be value kind nameKind beKind valueKind =>
    exact .upToLast pound [name, be] valueKind (by decide)
  | @function _ _ _ _ params toToken name opening closing colon dot _ kind nameKind openingKind
      listed closingKind colonKind inside dotKind =>
    obtain ⟨taken, rfl, _⟩ := detaches_lines true inside
    obtain ⟨names, rfl, _⟩ := detaches_listed detaches_name listed
    have frames := Frames.upToLast toToken
      (name :: opening :: names ++ closing :: colon :: taken) dotKind (by decide)
    simp only [List.append_assoc, List.cons_append] at frames
    exact frames
  | binding kind name => exact .upToLast _ [] name (by decide)
  | @bindingBe _ _ _ letToken name be _ kind nameKind beKind value =>
    exact (frames_expression value).upTo letToken [name, be]
  | statement derived => exact branches derived fits

theorem framesWithin_layer (depth : Nat) :
    FramesWithin depth Statement ∧ ∀ nested, FramesWithin depth (Declaration nested) :=
  layer_of_succ FramesWithin
    (fun _ _ statement _ fits => absurd fits (Nat.not_le_of_lt statement.nesting_pos))
    (fun branches _ => framesWithin_statement_succ branches)
    (fun nested branches _ => framesWithin_declaration_succ nested branches) depth

end Statements

end Derivation

/-! ## Parts -/

/-- The tokens are those of the statement: it runs along all of them, and they derive it by
themselves. -/
structure Covers (part : List Token) (statement : Stmt) : Prop where
  frames : Frames part statement.span
  derived : Derivation.Declaration false part statement []

/-- The statements stand among the tokens one behind the other, and no remark is cut before any of
them. -/
inductive Spread : List Token → List Stmt → Prop
  | nil {tokens : List Token} : Spread tokens []
  | skip {front tokens : List Token} {statements : List Stmt} :
    Whole front → Spread tokens statements → Spread (front ++ tokens) statements
  | cons {part tokens : List Token} {statement : Stmt} {statements : List Stmt} :
    Covers part statement → Spread tokens statements →
    Spread (part ++ tokens) (statement :: statements)

section

open Marginalia.Derivation
open Grammar (Lines)

variable {before after tokens : List Token} {statement : Stmt} {statements : List Stmt}
  {nested : Bool}

/-- What may stand in a block may stand at the top. -/
theorem declaration_at_top (derived : Declaration nested before statement after) :
    Declaration false before statement after := by
  cases derived with
  | remark kind text => exact .remark kind text
  | directive kind name value => exact .directive kind name value
  | directiveBe kind name be value => exact .directiveBe kind name be value
  | function kind name opening params closing colon inside dot =>
    exact .function kind name opening params closing colon inside dot
  | binding kind name => exact .binding kind name
  | bindingBe kind name be value => exact .bindingBe kind name be value
  | statement derived => exact .statement derived

theorem exists_covers (derived : Declaration nested before statement after) :
    ∃ part, before = part ++ after ∧ Covers part statement := by
  obtain ⟨part, rfl, free⟩ := detaches_declaration nested derived
  -- The end of the text ends a line, and that is all a bare return asks of what follows it.
  have alone := free [] (.inr (by decide))
  rw [List.append_nil] at alone
  exact ⟨part, rfl, (framesWithin_layer _).2 nested alone (Nat.le_refl _), declaration_at_top alone⟩

theorem exists_covers_of_statement (derived : Statement before statement after) :
    ∃ part, before = part ++ after ∧ Covers part statement :=
  exists_covers (.statement derived : Declaration false before statement after)

theorem spread_of_lines (lines : Lines (Declaration nested) before statements after) :
    Spread before statements := by
  induction lines with
  | nil => exact .nil
  | @lineEnd _ _ token _ kind _ ih =>
    have whole : Whole [token] := .of_last [] (kind ▸ by decide)
    exact .skip whole ih
  | cons first _ ih =>
    obtain ⟨part, rfl, covers⟩ := exists_covers first
    exact .cons covers ih

/-- A condition ends with a dash. -/
theorem exists_whole_of_condition {test : Expr} (read : Condition before test after) :
    ∃ tested, before = tested ++ after ∧ Whole tested := by
  cases read with
  | @intro _ _ opening closing _ _ test closingKind =>
    obtain ⟨taken, rfl, _⟩ := detaches_plain test
    exact ⟨opening :: taken ++ [closing], by simp, .of_last _ (closingKind ▸ by decide)⟩

/-- The statements right inside a statement stand among its tokens. -/
theorem Covers.spread (covers : Covers tokens statement) : Spread tokens statement.children := by
  cases covers.derived with
  | remark _ _ | directive _ _ _ | directiveBe _ _ _ _ | binding _ _ | bindingBe _ _ _ _ =>
    exact .nil
  | @function _ _ _ _ _ toToken name opening closing colon _ _ _ _ _ params _ colonKind inside _ =>
    obtain ⟨names, rfl, _⟩ := detaches_listed detaches_name params
    have whole : Whole (toToken :: name :: opening :: names ++ [closing] ++ [colon]) :=
      .of_last _ (colonKind ▸ by decide)
    have spread := Spread.skip whole (spread_of_lines inside)
    simp only [List.append_assoc, List.cons_append, List.nil_append] at spread
    exact spread
  | statement derived =>
    cases derived with
    | giveNothing _ _ | giveBack _ _ | printer _ _ | wrapped _ _ => exact .nil
    | @block _ _ colon _ _ kind inside _ =>
      have whole : Whole [colon] := .of_last [] (kind ▸ by decide)
      exact .skip whole (spread_of_lines inside)
    | @loop _ _ _ whileToken _ _ kind test inside =>
      obtain ⟨tested, rfl, whole⟩ := exists_whole_of_condition test
      obtain ⟨part, rfl, inner⟩ := exists_covers_of_statement inside
      have first : Whole [whileToken] := .of_last [] (kind ▸ by decide)
      exact .skip first (.skip whole (.cons inner .nil))
    | @condition _ _ _ ifToken _ _ kind test yes =>
      obtain ⟨tested, rfl, whole⟩ := exists_whole_of_condition test
      obtain ⟨part, rfl, inner⟩ := exists_covers_of_statement yes
      have first : Whole [ifToken] := .of_last [] (kind ▸ by decide)
      exact .skip first (.skip whole (.cons inner .nil))
    | @alternative _ _ _ ends _ ifToken elseToken _ _ _ kind test yes _ elseKind no =>
      obtain ⟨tested, rfl, whole⟩ := exists_whole_of_condition test
      obtain ⟨part, rfl, inner⟩ := exists_covers_of_statement yes
      obtain ⟨others, rfl, otherCovers⟩ := exists_covers_of_statement no
      have first : Whole [ifToken] := .of_last [] (kind ▸ by decide)
      have between : Whole (ends ++ [elseToken]) := .of_last ends (elseKind ▸ by decide)
      have spread := Spread.skip between (.cons otherCovers (@Spread.nil []))
      rw [List.append_assoc] at spread
      exact .skip first (.skip whole (.cons inner spread))

/-- A statement has a part of the tokens to itself. -/
theorem Spread.exists_part (spread : Spread tokens statements) (mem : statement ∈ statements) :
    ∃ front part behind, tokens = front ++ part ++ behind ∧ Whole front ∧
      Covers part statement := by
  induction spread with
  | nil => cases mem
  | @skip skipped _ _ whole _ ih =>
    obtain ⟨front, part, behind, rfl, rest, covers⟩ := ih mem
    refine ⟨skipped ++ front, part, behind, ?_, whole.append rest, covers⟩
    simp only [List.append_assoc]
  | @cons first tokens _ _ covers _ ih =>
    rcases List.mem_cons.mp mem with rfl | mem
    · exact ⟨[], first, tokens, rfl, .nil, covers⟩
    · obtain ⟨front, part, behind, rfl, rest, inner⟩ := ih mem
      refine ⟨first ++ front, part, behind, ?_, covers.frames.whole.append rest, inner⟩
      simp only [List.append_assoc]

/-- Every statement of a program, at whatever depth, has a part of its tokens to itself. -/
theorem Derives.exists_part {program : Program} (derives : Derives tokens program)
    (has : program.Has statement) :
    ∃ front part behind, tokens = front ++ part ++ behind ∧ Whole front ∧
      Covers part statement := by
  induction has with
  | top mem => exact (spread_of_lines derives).exists_part mem
  | inner _ mem ih =>
    obtain ⟨front, part, behind, rfl, whole, covers⟩ := ih
    obtain ⟨more, inside, rest, rfl, moreWhole, inner⟩ := covers.spread.exists_part mem
    refine ⟨front ++ more, inside, rest ++ behind, ?_, whole.append moreWhole, inner⟩
    simp only [List.append_assoc]

end

/-! ## Order -/

/-- Tokens one behind the other. -/
structure InOrder (tokens : List Token) : Prop where
  apart : tokens.Pairwise fun earlier later => earlier.span.stop.index ≤ later.span.start.index
  forward : ∀ token ∈ tokens, token.span.start.index ≤ token.span.stop.index

theorem InOrder.sublist {part tokens : List Token} (order : InOrder tokens)
    (inside : part.Sublist tokens) : InOrder part :=
  ⟨order.apart.sublist inside, fun token mem => order.forward token (inside.subset mem)⟩

/-- What runs along tokens reaches around each of them. -/
theorem Frames.around {tokens : List Token} {span : Span} {token : Token}
    (frames : Frames tokens span) (order : InOrder tokens) (mem : token ∈ tokens) :
    span.start.index ≤ token.span.start.index ∧ token.span.stop.index ≤ span.stop.index := by
  obtain ⟨first, later, whole, start⟩ := frames.begins
  obtain ⟨front, last, ends, _, stop⟩ := frames.ends
  rw [start, stop]
  constructor
  · have apart := order.apart
    have forward := order.forward
    rw [whole] at apart forward mem
    rcases List.mem_cons.mp mem with rfl | mem
    · exact Int.le_refl _
    · have long := forward first List.mem_cons_self
      have far := List.rel_of_pairwise_cons apart mem
      omega
  · have apart := order.apart
    have forward := order.forward
    rw [ends] at apart forward mem
    rcases List.mem_append.mp mem with mem | mem
    · have long := forward last (List.mem_append_right _ List.mem_cons_self)
      have far := (List.pairwise_append.mp apart).2.2 token mem last List.mem_cons_self
      omega
    · obtain rfl := List.mem_singleton.mp mem
      exact Int.le_refl _

section

variable {tokens : List Token} {statements : List Stmt} {statement : Stmt}

/-- A statement among the tokens begins and ends with one of them. -/
theorem Spread.exists_ends (spread : Spread tokens statements) (mem : statement ∈ statements) :
    (∃ first ∈ tokens, statement.span.start = first.span.start) ∧
      ∃ last ∈ tokens, statement.span.stop = last.span.stop := by
  obtain ⟨front, part, behind, rfl, _, covers⟩ := spread.exists_part mem
  obtain ⟨first, later, begins, start⟩ := covers.frames.begins
  obtain ⟨earlier, last, ends, _, stop⟩ := covers.frames.ends
  constructor
  · refine ⟨first, ?_, start⟩
    rw [begins]
    simp
  · refine ⟨last, ?_, stop⟩
    rw [ends]
    simp

/-- Statements that stand among tokens one behind the other do not overlap. -/
theorem Spread.pairwise (spread : Spread tokens statements) (order : InOrder tokens) :
    statements.Pairwise fun earlier later =>
      earlier.span.stop.index ≤ later.span.start.index := by
  induction spread with
  | nil => exact .nil
  | skip _ _ ih => exact ih (order.sublist (List.sublist_append_right _ _))
  | cons covers spread ih =>
    refine List.pairwise_cons.mpr ⟨?_, ih (order.sublist (List.sublist_append_right _ _))⟩
    intro later mem
    obtain ⟨front, last, ends, _, stop⟩ := covers.frames.ends
    obtain ⟨⟨first, inside, start⟩, _⟩ := spread.exists_ends mem
    rw [stop, start]
    have far := (List.pairwise_append.mp order.apart).2.2 last
    rw [ends] at far
    exact far (List.mem_append_right _ List.mem_cons_self) first inside

/-- The statements right inside a statement are in order, and lie inside it. -/
theorem Covers.children_inside (covers : Covers tokens statement) (order : InOrder tokens) :
    (statement.children.Pairwise fun earlier later =>
      earlier.span.stop.index ≤ later.span.start.index) ∧
    ∀ child ∈ statement.children, statement.span.start.index ≤ child.span.start.index ∧
      child.span.stop.index ≤ statement.span.stop.index := by
  refine ⟨covers.spread.pairwise order, fun child mem => ?_⟩
  obtain ⟨⟨first, firstMem, start⟩, last, lastMem, stop⟩ := covers.spread.exists_ends mem
  rw [start, stop]
  exact ⟨(covers.frames.around order firstMem).1, (covers.frames.around order lastMem).2⟩

end

end Marginalia
