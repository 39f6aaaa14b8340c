import Marginalia.Proofs.Reading.Runs

/-!
# The reader reads or refuses

On the tokens of a text the reader comes to a program, or it says what is wrong with some token, or
it gives up at its limit. It never asks for a token behind the end of the text and never repeats a
round that takes no token. `Takes` says this of a reader together with how many tokens it takes at
least: a repetition may go on after a round that takes a token, and the rounds it is given are as
many as there are tokens.
-/

namespace Marginalia

/-- The fault of a reader that refuses a token or gives up. -/
def Fault.isRefusal : Fault → Bool
  | .parse _ _ | .tooDeep => true
  | _ => false

namespace Parser

variable {α β σ : Type} {final : Token}

/-- From these tokens before the end of the text, the reader takes at least as many as its result
asks for, or it refuses. -/
def TakesFrom (final : Token) (least : α → Nat) (rest : List Token) (x : Parser α) : Prop :=
  (∃ a after, x.run ⟨rest, final⟩ = .ok (a, ⟨after, final⟩) ∧
      after.length + least a ≤ rest.length) ∨
    ∃ fault, x.run ⟨rest, final⟩ = .error fault ∧ fault.isRefusal = true

/-- From any tokens before the end of the text, the reader takes at least as many as its result
asks for, or it refuses. -/
def Takes (final : Token) (least : α → Nat) (x : Parser α) : Prop :=
  ∀ rest, TakesFrom final least rest x

/-! ## Combinators -/

theorem takes_pure {least : α → Nat} {a : α} (none : least a = 0) : Takes final least (pure a) :=
  fun rest => .inl ⟨a, rest, rfl, by omega⟩

theorem takes_refusal {least : α → Nat} {fault : Fault} (refusal : fault.isRefusal = true) :
    Takes final least (throw fault) :=
  fun _ => .inr ⟨fault, rfl, refusal⟩

theorem takesFrom_bind {least : α → Nat} {more : β → Nat} {rest : List Token} {x : Parser α}
    {f : α → Parser β} (first : TakesFrom final least rest x)
    (next : ∀ a, Takes final (fun b => more b - least a) (f a)) :
    TakesFrom final more rest (x >>= f) := by
  rcases first with ⟨a, middle, run, taken⟩ | ⟨fault, run, refusal⟩
  · rw [TakesFrom, run_bind_of_ok run]
    rcases next a middle with ⟨b, after, run, also⟩ | refused
    · change after.length + (more b - least a) ≤ middle.length at also
      exact .inl ⟨b, after, run, by omega⟩
    · exact .inr refused
  · exact .inr ⟨fault, run_bind_of_error run, refusal⟩

theorem takes_bind {least : α → Nat} {more : β → Nat} {x : Parser α} {f : α → Parser β}
    (first : Takes final least x) (next : ∀ a, Takes final (fun b => more b - least a) (f a)) :
    Takes final more (x >>= f) :=
  fun rest => takesFrom_bind (first rest) next

theorem takes_ite {least : α → Nat} {p : Prop} [Decidable p] {x y : Parser α}
    (yes : Takes final least x) (no : Takes final least y) :
    Takes final least (if p then x else y) := by
  split
  · exact yes
  · exact no

theorem takes_peek : Takes final (fun _ => 0) peek :=
  fun rest => .inl ⟨rest.headD final, rest, rfl, Nat.le_refl _⟩

theorem takes_fail {least : α → Nat} (cause : ParseCause) : Takes final least (fail cause) :=
  takes_bind takes_peek fun _ => takes_refusal rfl

theorem takesFrom_take_bind {least : β → Nat} {token : Token} {rest : List Token}
    {f : Token → Parser β} (next : Takes final (fun b => least b - 1) (f token)) :
    TakesFrom final least (token :: rest) (take >>= f) := by
  rw [TakesFrom, run_bind_of_ok run_take_cons]
  rcases next rest with ⟨b, after, run, taken⟩ | refused
  · change after.length + (least b - 1) ≤ rest.length at taken
    exact .inl ⟨b, after, run, by rw [List.length_cons]; omega⟩
  · exact .inr refused

/-- A repetition whose rounds take a token before they go on takes or refuses. -/
theorem takes_repeatFrom {round : σ → Parser (σ ⊕ α)}
    (step : ∀ state, Takes final (Sum.elim (fun _ => 1) fun _ => 0) (round state)) (state : σ) :
    Takes final (fun _ => 0) (repeatFrom state round) := by
  have bounded : ∀ (rounds : List Token) (state : σ) (rest : List Token),
      rest.length < rounds.length →
      TakesFrom final (fun _ => 0) rest (repeatFor round rounds state) := by
    intro rounds
    induction rounds with
    | nil => exact fun _ _ enough => absurd enough (Nat.not_lt_zero _)
    | cons token rounds ih =>
      intro state rest enough
      rw [TakesFrom, run_repeatFor_cons]
      rcases step state rest with ⟨outcome, middle, run, taken⟩ | ⟨fault, run, refusal⟩
      · rw [run]
        cases outcome with
        | inl next =>
          rw [List.length_cons] at enough
          change middle.length + 1 ≤ rest.length at taken
          rcases ih next middle (by omega) with ⟨a, after, run, fewer⟩ | refused
          · exact .inl ⟨a, after, run, by omega⟩
          · exact .inr refused
        | inr result => exact .inl ⟨result, middle, rfl, taken⟩
      · rw [run]
        exact .inr ⟨fault, rfl, refusal⟩
  exact fun rest => bounded (final :: rest) state rest (Nat.lt_succ_self _)

section Text

variable (ends : final.kind = .textEnd)

include ends

theorem takes_takeIf_bind {least : β → Nat} {kinds : List TokenKind}
    {f : Option Token → Parser β} (inside : .textEnd ∉ kinds)
    (without : Takes final least (f none))
    (next : ∀ token, Takes final (fun b => least b - 1) (f (some token))) :
    Takes final least (takeIf kinds >>= f) := by
  intro rest
  by_cases mem : nextKind rest ∈ kinds
  · cases rest with
    | nil => exact absurd mem inside
    | cons token rest =>
      rw [TakesFrom, run_bind_of_ok (run_takeIf_of_mem mem)]
      rcases next token rest with ⟨b, after, run, taken⟩ | refused
      · change after.length + (least b - 1) ≤ rest.length at taken
        exact .inl ⟨b, after, run, by rw [List.length_cons]; omega⟩
      · exact .inr refused
  · rw [TakesFrom, run_bind_of_ok (run_takeIf_of_not_mem ends mem)]
    exact without rest

theorem takes_expect {kind : TokenKind} (inside : kind ≠ .textEnd) (part : Part) :
    Takes final (fun _ => 1) (expect kind part) := by
  refine takes_takeIf_bind ends (fun mem => inside (List.mem_singleton.mp mem).symm) ?_ ?_
  · exact takes_fail _
  · exact fun token => takes_pure rfl

theorem takes_skipLineEnds : Takes final (fun _ => 0) skipLineEnds := by
  intro rest
  refine .inl ⟨(), pastLineEnds rest, run_skipLineEnds ends rest, ?_⟩
  exact (List.dropWhile_suffix _).length_le

/-! ## Expressions -/

theorem takes_primary : Takes final (fun _ => 1) primary := by
  intro rest
  cases rest with
  | nil =>
    rw [TakesFrom, primary, run_bind_of_ok (run_peek _)]
    change TakesFrom final _ [] _
    rw [List.headD_nil, ends]
    exact takes_fail _ []
  | cons token rest =>
    rw [TakesFrom, primary, run_bind_of_ok run_peek_cons]
    change TakesFrom final _ (token :: rest) _
    cases token.kind with
    | falseWord | trueWord | nothingWord | string | name =>
      exact takesFrom_take_bind (takes_pure rfl)
    | _ => exact takes_fail _ _

theorem takes_negated {operand : Parser Expr} (takes : Takes final (fun _ => 1) operand)
    (depth : Nat) : Takes final (fun _ => 1) (negated operand depth) := by
  induction depth with
  | zero =>
    rw [negated]
    exact takes_takeIf_bind ends (by decide) takes fun _ => takes_refusal rfl
  | succ depth ih =>
    rw [negated]
    refine takes_takeIf_bind ends (by decide) takes fun _ => ?_
    exact takes_bind ih fun _ => takes_pure rfl

theorem takes_leftGrouped {operand : Parser Expr} {kinds : List TokenKind}
    (inside : .textEnd ∉ kinds) (takes : Takes final (fun _ => 1) operand)
    (node : Span → Expr → Token → Expr → Expr) :
    Takes final (fun _ => 1) (leftGrouped node kinds operand) := by
  refine takes_bind takes fun first => takes_repeatFrom (fun left => ?_) first
  refine takes_takeIf_bind ends inside (takes_pure rfl) fun operator => ?_
  exact takes_bind takes fun _ => takes_pure rfl

theorem takes_expressionOver {operand : Parser Expr} (takes : Takes final (fun _ => 1) operand)
    (depth : Nat) : Takes final (fun _ => 1) (expressionOver operand depth) :=
  takes_leftGrouped ends (by decide) (takes_leftGrouped ends (by decide)
    (takes_leftGrouped ends (by decide) (takes_negated ends takes depth) _) _) _

theorem takes_listed {item : Parser α} (takes : Takes final (fun _ => 1) item) :
    Takes final (fun _ => 0) (listed item) := by
  refine takes_bind takes_peek fun token => takes_ite (takes_pure rfl) ?_
  refine takes_repeatFrom (fun items => takes_ite (takes_fail _) ?_) []
  refine takes_bind takes fun found => ?_
  exact takes_takeIf_bind ends (by decide) (takes_pure rfl) fun _ => takes_pure rfl

theorem takes_called (depth : Nat) : Takes final (fun _ => 1) (called depth) := by
  refine takes_bind (takes_primary ends) fun first => takes_repeatFrom (fun callee => ?_) first
  refine takes_takeIf_bind ends (by decide) (takes_pure rfl) fun opening => ?_
  refine takes_bind (takes_listed ends (takes_expressionOver ends (takes_primary ends) depth))
    fun arguments => ?_
  exact takes_bind (takes_expect ends (by decide) _) fun _ => takes_pure rfl

theorem takes_expression (depth : Nat) : Takes final (fun _ => 1) (expression depth) :=
  takes_expressionOver ends (takes_called ends depth) depth

theorem takes_condition (depth : Nat) (opening : Part) :
    Takes final (fun _ => 1) (condition depth opening) := by
  refine takes_bind (takes_expect ends (by decide) _) fun _ => ?_
  refine takes_bind (takes_expressionOver ends (takes_primary ends) depth) fun _ => ?_
  exact takes_bind (takes_expect ends (by decide) _) fun _ => takes_pure rfl

/-! ## Statements -/

theorem takes_giveBack (depth : Nat) (keyword : Token) :
    Takes final (fun _ => 0) (giveBack depth keyword) := by
  refine takes_bind takes_peek fun token => takes_ite (takes_pure rfl) ?_
  exact takes_bind (takes_expression ends depth) fun _ => takes_pure rfl

theorem takes_expressionStatement (depth : Nat) :
    Takes final (fun _ => 1) (expressionStatement depth) :=
  takes_bind (takes_expression ends depth) fun _ => takes_ite (takes_pure rfl) (takes_pure rfl)

theorem takes_remark (dagger : Token) : Takes final (fun _ => 0) (remark dagger) :=
  takes_bind (takes_expect ends (by decide) _) fun _ => takes_pure rfl

theorem takes_directive (nested : Bool) (pound : Token) :
    Takes final (fun _ => 0) (directive nested pound) := by
  refine takes_ite (takes_refusal rfl) ?_
  refine takes_bind (takes_expect ends (by decide) _) fun _ => ?_
  refine takes_takeIf_bind ends (by decide) ?_ fun _ => ?_
  · exact takes_bind (takes_expect ends (by decide) _) fun _ => takes_pure rfl
  · exact takes_bind (takes_expect ends (by decide) _) fun _ => takes_pure rfl

theorem takes_binding (depth : Nat) (letToken : Token) :
    Takes final (fun _ => 0) (binding depth letToken) := by
  refine takes_bind (takes_expect ends (by decide) _) fun _ => ?_
  refine takes_takeIf_bind ends (by decide) (takes_pure rfl) fun _ => ?_
  exact takes_bind (takes_expression ends depth) fun _ => takes_pure rfl

theorem takes_lines {item : Parser Stmt} (takes : Takes final (fun _ => 1) item)
    (stops : List TokenKind) : Takes final (fun _ => 0) (lines stops item) := by
  refine takes_repeatFrom (fun latestFirst => ?_) []
  refine takes_bind (takes_skipLineEnds ends) fun _ => takes_bind takes_peek fun token => ?_
  exact takes_ite (takes_pure rfl) (takes_bind takes fun _ => takes_pure rfl)

theorem takes_block {item : Parser Stmt} (takes : Takes final (fun _ => 1) item) :
    Takes final (fun _ => 0) (block item) :=
  takes_bind (takes_lines ends takes _) fun _ =>
    takes_bind (takes_expect ends (by decide) _) fun _ => takes_pure rfl

theorem takes_function {body : Parser (List Stmt × Token)} (takes : Takes final (fun _ => 0) body)
    (toToken : Token) : Takes final (fun _ => 0) (function body toToken) := by
  refine takes_bind (takes_expect ends (by decide) _) fun name => ?_
  refine takes_bind (takes_expect ends (by decide) _) fun _ => ?_
  refine takes_bind (takes_listed ends (takes_expect ends (by decide) _)) fun params => ?_
  refine takes_bind (takes_expect ends (by decide) _) fun _ => ?_
  refine takes_bind (takes_expect ends (by decide) _) fun _ => ?_
  exact takes_bind takes fun _ => takes_pure rfl

/-- An `else` past some line ends is there to be taken. -/
theorem takes_alternative {least : β → Nat} {no otherwise : Parser β}
    (takes : Takes final least no) (without : Takes final least otherwise) :
    Takes final least (do
      if (← kindPastLineEnds) = .elseWord then
        skipLineEnds
        let _ ← take
        no
      else otherwise) := by
  intro rest
  rw [TakesFrom, run_bind_of_ok (run_kindPastLineEnds ends rest)]
  by_cases next : nextKind (pastLineEnds rest) = .elseWord
  · obtain ⟨token, behind, whole, _⟩ := exists_of_nextKind next (by decide)
    have shorter : behind.length < rest.length := by
      have le : (pastLineEnds rest).length ≤ rest.length := (List.dropWhile_suffix _).length_le
      rw [whole, List.length_cons] at le
      exact le
    rw [if_pos next, run_bind_of_ok (run_skipLineEnds ends rest), whole,
      run_bind_of_ok run_take_cons]
    rcases takes behind with ⟨b, after, run, taken⟩ | refused
    · exact .inl ⟨b, after, run, by omega⟩
    · exact .inr refused
  · rw [if_neg next]
    exact without rest

/-- A statement of one more level takes a token at least, or it is refused. -/
theorem takes_statement_succ {depth : Nat}
    (statementTakes : Takes final (fun _ => 1) (statement depth))
    (bodyTakes : Takes final (fun _ => 0) (body depth)) :
    Takes final (fun _ => 1) (statement (depth + 1)) := by
  intro rest
  cases rest with
  | nil =>
    rw [statement, TakesFrom, run_bind_of_ok (run_peek _)]
    change TakesFrom final _ [] _
    rw [List.headD_nil, ends]
    exact takes_expressionStatement ends depth []
  | cons token rest =>
    rw [statement, TakesFrom, run_bind_of_ok run_peek_cons]
    change TakesFrom final _ (token :: rest) _
    cases token.kind with
    | ifWord =>
      refine takesFrom_take_bind ?_
      refine takes_bind (takes_condition ends depth _) fun test => ?_
      refine takes_bind statementTakes fun yes => ?_
      exact takes_alternative ends (takes_bind statementTakes fun _ => takes_pure rfl)
        (takes_pure rfl)
    | ampersand => exact takesFrom_take_bind (takes_giveBack ends depth token)
    | whileWord =>
      refine takesFrom_take_bind ?_
      refine takes_bind (takes_condition ends depth _) fun test => ?_
      exact takes_bind statementTakes fun inside => takes_pure rfl
    | colon => exact takesFrom_take_bind (takes_bind bodyTakes fun inside => takes_pure rfl)
    | _ => exact takes_expressionStatement ends depth _

theorem takes_declaration_succ {depth : Nat}
    (statementTakes : Takes final (fun _ => 1) (statement depth))
    (bodyTakes : Takes final (fun _ => 0) (body depth)) (nested : Bool) :
    Takes final (fun _ => 1) (declaration nested (depth + 1)) := by
  intro rest
  cases rest with
  | nil =>
    rw [declaration, TakesFrom, run_bind_of_ok (run_peek _)]
    change TakesFrom final _ [] _
    rw [List.headD_nil, ends]
    exact statementTakes []
  | cons token rest =>
    rw [declaration, TakesFrom, run_bind_of_ok run_peek_cons]
    change TakesFrom final _ (token :: rest) _
    cases token.kind with
    | dagger => exact takesFrom_take_bind (takes_remark ends token)
    | pound => exact takesFrom_take_bind (takes_directive ends nested token)
    | toWord => exact takesFrom_take_bind (takes_function ends bodyTakes token)
    | letWord => exact takesFrom_take_bind (takes_binding ends depth token)
    | _ => exact statementTakes _

/-- The three productions that call each other, at every depth. -/
theorem takes_productions (depth : Nat) :
    Takes final (fun _ => 1) (statement depth) ∧
      (∀ nested, Takes final (fun _ => 1) (declaration nested depth)) ∧
      Takes final (fun _ => 0) (body depth) := by
  induction depth with
  | zero => exact ⟨takes_refusal rfl, fun _ => takes_refusal rfl, takes_refusal rfl⟩
  | succ depth ih =>
    obtain ⟨statementTakes, declarationTakes, bodyTakes⟩ := ih
    exact ⟨takes_statement_succ ends statementTakes bodyTakes,
      takes_declaration_succ ends statementTakes bodyTakes,
      takes_block ends (declarationTakes true)⟩

end Text

end Parser

/-- The tokens of a text are a program, or one of them is refused, or the reader gives up. -/
theorem Program.isRefusal_of_parseWithin {depth : Nat} {tokens : List Token} {final : Token}
    {fault : Fault} (inside : ∀ token ∈ tokens, token.kind ≠ .textEnd)
    (ends : final.kind = .textEnd)
    (stopped : Program.parseWithin depth (tokens ++ [final]) = .error fault) :
    fault.isRefusal = true := by
  rw [Program.parseWithin_append inside ends] at stopped
  have takes := Parser.takes_lines ends ((Parser.takes_productions ends depth).2.1 false) [.textEnd]
  rcases takes tokens with ⟨program, after, run, _⟩ | ⟨other, run, refusal⟩
  · rw [Parser.program, run] at stopped
    cases stopped
  · rw [Parser.program, run] at stopped
    cases stopped
    exact refusal

end Marginalia
