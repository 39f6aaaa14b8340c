import Marginalia.Proofs.Reading.Runs

/-!
# The reader blames a token of the text

A reader that stops at a token stops at one it was given
(`Program.mem_of_parseWithin_eq_error`). The reader only ever sees tokens of its
stream; the one place that stops at an earlier token is the refusal of a nested
directive, which points back at the mark that was just taken. `Blames` therefore
says two things at once: a fault is about one of the tokens, and a result that is
a token is one of them.
-/

namespace Marginalia

/-- The token that a reader's fault is about. -/
def Fault.blamed : Fault → Option Token
  | .parse _ found => some found
  | _ => none

namespace Parser

variable {tokens : List Token} {α β σ : Type}

/-- All that is left of the stream are some of the tokens. -/
structure Within (tokens : List Token) (stream : Stream) : Prop where
  rest : ∀ token ∈ stream.rest, token ∈ tokens
  final : stream.final ∈ tokens

/-- On some of the tokens the reader stops at one of the tokens, or leaves some of them and has a
result with the property `post`. -/
def Blames (tokens : List Token) (post : α → Prop) (x : Parser α) : Prop :=
  ∀ stream, Within tokens stream →
    match x.run stream with
    | .ok (a, after) => post a ∧ Within tokens after
    | .error fault => ∀ token ∈ fault.blamed, token ∈ tokens

/-! ## Combinators -/

theorem blames_pure {post : α → Prop} {a : α} (holds : post a) : Blames tokens post (pure a) :=
  fun _ within => ⟨holds, within⟩

theorem blames_throw {post : α → Prop} {fault : Fault} (plain : fault.blamed = none) :
    Blames tokens post (throw fault) := by
  intro stream _ token blamed
  rw [plain] at blamed
  cases blamed

theorem blames_bind {post : α → Prop} {post' : β → Prop} {x : Parser α} {f : α → Parser β}
    (first : Blames tokens post x) (next : ∀ a, post a → Blames tokens post' (f a)) :
    Blames tokens post' (x >>= f) := by
  intro stream within
  have here := first stream within
  cases run : x.run stream with
  | error fault =>
    rw [run] at here
    rw [run_bind_of_error run]
    exact here
  | ok result =>
    obtain ⟨a, after⟩ := result
    rw [run] at here
    rw [run_bind_of_ok run]
    exact next a here.1 after here.2

theorem blames_ite {post : α → Prop} {p : Prop} [Decidable p] {x y : Parser α}
    (yes : Blames tokens post x) (no : Blames tokens post y) :
    Blames tokens post (if p then x else y) := by
  split
  · exact yes
  · exact no

theorem blames_peek : Blames tokens (· ∈ tokens) peek := by
  rintro ⟨rest, final⟩ within
  cases rest with
  | nil => exact ⟨within.final, within⟩
  | cons token rest => exact ⟨within.rest token List.mem_cons_self, within⟩

theorem blames_take : Blames tokens (· ∈ tokens) take := by
  rintro ⟨rest, final⟩ within
  cases rest with
  | nil =>
    intro token blamed
    cases blamed
  | cons token rest =>
    refine ⟨within.rest token List.mem_cons_self, fun other mem => ?_, within.final⟩
    exact within.rest other (List.mem_cons_of_mem _ mem)

theorem blames_at {post : α → Prop} {cause : ParseCause} {token : Token} (mem : token ∈ tokens) :
    Blames tokens post (throw (.parse cause token)) := by
  intro stream _ other blamed
  cases blamed
  exact mem

theorem blames_fail {post : α → Prop} (cause : ParseCause) : Blames tokens post (fail cause) :=
  blames_bind blames_peek fun _ mem => blames_at mem

theorem blames_takeIf (kinds : List TokenKind) :
    Blames tokens (fun _ => True) (takeIf kinds) :=
  blames_bind blames_peek fun _ _ =>
    blames_ite (blames_bind blames_take fun _ _ => blames_pure trivial) (blames_pure trivial)

theorem blames_expect (kind : TokenKind) (part : Part) :
    Blames tokens (fun _ => True) (expect kind part) := by
  refine blames_bind (blames_takeIf [kind]) fun found _ => ?_
  cases found with
  | none => exact blames_fail _
  | some token => exact blames_pure trivial

theorem blames_repeatFrom {round : σ → Parser (σ ⊕ α)}
    (step : ∀ state, Blames tokens (fun _ => True) (round state)) (state : σ) :
    Blames tokens (fun _ => True) (repeatFrom state round) := by
  have bounded : ∀ (rounds : List Token) (state : σ),
      Blames tokens (fun _ => True) (repeatFor round rounds state) := by
    intro rounds
    induction rounds with
    | nil => exact fun _ => blames_throw rfl
    | cons token rounds ih =>
      intro state
      refine blames_bind (step state) fun outcome _ => ?_
      cases outcome with
      | inl next => exact ih next
      | inr result => exact blames_pure trivial
  exact fun stream => bounded (stream.final :: stream.rest) state stream

theorem blames_skipLineEnds : Blames tokens (fun _ => True) skipLineEnds := by
  have drop : Blames tokens (fun _ => True) (modify fun stream : Stream =>
      { stream with rest := stream.rest.dropWhile (·.kind = .lineEnd) } : Parser PUnit) := by
    intro stream within
    refine ⟨trivial, fun token mem => ?_, within.final⟩
    exact within.rest token ((List.dropWhile_suffix _).mem mem)
  refine blames_bind drop fun _ _ => blames_bind blames_peek fun _ _ => ?_
  exact blames_ite (blames_throw rfl) (blames_pure trivial)

theorem blames_kindPastLineEnds : Blames tokens (fun _ => True) kindPastLineEnds :=
  fun _ within => ⟨trivial, within⟩

/-! ## Productions -/

theorem blames_primary : Blames tokens (fun _ => True) primary := by
  refine blames_bind blames_peek fun token _ => ?_
  cases token.kind with
  | falseWord | trueWord | nothingWord | string | name =>
    exact blames_bind blames_take fun _ _ => blames_pure trivial
  | _ => exact blames_fail _

theorem blames_negated {operand : Parser Expr} (blames : Blames tokens (fun _ => True) operand)
    (depth : Nat) : Blames tokens (fun _ => True) (negated operand depth) := by
  induction depth with
  | zero =>
    rw [negated]
    refine blames_bind (blames_takeIf _) fun found _ => ?_
    cases found with
    | none => exact blames
    | some operator => exact blames_throw rfl
  | succ depth ih =>
    rw [negated]
    refine blames_bind (blames_takeIf _) fun found _ => ?_
    cases found with
    | none => exact blames
    | some operator => exact blames_bind ih fun _ _ => blames_pure trivial

theorem blames_leftGrouped {operand : Parser Expr}
    (blames : Blames tokens (fun _ => True) operand) (node : Span → Expr → Token → Expr → Expr)
    (kinds : List TokenKind) :
    Blames tokens (fun _ => True) (leftGrouped node kinds operand) := by
  refine blames_bind blames fun first _ => blames_repeatFrom (fun left => ?_) first
  refine blames_bind (blames_takeIf kinds) fun found _ => ?_
  cases found with
  | none => exact blames_pure trivial
  | some operator => exact blames_bind blames fun _ _ => blames_pure trivial

theorem blames_expressionOver {operand : Parser Expr}
    (blames : Blames tokens (fun _ => True) operand) (depth : Nat) :
    Blames tokens (fun _ => True) (expressionOver operand depth) :=
  blames_leftGrouped (blames_leftGrouped (blames_leftGrouped (blames_negated blames depth) _ _) _ _)
    _ _

theorem blames_listed {item : Parser α} (blames : Blames tokens (fun _ => True) item) :
    Blames tokens (fun _ => True) (listed item) := by
  refine blames_bind blames_peek fun _ _ => blames_ite (blames_pure trivial) ?_
  refine blames_repeatFrom (fun items => blames_ite (blames_fail _) ?_) []
  refine blames_bind blames fun _ _ => blames_bind (blames_takeIf _) fun comma _ => ?_
  cases comma with
  | none => exact blames_pure trivial
  | some comma => exact blames_pure trivial

theorem blames_called (depth : Nat) : Blames tokens (fun _ => True) (called depth) := by
  refine blames_bind blames_primary fun first _ => blames_repeatFrom (fun callee => ?_) first
  refine blames_bind (blames_takeIf _) fun found _ => ?_
  cases found with
  | none => exact blames_pure trivial
  | some opening =>
    refine blames_bind (blames_listed (blames_expressionOver blames_primary depth)) fun _ _ => ?_
    exact blames_bind (blames_expect _ _) fun _ _ => blames_pure trivial

theorem blames_expression (depth : Nat) : Blames tokens (fun _ => True) (expression depth) :=
  blames_expressionOver (blames_called depth) depth

theorem blames_condition (depth : Nat) (opening : Part) :
    Blames tokens (fun _ => True) (condition depth opening) := by
  refine blames_bind (blames_expect _ _) fun _ _ => ?_
  refine blames_bind (blames_expressionOver blames_primary depth) fun _ _ => ?_
  exact blames_bind (blames_expect _ _) fun _ _ => blames_pure trivial

theorem blames_giveBack (depth : Nat) (keyword : Token) :
    Blames tokens (fun _ => True) (giveBack depth keyword) := by
  refine blames_bind blames_peek fun _ _ => blames_ite (blames_pure trivial) ?_
  exact blames_bind (blames_expression depth) fun _ _ => blames_pure trivial

theorem blames_directive (nested : Bool) {pound : Token} (mem : pound ∈ tokens) :
    Blames tokens (fun _ => True) (directive nested pound) := by
  refine blames_ite (blames_at mem) ?_
  refine blames_bind (blames_expect _ _) fun _ _ => blames_bind (blames_takeIf _) fun _ _ => ?_
  exact blames_bind (blames_expect _ _) fun _ _ => blames_pure trivial

theorem blames_binding (depth : Nat) (letToken : Token) :
    Blames tokens (fun _ => True) (binding depth letToken) := by
  refine blames_bind (blames_expect _ _) fun _ _ => blames_bind (blames_takeIf _) fun found _ => ?_
  cases found with
  | none => exact blames_pure trivial
  | some be => exact blames_bind (blames_expression depth) fun _ _ => blames_pure trivial

theorem blames_lines {item : Parser Stmt} (blames : Blames tokens (fun _ => True) item)
    (stops : List TokenKind) : Blames tokens (fun _ => True) (lines stops item) := by
  refine blames_repeatFrom (fun latestFirst => ?_) []
  refine blames_bind blames_skipLineEnds fun _ _ => blames_bind blames_peek fun _ _ => ?_
  exact blames_ite (blames_pure trivial) (blames_bind blames fun _ _ => blames_pure trivial)

theorem blames_block {item : Parser Stmt} (blames : Blames tokens (fun _ => True) item) :
    Blames tokens (fun _ => True) (block item) :=
  blames_bind (blames_lines blames _) fun _ _ =>
    blames_bind (blames_expect _ _) fun _ _ => blames_pure trivial

theorem blames_function {body : Parser (List Stmt × Token)}
    (blames : Blames tokens (fun _ => True) body) (toToken : Token) :
    Blames tokens (fun _ => True) (function body toToken) := by
  refine blames_bind (blames_expect _ _) fun _ _ => blames_bind (blames_expect _ _) fun _ _ => ?_
  refine blames_bind (blames_listed (blames_expect _ _)) fun _ _ => ?_
  refine blames_bind (blames_expect _ _) fun _ _ => blames_bind (blames_expect _ _) fun _ _ => ?_
  exact blames_bind blames fun _ _ => blames_pure trivial

/-- The three productions that call each other, at every depth. -/
theorem blames_productions (depth : Nat) :
    Blames tokens (fun _ => True) (statement depth) ∧
      (∀ nested, Blames tokens (fun _ => True) (declaration nested depth)) ∧
      Blames tokens (fun _ => True) (body depth) := by
  induction depth with
  | zero => exact ⟨blames_throw rfl, fun _ => blames_throw rfl, blames_throw rfl⟩
  | succ depth ih =>
    obtain ⟨statementBlames, declarationBlames, bodyBlames⟩ := ih
    refine ⟨?_, fun nested => ?_, blames_block (declarationBlames true)⟩
    · refine blames_bind blames_peek fun token _ => ?_
      cases token.kind with
      | ifWord =>
        refine blames_bind blames_take fun _ _ => ?_
        refine blames_bind (blames_condition depth _) fun _ _ => ?_
        refine blames_bind statementBlames fun _ _ => ?_
        refine blames_bind blames_kindPastLineEnds fun _ _ => blames_ite ?_ (blames_pure trivial)
        refine blames_bind blames_skipLineEnds fun _ _ => blames_bind blames_take fun _ _ => ?_
        exact blames_bind statementBlames fun _ _ => blames_pure trivial
      | ampersand => exact blames_bind blames_take fun keyword _ => blames_giveBack depth keyword
      | whileWord =>
        refine blames_bind blames_take fun _ _ => ?_
        refine blames_bind (blames_condition depth _) fun _ _ => ?_
        exact blames_bind statementBlames fun _ _ => blames_pure trivial
      | colon =>
        refine blames_bind blames_take fun _ _ => ?_
        exact blames_bind bodyBlames fun _ _ => blames_pure trivial
      | _ =>
        refine blames_bind (blames_expression depth) fun _ _ => ?_
        exact blames_ite (blames_pure trivial) (blames_pure trivial)
    · refine blames_bind blames_peek fun token _ => ?_
      cases token.kind with
      | dagger =>
        refine blames_bind blames_take fun _ _ => ?_
        exact blames_bind (blames_expect _ _) fun _ _ => blames_pure trivial
      | pound => exact blames_bind blames_take fun _ mem => blames_directive nested mem
      | toWord => exact blames_bind blames_take fun toToken _ => blames_function bodyBlames toToken
      | letWord => exact blames_bind blames_take fun letToken _ => blames_binding depth letToken
      | _ => exact statementBlames

end Parser

theorem Stream.within_of_ofTokens? {tokens : List Token} {stream : Stream}
    (found : Stream.ofTokens? tokens = some stream) : Parser.Within tokens stream := by
  have body : ∀ token ∈ tokens.takeWhile (·.kind ≠ .textEnd), token ∈ tokens :=
    fun token mem => (List.takeWhile_prefix _).mem mem
  unfold Stream.ofTokens? at found
  split at found
  next final _ seen =>
    cases found
    exact ⟨body, List.mem_of_find?_eq_some seen⟩
  next last _ seen =>
    cases found
    exact ⟨body, List.mem_of_getLast? seen⟩
  next => cases found

/-- The token at which reading stops is one of those that were to be read. -/
theorem Program.mem_of_parseWithin_eq_error {depth : Nat} {tokens : List Token} {found : Token}
    {cause : ParseCause}
    (stopped : Program.parseWithin depth tokens = .error (.parse cause found)) :
    found ∈ tokens := by
  unfold Program.parseWithin at stopped
  split at stopped
  next => cases stopped
  next stream opened =>
    have blames := Parser.blames_lines ((Parser.blames_productions depth).2.1 false) [.textEnd]
      stream (Stream.within_of_ofTokens? opened)
    change Prod.fst <$> (Parser.program depth).run stream = _ at stopped
    rw [Parser.program] at stopped
    cases run : (Parser.lines [.textEnd] (Parser.declaration false depth)).run stream with
    | ok result =>
      rw [run] at stopped
      cases stopped
    | error fault =>
      rw [run] at stopped blames
      cases stopped
      exact blames found rfl

end Marginalia
