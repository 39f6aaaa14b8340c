import Marginalia.Program.Parse

/-!
# Runs of a reader

The small facts every later proof about the reader is built from: what a
sequence of two readers does, what is seen and taken at the head of a stream,
and how a repetition unfolds.

The forward facts (`run_bind_of_ok`, `run_takeIf_of_mem`, ...) compute a run from
the tokens at the head of the stream. The backward ones (`exists_of_run_bind`,
`of_run_takeIf`, ...) recover the head of the stream from a run that succeeded.

A repetition carries the tokens that are left as its bound.
`run_repeatFrom` unfolds one round of it and forgets the bound: the rounds only
have to take a token each.
-/

namespace Marginalia

/-- The kind of the next of some tokens; behind the last one stands the end of the text. -/
def nextKind : List Token → TokenKind
  | [] => .textEnd
  | token :: _ => token.kind

@[simp] theorem nextKind_cons (token : Token) (rest : List Token) :
    nextKind (token :: rest) = token.kind := rfl

theorem exists_of_nextKind {rest : List Token} {kind : TokenKind} (next : nextKind rest = kind)
    (ne : kind ≠ .textEnd) : ∃ token after, rest = token :: after ∧ token.kind = kind := by
  cases rest with
  | nil => exact absurd next.symm ne
  | cons token after => exact ⟨token, after, rfl, next⟩

namespace Parser

section Sequence

variable {α β : Type} {x : Parser α} {f : α → Parser β} {stream middle last : Stream}
  {a : α} {b : β} {fault : Fault}

theorem run_bind_of_ok (run : x.run stream = .ok (a, middle)) :
    (x >>= f).run stream = (f a).run middle := by
  rw [StateT.run_bind, run]
  rfl

theorem run_bind_of_error (run : x.run stream = .error fault) :
    (x >>= f).run stream = .error fault := by
  rw [StateT.run_bind, run]
  rfl

theorem exists_of_run_bind (run : (x >>= f).run stream = .ok (b, last)) :
    ∃ a middle, x.run stream = .ok (a, middle) ∧ (f a).run middle = .ok (b, last) := by
  cases first : x.run stream with
  | error fault =>
    rw [run_bind_of_error first] at run
    cases run
  | ok result =>
    obtain ⟨a, middle⟩ := result
    rw [run_bind_of_ok first] at run
    exact ⟨a, middle, rfl, run⟩

end Sequence

/-! ## The head of a stream -/

section Head

variable {token final : Token} {rest : List Token} {kinds : List TokenKind} {kind : TokenKind}
  {part : Part} {last : Stream}

theorem run_peek_cons : peek.run ⟨token :: rest, final⟩ = .ok (token, ⟨token :: rest, final⟩) :=
  rfl

theorem run_peek (stream : Stream) :
    peek.run stream = .ok (stream.rest.headD stream.final, stream) :=
  rfl

theorem run_take_cons : take.run ⟨token :: rest, final⟩ = .ok (token, ⟨rest, final⟩) :=
  rfl

theorem kind_headD (ends : final.kind = .textEnd) (rest : List Token) :
    (rest.headD final).kind = nextKind rest := by
  cases rest with
  | nil => exact ends
  | cons token rest => rfl

theorem run_takeIf_of_mem (mem : token.kind ∈ kinds) :
    (takeIf kinds).run ⟨token :: rest, final⟩ = .ok (some token, ⟨rest, final⟩) := by
  have holds : kinds.contains token.kind = true := List.contains_iff_mem.mpr mem
  rw [takeIf, run_bind_of_ok run_peek_cons, if_pos holds]
  rfl

theorem run_takeIf_of_not_mem (ends : final.kind = .textEnd) (free : nextKind rest ∉ kinds) :
    (takeIf kinds).run ⟨rest, final⟩ = .ok (none, ⟨rest, final⟩) := by
  have fails : ¬ kinds.contains (rest.headD final).kind = true := by
    rw [kind_headD ends, List.contains_iff_mem]
    exact free
  rw [takeIf, run_bind_of_ok (run_peek _), if_neg fails]
  rfl

/-- `takeIf` takes the next token if it is of one of the kinds, and else nothing. -/
theorem of_run_takeIf (ends : final.kind = .textEnd) {found : Option Token}
    (run : (takeIf kinds).run ⟨rest, final⟩ = .ok (found, last)) :
    (∃ token after, rest = token :: after ∧ token.kind ∈ kinds ∧ found = some token ∧
        last = ⟨after, final⟩) ∨
      (found = none ∧ last = ⟨rest, final⟩ ∧ nextKind rest ∉ kinds) := by
  by_cases mem : nextKind rest ∈ kinds
  · cases rest with
    | nil =>
      -- The end of the text can be asked for, but not taken.
      have holds : kinds.contains final.kind = true := by
        rw [List.contains_iff_mem, ends]
        exact mem
      rw [takeIf, run_bind_of_ok (run_peek _)] at run
      change (if kinds.contains final.kind = true then _ else _ : Parser (Option Token)).run _ = _
        at run
      rw [if_pos holds] at run
      cases run
    | cons token after =>
      rw [run_takeIf_of_mem mem] at run
      cases run
      exact .inl ⟨token, after, rfl, mem, rfl, rfl⟩
  · rw [run_takeIf_of_not_mem ends mem] at run
    cases run
    exact .inr ⟨rfl, rfl, mem⟩

theorem run_expect_of_kind (same : token.kind = kind) :
    (expect kind part).run ⟨token :: rest, final⟩ = .ok (token, ⟨rest, final⟩) := by
  rw [expect, run_bind_of_ok (run_takeIf_of_mem (List.mem_singleton.mpr same))]
  rfl

theorem of_run_expect (ends : final.kind = .textEnd) {found : Token}
    (run : (expect kind part).run ⟨rest, final⟩ = .ok (found, last)) :
    ∃ after, rest = found :: after ∧ found.kind = kind ∧ last = ⟨after, final⟩ := by
  obtain ⟨seen, middle, looked, next⟩ := exists_of_run_bind run
  rcases of_run_takeIf ends looked with ⟨token, after, rfl, mem, rfl, rfl⟩ | ⟨rfl, rfl, _⟩
  · cases next
    exact ⟨after, rfl, List.mem_singleton.mp mem, rfl⟩
  · cases next

end Head

/-! ## Line ends -/

/-- The tokens from the first one that is no line end. -/
def pastLineEnds (rest : List Token) : List Token :=
  rest.dropWhile (·.kind = .lineEnd)

section LineEnds

variable {token final : Token} {rest : List Token}

theorem pastLineEnds_cons_lineEnd (same : token.kind = .lineEnd) :
    pastLineEnds (token :: rest) = pastLineEnds rest := by
  rw [pastLineEnds, List.dropWhile_cons_of_pos (by simpa using same)]
  rfl

theorem pastLineEnds_of_ne (ne : nextKind rest ≠ .lineEnd) : pastLineEnds rest = rest := by
  cases rest with
  | nil => rfl
  | cons token rest =>
    rw [pastLineEnds, List.dropWhile_cons_of_neg]
    simpa using ne

theorem nextKind_pastLineEnds_ne (rest : List Token) :
    nextKind (pastLineEnds rest) ≠ .lineEnd := by
  induction rest with
  | nil => decide
  | cons token rest ih =>
    by_cases same : token.kind = .lineEnd
    · rw [pastLineEnds_cons_lineEnd same]
      exact ih
    · rw [pastLineEnds_of_ne (show nextKind (token :: rest) ≠ .lineEnd from same)]
      exact same

theorem run_skipLineEnds (ends : final.kind = .textEnd) (rest : List Token) :
    skipLineEnds.run ⟨rest, final⟩ = .ok ((), ⟨pastLineEnds rest, final⟩) := by
  have seen : ¬ ((pastLineEnds rest).headD final).kind = .lineEnd := by
    rw [kind_headD ends]
    exact nextKind_pastLineEnds_ne rest
  have moved : (modify fun stream : Stream =>
      { stream with rest := stream.rest.dropWhile (·.kind = .lineEnd) } : Parser PUnit).run
        ⟨rest, final⟩ = .ok (⟨⟩, ⟨pastLineEnds rest, final⟩) := rfl
  rw [skipLineEnds, run_bind_of_ok moved, run_bind_of_ok (run_peek _), if_neg seen]
  rfl

theorem run_kindPastLineEnds (ends : final.kind = .textEnd) (rest : List Token) :
    kindPastLineEnds.run ⟨rest, final⟩ =
      .ok (nextKind (pastLineEnds rest), ⟨rest, final⟩) := by
  rw [← kind_headD ends]
  rfl

end LineEnds

/-! ## Repetition -/

section Repetition

variable {σ α : Type} {round : σ → Parser (σ ⊕ α)} {final : Token}

/-- A round that goes on has taken a token. -/
def Shrinks (final : Token) (round : σ → Parser (σ ⊕ α)) : Prop :=
  ∀ state rest next last, (round state).run ⟨rest, final⟩ = .ok (.inl next, last) →
    ∃ after, last = ⟨after, final⟩ ∧ after.length < rest.length

/-- What a round that was run leaves to be done. -/
def afterRound (go : σ → Stream → Except Fault (α × Stream)) :
    Except Fault ((σ ⊕ α) × Stream) → Except Fault (α × Stream)
  | .ok (.inl next, after) => go next after
  | .ok (.inr result, after) => .ok (result, after)
  | .error fault => .error fault

theorem run_repeatFor_cons (token : Token) (rounds : List Token) (state : σ) (stream : Stream) :
    (repeatFor round (token :: rounds) state).run stream =
      afterRound (fun next after => (repeatFor round rounds next).run after)
        ((round state).run stream) := by
  rw [repeatFor]
  cases first : (round state).run stream with
  | error fault =>
    rw [run_bind_of_error first]
    rfl
  | ok result =>
    obtain ⟨outcome, after⟩ := result
    rw [run_bind_of_ok first]
    cases outcome <;> rfl

/-- Any bound that is longer than the stream lets a repetition do the same. -/
theorem run_repeatFor_congr (shrinks : Shrinks final round) (rounds rounds' : List Token)
    (state : σ) (rest : List Token) (enough : rest.length < rounds.length)
    (enough' : rest.length < rounds'.length) :
    (repeatFor round rounds state).run ⟨rest, final⟩ =
      (repeatFor round rounds' state).run ⟨rest, final⟩ := by
  induction rounds generalizing rounds' state rest with
  | nil => exact absurd enough (Nat.not_lt_zero _)
  | cons token rounds ih =>
    cases rounds' with
    | nil => exact absurd enough' (Nat.not_lt_zero _)
    | cons token' rounds' =>
      rw [run_repeatFor_cons, run_repeatFor_cons]
      match first : (round state).run ⟨rest, final⟩ with
      | .error fault => rfl
      | .ok (.inr result, last) => rfl
      | .ok (.inl next, last) =>
        obtain ⟨after, rfl, shorter⟩ := shrinks state rest next last first
        rw [List.length_cons] at enough enough'
        exact ih rounds' next after (by omega) (by omega)

/-- A repetition is one round and, if that goes on, the repetition again. -/
theorem run_repeatFrom (shrinks : Shrinks final round) (state : σ) (rest : List Token) :
    (repeatFrom state round).run ⟨rest, final⟩ =
      afterRound (fun next after => (repeatFrom next round).run after)
        ((round state).run ⟨rest, final⟩) := by
  have unfolded : ∀ state stream, (repeatFrom state round).run stream =
      (repeatFor round (stream.final :: stream.rest) state).run stream := fun _ _ => rfl
  rw [unfolded, run_repeatFor_cons]
  match first : (round state).run ⟨rest, final⟩ with
  | .error fault => rfl
  | .ok (.inr result, last) => rfl
  | .ok (.inl next, last) =>
    obtain ⟨after, rfl, shorter⟩ := shrinks state rest next last first
    change (repeatFor round rest next).run ⟨after, final⟩ = (repeatFrom next round).run _
    rw [unfolded]
    exact run_repeatFor_congr shrinks _ _ next after shorter (Nat.lt_succ_self _)

theorem run_repeatFrom_of_inl (shrinks : Shrinks final round) {state next : σ}
    {rest after : List Token}
    (first : (round state).run ⟨rest, final⟩ = .ok (.inl next, ⟨after, final⟩)) :
    (repeatFrom state round).run ⟨rest, final⟩ = (repeatFrom next round).run ⟨after, final⟩ := by
  rw [run_repeatFrom shrinks, first]
  rfl

theorem run_repeatFrom_of_inr (shrinks : Shrinks final round) {state : σ} {result : α}
    {rest : List Token} {last : Stream}
    (first : (round state).run ⟨rest, final⟩ = .ok (.inr result, last)) :
    (repeatFrom state round).run ⟨rest, final⟩ = .ok (result, last) := by
  rw [run_repeatFrom shrinks, first]
  rfl

theorem run_repeatFrom_of_error (shrinks : Shrinks final round) {state : σ} {fault : Fault}
    {rest : List Token} (first : (round state).run ⟨rest, final⟩ = .error fault) :
    (repeatFrom state round).run ⟨rest, final⟩ = .error fault := by
  rw [run_repeatFrom shrinks, first]
  rfl

/-- What every round keeps holds at the end of a repetition. -/
theorem of_run_repeatFrom (inv : σ → List Token → Prop) (post : α → List Token → Prop)
    (step : ∀ state rest outcome last, inv state rest →
      (round state).run ⟨rest, final⟩ = .ok (outcome, last) →
      ∃ after, last = ⟨after, final⟩ ∧ Sum.elim inv post outcome after)
    {state : σ} {rest : List Token} {last : Stream} {result : α} (start : inv state rest)
    (run : (repeatFrom state round).run ⟨rest, final⟩ = .ok (result, last)) :
    ∃ after, last = ⟨after, final⟩ ∧ post result after := by
  have bounded : ∀ (rounds : List Token) (state : σ) (rest : List Token), inv state rest →
      (repeatFor round rounds state).run ⟨rest, final⟩ = .ok (result, last) →
      ∃ after, last = ⟨after, final⟩ ∧ post result after := by
    intro rounds
    induction rounds with
    | nil =>
      intro state rest _ run
      cases run
    | cons token rounds ih =>
      intro state rest holds run
      rw [run_repeatFor_cons] at run
      match first : (round state).run ⟨rest, final⟩ with
      | .error fault =>
        rw [first] at run
        cases run
      | .ok (.inr found, there) =>
        rw [first] at run
        cases run
        exact step state rest _ _ holds first
      | .ok (.inl next, there) =>
        rw [first] at run
        obtain ⟨after, rfl, kept⟩ := step state rest _ _ holds first
        exact ih next after kept run
  exact bounded (final :: rest) state rest start run

end Repetition

end Parser

/-! ## Whole lists of tokens -/

section Whole

variable {tokens : List Token} {final : Token}

theorem Stream.ofTokens?_append (inside : ∀ token ∈ tokens, token.kind ≠ .textEnd)
    (ends : final.kind = .textEnd) :
    Stream.ofTokens? (tokens ++ [final]) = some ⟨tokens, final⟩ := by
  have whole : (tokens ++ [final]).takeWhile (fun token => token.kind ≠ .textEnd) = tokens := by
    rw [List.takeWhile_append_of_pos (by simpa using inside), List.takeWhile_cons_of_neg (by simpa),
      List.append_nil]
  have none : tokens.find? (fun token => token.kind = .textEnd) = none :=
    List.find?_eq_none.mpr (by simpa using inside)
  have last : (tokens ++ [final]).find? (fun token => token.kind = .textEnd) = some final := by
    rw [List.find?_append, none, Option.none_or, List.find?_cons_of_pos (by simpa)]
  rw [Stream.ofTokens?, whole, last]

theorem Program.parseWithin_append (inside : ∀ token ∈ tokens, token.kind ≠ .textEnd)
    (ends : final.kind = .textEnd) (depth : Nat) :
    Program.parseWithin depth (tokens ++ [final]) =
      ((Parser.program depth).run ⟨tokens, final⟩).map Prod.fst := by
  rw [Program.parseWithin, Stream.ofTokens?_append inside ends]
  rfl

end Whole

end Marginalia
