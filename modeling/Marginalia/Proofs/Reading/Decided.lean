import Marginalia.Proofs.Reading.Followed

/-!
# What decides the outcome of a reader

A reader sees the tokens one by one. What it comes to is decided by the tokens it takes
and by little behind them: the kind of the next token, and for statements also the kind of
the first one that ends no line, where an `else` may stand (`Look`). If it refuses a token, the
outcome is decided by the tokens before that one and the token itself.

`Decided` puts these cases together. A reader that has read something gives the same
before all tokens that look the same (`Gives`). A reader that is stuck at a token is stuck
there whatever follows (`Sticks`); a hope, which is a parameter, says what is known about the
tokens before it. A reader that gives up has seen many tokens. `Decided` is closed under
the combinators of the reader.
-/

namespace Marginalia

/-! ## Looking ahead -/

/-- How far a reader looks behind the tokens it takes. -/
inductive Look where
  /-- At the kind of the next token. -/
  | next
  /-- Also at the kind of the first token that ends no line. -/
  | line

namespace Look

open Marginalia.Parser (pastLineEnds)

/-- The tokens look the same. -/
def Same : Look → List Token → List Token → Prop
  | .next, after, others => nextKind others = nextKind after
  | .line, after, others =>
    nextKind others = nextKind after ∧
      nextKind (pastLineEnds others) = nextKind (pastLineEnds after)

/-- The tokens decide how a text looks that begins with them. -/
def Fixed : Look → List Token → Prop
  | .next, seen => seen ≠ []
  | .line, seen => ∃ token ∈ seen, token.kind ≠ .lineEnd

variable {look : Look} {after others seen taken : List Token} {final last : Token}

theorem Same.nextKind_eq (same : look.Same after others) : nextKind others = nextKind after := by
  cases look with
  | next => exact same
  | line => exact same.1

theorem Same.nextKind_append (same : look.Same after others) (taken : List Token) :
    nextKind (taken ++ others) = nextKind (taken ++ after) := by
  cases taken with
  | nil => exact same.nextKind_eq
  | cons token taken => rfl

theorem nextKind_pastLineEnds_append (same : nextKind (pastLineEnds others) =
    nextKind (pastLineEnds after)) (taken : List Token) :
    nextKind (pastLineEnds (taken ++ others)) = nextKind (pastLineEnds (taken ++ after)) := by
  induction taken with
  | nil => exact same
  | cons token taken ih =>
    by_cases lineEnd : token.kind = .lineEnd
    · rw [List.cons_append, List.cons_append, Parser.pastLineEnds_cons_lineEnd lineEnd,
        Parser.pastLineEnds_cons_lineEnd lineEnd]
      exact ih
    · have stays : ∀ rest, pastLineEnds (token :: rest) = token :: rest :=
        fun rest => Parser.pastLineEnds_of_ne lineEnd
      rw [List.cons_append, List.cons_append, stays, stays]
      rfl

theorem Same.append (same : look.Same after others) (taken : List Token) :
    look.Same (taken ++ after) (taken ++ others) := by
  cases look with
  | next => exact same.nextKind_append taken
  | line => exact ⟨same.nextKind_append taken, nextKind_pastLineEnds_append same.2 taken⟩

theorem Fixed.append (fixed : look.Fixed seen) (taken : List Token) :
    look.Fixed (taken ++ seen) := by
  cases look with
  | next => exact List.append_ne_nil_of_right_ne_nil taken fixed
  | line =>
    obtain ⟨token, mem, plain⟩ := fixed
    exact ⟨token, List.mem_append_right taken mem, plain⟩

/-- The end of the text looks like nothing at all. -/
theorem nextKind_concat (ends : final.kind = .textEnd) (after : List Token) :
    nextKind (after ++ [final]) = nextKind after := by
  cases after with
  | nil => exact ends
  | cons token after => rfl

theorem nextKind_pastLineEnds_concat (ends : final.kind = .textEnd) (after : List Token) :
    nextKind (pastLineEnds (after ++ [final])) = nextKind (pastLineEnds after) := by
  have plain : pastLineEnds [final] = [final] := by
    refine Parser.pastLineEnds_of_ne ?_
    rw [nextKind_cons, ends]
    decide
  have alone : nextKind (pastLineEnds [final]) = nextKind (pastLineEnds []) := by
    rw [plain]
    exact ends
  have whole := nextKind_pastLineEnds_append alone after
  rwa [List.append_nil] at whole

theorem nextKind_of_shown (ends : final.kind = .textEnd) (some : seen ≠ [])
    (shown : seen <+: after ++ [final]) : nextKind after = nextKind seen := by
  obtain ⟨rest, whole⟩ := shown
  rw [← nextKind_concat ends, ← whole]
  cases seen with
  | nil => exact absurd rfl some
  | cons token seen => rfl

/-- Where something that is no line end was seen, what follows the line ends was seen as well. -/
theorem nextKind_pastLineEnds_of_shown (ends : final.kind = .textEnd)
    (clear : ∃ token ∈ seen, token.kind ≠ .lineEnd) (shown : seen <+: after ++ [final]) :
    nextKind (pastLineEnds after) = nextKind (pastLineEnds seen) := by
  obtain ⟨rest, whole⟩ := shown
  rw [← nextKind_pastLineEnds_concat ends, ← whole]
  clear whole
  induction seen with
  | nil =>
    obtain ⟨token, mem, _⟩ := clear
    exact absurd mem List.not_mem_nil
  | cons token seen ih =>
    by_cases lineEnd : token.kind = .lineEnd
    · rw [List.cons_append, Parser.pastLineEnds_cons_lineEnd lineEnd,
        Parser.pastLineEnds_cons_lineEnd lineEnd]
      obtain ⟨other, mem, plain⟩ := clear
      rcases List.mem_cons.mp mem with rfl | mem
      · exact absurd lineEnd plain
      · exact ih ⟨other, mem, plain⟩
    · have stays : ∀ rest, pastLineEnds (token :: rest) = token :: rest :=
        fun rest => Parser.pastLineEnds_of_ne lineEnd
      rw [List.cons_append, stays, stays]
      rfl

/-- Texts that begin with the same tokens look the same, if these decide it. -/
theorem Fixed.same (fixed : look.Fixed seen) (ends : final.kind = .textEnd)
    (lastEnds : last.kind = .textEnd) (shown : seen <+: after ++ [final])
    (shownThere : seen <+: others ++ [last]) : look.Same after others := by
  cases look with
  | next =>
    exact (nextKind_of_shown lastEnds fixed shownThere).trans
      (nextKind_of_shown ends fixed shown).symm
  | line =>
    have some : seen ≠ [] := by
      rintro rfl
      obtain ⟨token, mem, _⟩ := fixed
      exact absurd mem List.not_mem_nil
    exact ⟨(nextKind_of_shown lastEnds some shownThere).trans
        (nextKind_of_shown ends some shown).symm,
      (nextKind_pastLineEnds_of_shown lastEnds fixed shownThere).trans
        (nextKind_pastLineEnds_of_shown ends fixed shown).symm⟩

theorem Same.refl (look : Look) (after : List Token) : look.Same after after := by
  cases look with
  | next => rfl
  | line => exact ⟨rfl, rfl⟩

end Look

namespace Parser

variable {α β σ : Type}

/-! ## Outcomes that are decided -/

/-- Before all tokens that fit, the reader takes these tokens and gives the result. -/
def Gives (fits : List Token → Prop) (x : Parser α) (taken : List Token) (a : α) : Prop :=
  ∀ ⦃after : List Token⦄ ⦃final : Token⦄, final.kind = .textEnd → fits after →
    x.run ⟨taken ++ after, final⟩ = .ok (a, ⟨after, final⟩)

/-- On every text that begins with these tokens, the reader stops with the fault. -/
def Sticks (x : Parser α) (seen : List Token) (fault : Fault) : Prop :=
  ∀ ⦃before : List Token⦄ ⦃final : Token⦄, final.kind = .textEnd → seen <+: before ++ [final] →
    x.run ⟨before, final⟩ = .error fault

/-- What a reader that is stuck leaves known: the cause, the tokens before the one that it
refuses, and that one. -/
abbrev Hope := ParseCause → List Token → Token → Prop

/-- What the reader comes to on these tokens is decided by the tokens that it has seen. -/
inductive Decided (need : Nat) (look : Look) (hope : Hope) (x : Parser α) (before : List Token)
    (final : Token) : Prop
  | read (a : α) (taken : List Token) {after : List Token} :
    before = taken ++ after → Gives (look.Same after) x taken a →
    Decided need look hope x before final
  | stuck {cause : ParseCause} (taken : List Token) (found : Token) :
    taken ++ [found] <+: before ++ [final] → Sticks x (taken ++ [found]) (.parse cause found) →
    hope cause taken found → Decided need look hope x before final
  | deep : x.run ⟨before, final⟩ = .error .tooDeep → need ≤ 3 * before.length →
    Decided need look hope x before final

section Combinators

variable {need : Nat} {look : Look} {hope goal : Hope} {x : Parser α} {f : α → Parser β}
  {before taken : List Token} {token final : Token} {kinds : List TokenKind}

theorem Gives.run (ends : final.kind = .textEnd) {after : List Token} {a : α}
    (gives : Gives (look.Same after) x taken a) :
    x.run ⟨taken ++ after, final⟩ = .ok (a, ⟨after, final⟩) :=
  gives ends (.refl look after)

theorem Sticks.bind {seen : List Token} {fault : Fault} (sticks : Sticks x seen fault)
    (f : α → Parser β) : Sticks (x >>= f) seen fault :=
  fun _ _ ends shown => run_bind_of_error (sticks ends shown)

/-- What is shown behind some tokens is shown once they are taken. -/
theorem exists_of_shown_append {others seen : List Token} (some : seen ≠ [])
    (shown : taken ++ seen <+: others ++ [final]) :
    ∃ rest, others = taken ++ rest ∧ seen <+: rest ++ [final] := by
  obtain ⟨behind, whole⟩ := shown
  rw [List.append_assoc] at whole
  rcases List.append_eq_append_iff.mp whole with ⟨rest, all, split⟩ | ⟨early, all, split⟩
  · exact ⟨rest, all, behind, split⟩
  · cases early with
    | nil =>
      rw [List.append_nil] at all
      exact ⟨[], by rw [all, List.append_nil], behind, split.symm⟩
    | cons token early =>
      -- nothing is left for what is seen
      have none : early ++ (seen ++ behind) = [] := (List.cons.inj split).2.symm
      rw [List.append_eq_nil_iff, List.append_eq_nil_iff] at none
      exact absurd none.2.1 some

theorem Sticks.after {middle more : List Token} {found : Token} {a : α} {fault : Fault}
    (ends : final.kind = .textEnd) (gives : Gives (look.Same middle) x taken a)
    (fixed : look.Fixed (more ++ [found])) (shown : more ++ [found] <+: middle ++ [final])
    (sticks : Sticks (f a) (more ++ [found]) fault) :
    Sticks (x >>= f) (taken ++ more ++ [found]) fault := by
  intro others last lastEnds shownThere
  rw [List.append_assoc] at shownThere
  obtain ⟨rest, rfl, behind⟩ := exists_of_shown_append (by simp) shownThere
  rw [run_bind_of_ok (gives lastEnds (fixed.same ends lastEnds shown behind))]
  exact sticks lastEnds behind

theorem Decided.mono {least : Nat} (decided : Decided need look hope x before final)
    (enough : least ≤ need)
    (hopes : ∀ cause taken found, taken ++ [found] <+: before ++ [final] →
      hope cause taken found → goal cause taken found) :
    Decided least look goal x before final := by
  cases decided with
  | read a taken whole gives => exact .read a taken whole gives
  | stuck taken found shown sticks known =>
    exact .stuck taken found shown sticks (hopes _ _ _ shown known)
  | deep run long => exact .deep run (Nat.le_trans enough long)

theorem Decided.less {least : Nat} (decided : Decided need look hope x before final)
    (enough : least ≤ need) : Decided least look hope x before final :=
  decided.mono enough fun _ _ _ _ known => known

theorem decided_pure (a : α) (before : List Token) : Decided need look hope (pure a) before final :=
  .read a [] (List.nil_append before).symm fun _ _ _ _ => rfl

/-- One reader after another. The second one may be stuck only where the first one cannot see
beyond the tokens that the second has seen. -/
theorem Decided.bind {ahead : Look} (ends : final.kind = .textEnd)
    (first : Decided need ahead hope x before final)
    (sees : ∀ after others, look.Same after others → ahead.Same after others)
    (early : ∀ cause taken found, hope cause taken found → goal cause taken found)
    (next : ∀ ⦃a : α⦄ ⦃taken middle : List Token⦄, before = taken ++ middle →
      x.run ⟨before, final⟩ = .ok (a, ⟨middle, final⟩) →
      Decided need look (fun cause more found =>
        ahead.Fixed (more ++ [found]) ∧ goal cause (taken ++ more) found) (f a) middle final) :
    Decided need look goal (x >>= f) before final := by
  cases first with
  | stuck taken found shown sticks known =>
    exact .stuck taken found shown (sticks.bind f) (early _ _ _ known)
  | deep run long => exact .deep (run_bind_of_error run) long
  | @read a taken middle whole gives =>
    subst whole
    have run := gives.run ends
    cases next rfl run with
    | @read b more after whole givesNext =>
      subst whole
      refine .read b (taken ++ more) (List.append_assoc _ _ _).symm ?_
      intro others last lastEnds same
      rw [List.append_assoc, run_bind_of_ok (gives lastEnds (sees _ _ (same.append more)))]
      exact givesNext lastEnds same
    | @stuck cause more found shown sticks known =>
      refine .stuck (taken ++ more) found ?_ (.after ends gives known.1 shown sticks) known.2
      rw [List.append_assoc, List.append_assoc]
      exact (List.prefix_append_right_inj taken).mpr shown
    | deep runNext long =>
      refine .deep (by rw [run_bind_of_ok run, runNext]) ?_
      rw [List.length_append]
      omega

/-- One reader that looks at the next token only, and another one after it. -/
theorem Decided.next (ends : final.kind = .textEnd) (first : Decided need .next hope x before final)
    (early : ∀ cause taken found, hope cause taken found → goal cause taken found)
    (next : ∀ ⦃a : α⦄ ⦃taken middle : List Token⦄, before = taken ++ middle →
      x.run ⟨before, final⟩ = .ok (a, ⟨middle, final⟩) →
      Decided need look (fun cause more found => goal cause (taken ++ more) found) (f a) middle
        final) :
    Decided need look goal (x >>= f) before final := by
  refine first.bind ends (fun _ _ same => same.nextKind_eq) early fun a taken middle whole run => ?_
  refine (next whole run).mono (Nat.le_refl _) fun cause more found _ known => ⟨?_, known⟩
  exact List.append_ne_nil_of_right_ne_nil _ (List.cons_ne_nil _ _)

/-- A result is made of what was read. -/
theorem Decided.map {g : α → β} (ends : final.kind = .textEnd)
    (first : Decided need look hope x before final)
    (early : ∀ cause taken found, hope cause taken found → goal cause taken found) :
    Decided need look goal (x >>= fun a => pure (g a)) before final :=
  first.bind ends (fun _ _ same => same) early fun a _ middle _ _ => decided_pure (g a) middle

/-- A token is taken. -/
theorem Decided.take {f : Token → Parser β} {rest : List Token}
    (next : Decided need look (fun cause more found => goal cause (token :: more) found)
      (f token) rest final) :
    Decided (need + 3) look goal (take >>= f) (token :: rest) final := by
  cases next with
  | @read b taken after whole gives =>
    subst whole
    exact .read b (token :: taken) rfl fun others last ends same => gives ends same
  | @stuck cause taken found shown sticks known =>
    refine .stuck (token :: taken) found ((List.prefix_cons_inj token).mpr shown) ?_ known
    intro others last ends shownThere
    have again : [token] ++ (taken ++ [found]) <+: others ++ [last] := shownThere
    obtain ⟨rest, rfl, behind⟩ := exists_of_shown_append (by simp) again
    exact sticks ends behind
  | deep run long =>
    refine .deep run ?_
    rw [List.length_cons]
    omega

/-- Readers that do the same wherever the next token is of the same kind are decided alike. -/
theorem Decided.of_same_next {y : Parser α} (ends : final.kind = .textEnd)
    (decided : Decided need look goal x before final)
    (same : ∀ others last, last.kind = .textEnd → nextKind others = nextKind before →
      y.run ⟨others, last⟩ = x.run ⟨others, last⟩) :
    Decided need look goal y before final := by
  cases decided with
  | read a taken whole gives =>
    subst whole
    refine .read a taken rfl fun others last lastEnds looks => ?_
    rw [same _ last lastEnds (looks.nextKind_append taken)]
    exact gives lastEnds looks
  | @stuck cause taken found shown sticks known =>
    refine .stuck taken found shown (fun others last lastEnds shownThere => ?_) known
    have fixed : Look.next.Fixed (taken ++ [found]) :=
      List.append_ne_nil_of_right_ne_nil _ (List.cons_ne_nil _ _)
    rw [same others last lastEnds (fixed.same ends lastEnds shown shownThere)]
    exact sticks lastEnds shownThere
  | deep run long => exact .deep ((same before final ends rfl).trans run) long

/-- The kind of the next token is looked at. -/
theorem Decided.peek {h : Token → Parser α} (ends : final.kind = .textEnd)
    (kindOnly : ∀ seen other : Token, seen.kind = other.kind → h seen = h other)
    (next : Decided need look goal (h (before.headD final)) before final) :
    Decided need look goal (peek >>= h) before final := by
  refine next.of_same_next ends fun others last lastEnds same => ?_
  have kinds : (others.headD last).kind = (before.headD final).kind := by
    rw [kind_headD lastEnds, kind_headD ends, same]
  rw [run_bind_of_ok (run_peek _), kindOnly _ _ kinds]

theorem decided_fail (ends : final.kind = .textEnd) {cause : ParseCause}
    (known : ∀ found, nextKind before = found.kind → hope cause [] found) :
    Decided need look hope (fail cause : Parser α) before final := by
  refine .stuck [] (before.headD final) ?_ ?_ (known _ (kind_headD ends before).symm)
  · cases before with
    | nil => exact List.prefix_rfl
    | cons token before => exact List.prefix_append [token] _
  · intro others last _ shown
    obtain ⟨rest, whole⟩ := shown
    have head : others.headD last = before.headD final := by
      cases others with
      | nil => exact (List.cons.inj whole).1.symm
      | cons token others => exact (List.cons.inj whole).1.symm
    rw [fail, run_bind_of_ok (run_peek _), head]
    rfl

/-- A token of one of the kinds is taken. -/
theorem Decided.takeIf_some {f : Option Token → Parser β} {rest : List Token}
    (ends : final.kind = .textEnd) (inside : .textEnd ∉ kinds) (mem : token.kind ∈ kinds)
    (next : Decided need look (fun cause more found => goal cause (token :: more) found)
      (f (some token)) rest final) :
    Decided (need + 3) look goal (takeIf kinds >>= f) (token :: rest) final := by
  have taken : Decided (need + 3) look goal (Parser.take >>= fun found => f (some found))
      (token :: rest) final := next.take
  refine taken.of_same_next ends fun others last _ same => ?_
  obtain ⟨other, rest, rfl, kind⟩ := exists_of_nextKind same (fun none => inside (none ▸ mem))
  rw [run_bind_of_ok (run_takeIf_of_mem (kind ▸ mem)), run_bind_of_ok run_take_cons]

/-- No token of the kinds is there. -/
theorem Decided.takeIf_none {f : Option Token → Parser β} (ends : final.kind = .textEnd)
    (free : nextKind before ∉ kinds) (next : Decided need look goal (f none) before final) :
    Decided need look goal (takeIf kinds >>= f) before final := by
  refine next.of_same_next ends fun others last lastEnds same => ?_
  rw [run_bind_of_ok (run_takeIf_of_not_mem lastEnds (same ▸ free))]

/-- A token of one of the kinds is taken if there is one. -/
theorem Decided.takeIf {f : Option Token → Parser β} (ends : final.kind = .textEnd)
    (inside : .textEnd ∉ kinds)
    (some : ∀ ⦃token rest⦄, before = token :: rest → token.kind ∈ kinds →
      Decided need look (fun cause more found => goal cause (token :: more) found)
        (f (some token)) rest final)
    (none : nextKind before ∉ kinds → Decided need look goal (f none) before final) :
    Decided need look goal (takeIf kinds >>= f) before final := by
  by_cases mem : nextKind before ∈ kinds
  · obtain ⟨token, rest, rfl, kind⟩ := exists_of_nextKind rfl fun none => inside (none ▸ mem)
    exact (Decided.takeIf_some ends inside mem (some rfl mem)).less (Nat.le_add_right need 3)
  · exact .takeIf_none ends mem (none mem)

/-- A token of the kind is taken, or it is missing. -/
theorem Decided.expect {f : Token → Parser β} {kind : TokenKind} {part : Part}
    (ends : final.kind = .textEnd) (inside : kind ≠ .textEnd)
    (missing : ∀ found, nextKind before = found.kind → found.kind ≠ kind →
      goal (.missing part) [] found)
    (next : ∀ ⦃token rest⦄, before = token :: rest → token.kind = kind →
      Decided need look (fun cause more found => goal cause (token :: more) found) (f token) rest
        final) :
    Decided need look goal (expect kind part >>= f) before final := by
  by_cases there : nextKind before = kind
  · obtain ⟨token, rest, rfl, same⟩ := exists_of_nextKind there inside
    have taken : Decided (need + 3) look goal (Parser.take >>= f) (token :: rest) final :=
      (next rfl same).take
    have taken := taken.of_same_next (y := expect kind part >>= f) ends fun others last _ next => by
      obtain ⟨other, rest, rfl, kind⟩ := exists_of_nextKind (next.trans there) inside
      rw [run_bind_of_ok (run_expect_of_kind kind), run_bind_of_ok run_take_cons]
    exact taken.less (Nat.le_add_right need 3)
  · have failed : Decided need look goal (fail (.missing part) : Parser β) before final :=
      decided_fail ends fun found same => missing found same (fun kind => there (same.trans kind))
    refine failed.of_same_next ends fun others last lastEnds next => ?_
    have free : nextKind others ∉ [kind] := by
      rw [next]
      exact fun mem => there (List.mem_singleton.mp mem)
    rw [Parser.expect, bind_assoc, run_bind_of_ok (run_takeIf_of_not_mem lastEnds free)]
    rfl

/-- The line ends are skipped. -/
theorem Decided.skipLineEnds {f : Unit → Parser β} {lineEnds rest : List Token}
    (ends : final.kind = .textEnd) (all : Grammar.LineEnds lineEnds)
    (free : nextKind rest ≠ .lineEnd)
    (next : Decided need look (fun cause more found => goal cause (lineEnds ++ more) found) (f ())
      rest final) :
    Decided need look goal (skipLineEnds >>= f) (lineEnds ++ rest) final := by
  have past : ∀ others, nextKind others = nextKind rest →
      pastLineEnds (lineEnds ++ others) = others := fun others same => by
    rw [Grammar.pastLineEnds_append all]
    exact pastLineEnds_of_ne (same ▸ free)
  have skip : ∀ others last, last.kind = .textEnd → nextKind others = nextKind rest →
      (Parser.skipLineEnds >>= f).run ⟨lineEnds ++ others, last⟩ = (f ()).run ⟨others, last⟩ :=
    fun others last lastEnds same => by
      rw [run_bind_of_ok (run_skipLineEnds lastEnds _), past others same]
  cases next with
  | @read b taken after whole gives =>
    subst whole
    refine .read b (lineEnds ++ taken) (List.append_assoc _ _ _).symm ?_
    intro others last lastEnds same
    rw [List.append_assoc, skip _ last lastEnds (same.nextKind_append taken)]
    exact gives lastEnds same
  | @stuck cause taken found shown sticks known =>
    refine .stuck (lineEnds ++ taken) found ?_ ?_ known
    · rw [List.append_assoc, List.append_assoc]
      exact (List.prefix_append_right_inj lineEnds).mpr shown
    · intro others last lastEnds shownThere
      rw [List.append_assoc] at shownThere
      obtain ⟨others, rfl, behind⟩ := exists_of_shown_append (by simp) shownThere
      have fixed : Look.next.Fixed (taken ++ [found]) :=
        List.append_ne_nil_of_right_ne_nil _ (List.cons_ne_nil _ _)
      rw [skip others last lastEnds (fixed.same ends lastEnds shown behind)]
      exact sticks lastEnds behind
  | deep run long =>
    refine .deep ((skip rest final ends rfl).trans run) ?_
    rw [List.length_append]
    omega

/-- The kind of the first token that ends no line is looked at. -/
theorem Decided.kindPastLineEnds {f : TokenKind → Parser β} (ends : final.kind = .textEnd)
    (next : Decided need .line (fun cause more found => Look.line.Fixed (more ++ [found]) ∧
      goal cause more found) (f (nextKind (pastLineEnds before))) before final) :
    Decided need .line goal (kindPastLineEnds >>= f) before final := by
  have looks : ∀ {others last}, last.kind = .textEnd → Look.line.Same before others →
      (Parser.kindPastLineEnds >>= f).run ⟨others, last⟩ =
        (f (nextKind (pastLineEnds before))).run ⟨others, last⟩ := by
    intro others last lastEnds same
    rw [run_bind_of_ok (run_kindPastLineEnds lastEnds others), same.2]
  cases next with
  | read b taken whole gives =>
    subst whole
    refine .read b taken rfl fun others last lastEnds same => ?_
    rw [looks lastEnds (same.append taken)]
    exact gives lastEnds same
  | stuck taken found shown sticks known =>
    refine .stuck taken found shown (fun others last lastEnds shownThere => ?_) known.2
    rw [looks lastEnds (known.1.same ends lastEnds shown shownThere)]
    exact sticks lastEnds shownThere
  | deep run long => exact .deep ((looks ends (.refl .line before)).trans run) long

/-- A repetition. `done` are the tokens that earlier rounds have taken, and `inv` is what they
leave behind them. -/
theorem Decided.repeatFrom {round : σ → Parser (σ ⊕ β)} (ends : final.kind = .textEnd)
    (inv : σ → List Token → List Token → Prop)
    (shrinks : ∀ ⦃last⦄, last.kind = .textEnd → Shrinks last round)
    (step : ∀ ⦃state done rest⦄, inv state done rest → Decided need look
      (fun cause more found => look.Fixed (more ++ [found]) ∧ goal cause (done ++ more) found)
      (round state) rest final)
    (keep : ∀ ⦃state done rest next taken after⦄, inv state done rest → rest = taken ++ after →
      (round state).run ⟨rest, final⟩ = .ok (.inl next, ⟨after, final⟩) →
      inv next (done ++ taken) after)
    {state : σ} {done rest : List Token} (start : inv state done rest) :
    Decided need look
      (fun cause more found => look.Fixed (more ++ [found]) ∧ goal cause (done ++ more) found)
      (repeatFrom state round) rest final := by
  induction length : rest.length using Nat.strongRecOn generalizing state done rest with
  | ind bound ih =>
    have again : ∀ others last, last.kind = .textEnd →
        (Parser.repeatFrom state round).run ⟨others, last⟩ =
          (round state >>= fun outcome => match outcome with
            | .inl next => Parser.repeatFrom next round
            | .inr result => pure result).run ⟨others, last⟩ := by
      intro others last lastEnds
      rw [run_repeatFrom (shrinks lastEnds)]
      cases run : (round state).run ⟨others, last⟩ with
      | error fault => rw [run_bind_of_error run]; rfl
      | ok result =>
        obtain ⟨outcome, after⟩ := result
        rw [run_bind_of_ok run]
        cases outcome <;> rfl
    refine Decided.of_same_next ends ?_ fun others last lastEnds _ => again others last lastEnds
    refine (step start).bind ends (fun _ _ same => same) (fun _ _ _ known => known) ?_
    intro outcome taken after whole run
    cases outcome with
    | inr result => exact decided_pure result after
    | inl next =>
      obtain ⟨_, same, shorter⟩ := shrinks ends state rest next _ run
      cases same
      subst length
      have rest := ih _ shorter (keep start whole run) rfl
      refine rest.mono (Nat.le_refl _) fun cause more found _ known => ⟨known.1, ?_, ?_⟩
      · rw [List.append_assoc]
        exact known.1.append taken
      · rw [← List.append_assoc]
        exact known.2

/-- A repetition whose rounds look at the next token only. -/
theorem Decided.repeatNext {round : σ → Parser (σ ⊕ β)} (ends : final.kind = .textEnd)
    (inv : σ → List Token → List Token → Prop)
    (shrinks : ∀ ⦃last⦄, last.kind = .textEnd → Shrinks last round)
    (step : ∀ ⦃state done rest⦄, inv state done rest → Decided need .next
      (fun cause more found => goal cause (done ++ more) found) (round state) rest final)
    (keep : ∀ ⦃state done rest next taken after⦄, inv state done rest → rest = taken ++ after →
      (round state).run ⟨rest, final⟩ = .ok (.inl next, ⟨after, final⟩) →
      inv next (done ++ taken) after)
    {state : σ} {done rest : List Token} (start : inv state done rest) :
    Decided need .next (fun cause more found => goal cause (done ++ more) found)
      (Parser.repeatFrom state round) rest final := by
  have some : ∀ (more : List Token) (found : Token), Look.next.Fixed (more ++ [found]) :=
    fun more found => List.append_ne_nil_of_right_ne_nil _ (List.cons_ne_nil _ _)
  have decided : Decided need .next (fun cause more found =>
      Look.next.Fixed (more ++ [found]) ∧ goal cause (done ++ more) found)
      (Parser.repeatFrom state round) rest final :=
    Decided.repeatFrom ends inv shrinks (fun state done rest holds => (step holds).mono
      (Nat.le_refl _) fun cause more found _ known => ⟨some more found, known⟩) keep start
  exact decided.mono (Nat.le_refl _) fun _ _ _ _ known => known.2

/-- Before a token that ends no line, looking past the line ends is looking at the next token. -/
theorem Decided.of_line (ends : final.kind = .textEnd)
    (decided : Decided need .line hope x before final)
    (stops : ∀ ⦃a after⦄, x.run ⟨before, final⟩ = .ok (a, ⟨after, final⟩) →
      nextKind after ≠ .lineEnd) : Decided need .next hope x before final := by
  cases decided with
  | read a taken whole gives =>
    subst whole
    have plain := stops (gives.run ends)
    refine .read a taken rfl fun others last lastEnds same => gives lastEnds ⟨same, ?_⟩
    have otherPlain : nextKind others ≠ .lineEnd := by
      rw [show nextKind others = _ from same]
      exact plain
    rw [pastLineEnds_of_ne plain, pastLineEnds_of_ne otherPlain]
    exact same
  | stuck taken found shown sticks known => exact .stuck taken found shown sticks known
  | deep run long => exact .deep run long

end Combinators

end Parser

end Marginalia
