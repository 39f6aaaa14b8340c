import Marginalia.Proofs.Reading.Decided

/-!
# Beginnings of phrases

Some tokens begin a phrase if more tokens complete it (`Begins`). A reader that is stuck at a
token has taken tokens that begin what it reads: with this hope all readers of expressions are
`Decided` (`Guided`), production by production. The one exception is a list that is too long,
which no tokens can mend.
-/

namespace Marginalia

open Grammar (Phrase Primary LeftGrouped Separated Listed Name)
open Marginalia.Derivation (Negated Plain Called Expression Condition Detaches Anything)

/-! ## Beginnings of phrases -/

/-- Some more tokens make the tokens a phrase before all others that fit behind it. -/
def Begins {α : Type} (fits : List Token → Prop) (form : Phrase α) (taken : List Token) : Prop :=
  ∃ more a, (∀ token ∈ more, token.kind ≠ .textEnd) ∧
    ∀ after, fits after → form (taken ++ (more ++ after)) a after

/-- Whatever stands behind. -/
def Anywhere (_ : List Token) : Prop := True

/-- Something stands behind that ends a line. -/
def AtLineEnd (after : List Token) : Prop :=
  nextKind after ∈ Parser.returnStops

/-- A token of a kind, for want of a better one. -/
def filler (kind : TokenKind) : Token :=
  ⟨kind, "", none, default⟩

section Begins

variable {α β : Type} {fits fitsToo : List Token → Prop} {form : Phrase α} {whole : Phrase β}
  {taken : List Token}

theorem begins_of_fillers {a : α} (kinds : List TokenKind) (inside : .textEnd ∉ kinds)
    (read : ∀ after, fits after → form (taken ++ (kinds.map filler ++ after)) a after) :
    Begins fits form taken := by
  refine ⟨kinds.map filler, a, fun token mem => ?_, read⟩
  obtain ⟨kind, here, rfl⟩ := List.mem_map.mp mem
  exact fun same => inside (same ▸ here)

/-- A larger phrase is begun by what begins a part of it. -/
theorem Begins.extend {begun : List Token} (begins : Begins fits form taken) (front : List Token)
    (kinds : List TokenKind) (split : begun = front ++ taken) (inside : .textEnd ∉ kinds)
    (larger : ∀ ⦃phrase : List Token⦄ ⦃a : α⦄, taken <+: phrase →
      (∀ after, fits after → form (phrase ++ after) a after) →
      ∃ b, ∀ after, fitsToo after →
        whole (front ++ (phrase ++ (kinds.map filler ++ after))) b after) :
    Begins fitsToo whole begun := by
  obtain ⟨more, a, plain, read⟩ := begins
  obtain ⟨b, larger⟩ := larger (List.prefix_append taken more) fun after fits => by
    rw [List.append_assoc]
    exact read after fits
  refine ⟨more ++ kinds.map filler, b, fun token mem => ?_, fun after fits => ?_⟩
  · rcases List.mem_append.mp mem with early | late
    · exact plain token early
    · obtain ⟨kind, here, rfl⟩ := List.mem_map.mp late
      exact fun same => inside (same ▸ here)
  · have read := larger after fits
    rw [split]
    simp only [List.append_assoc] at read ⊢
    exact read

end Begins

namespace Parser

/-- Unless a list is too long, the tokens before the refused one begin a phrase of the form. -/
def hopeFor {α : Type} (fits : List Token → Prop) (form : Phrase α) : Hope :=
  fun cause taken _ => cause ≠ .tooManyArguments → Begins fits form taken

/-- The reader reads phrases of the form, and is stuck only where the tokens begin one. -/
structure Guided {α : Type} (need : Nat) (x : Parser α) (form : Phrase α) : Prop where
  sound : ∀ ⦃final : Token⦄, final.kind = .textEnd → Sound final x form
  detaches : Detaches Anything form
  decided : ∀ ⦃before : List Token⦄ ⦃final : Token⦄, final.kind = .textEnd →
    Decided need .next (hopeFor Anywhere form) x before final

variable {α : Type} {need depth : Nat} {form : Phrase α} {x : Parser α}
  {before taken middle : List Token} {final : Token}

/-- What was read is a phrase whatever follows it. -/
theorem free_of_run {fits : List Token → List Token → Prop} {a : α} (sound : Sound final x form)
    (detaches : Detaches fits form) (whole : before = taken ++ middle)
    (run : x.run ⟨before, final⟩ = .ok (a, ⟨middle, final⟩)) :
    ∀ others, fits middle others → form (taken ++ others) a others := by
  obtain ⟨after, same, read⟩ := sound run
  cases same
  obtain ⟨own, split, free⟩ := detaches read
  rw [whole] at split
  rw [List.append_cancel_right split]
  exact free

theorem Guided.free (guided : Guided need x form) (ends : final.kind = .textEnd) {a : α}
    (whole : before = taken ++ middle) (run : x.run ⟨before, final⟩ = .ok (a, ⟨middle, final⟩))
    (others : List Token) : form (taken ++ others) a others :=
  free_of_run (guided.sound ends) guided.detaches whole run others trivial

/-! ## Expressions -/

theorem exists_primary {token : Token} (mem : token.kind ∈ Grammar.operandKinds) :
    ∃ expr, ∀ others, Primary (token :: others) expr others := by
  cases kind : token.kind with
  | falseWord => exact ⟨_, fun _ => .falsehood kind⟩
  | trueWord => exact ⟨_, fun _ => .truth kind⟩
  | nothingWord => exact ⟨_, fun _ => .nothing kind⟩
  | string => exact ⟨_, fun _ => .text kind⟩
  | name => exact ⟨_, fun _ => .name kind⟩
  | _ =>
    rw [kind] at mem
    exact absurd mem (by decide)

theorem run_primary_of_not_mem (ends : final.kind = .textEnd)
    (other : nextKind before ∉ Grammar.operandKinds) :
    primary.run ⟨before, final⟩ = (fail .noExpression : Parser Expr).run ⟨before, final⟩ := by
  rw [primary, run_bind_of_ok (run_peek _)]
  rw [← kind_headD ends] at other
  generalize before.headD final = token at other
  cases kind : token.kind with
  | falseWord | trueWord | nothingWord | string | name =>
    rw [kind] at other
    exact absurd other (by decide)
  | _ => rfl

theorem begins_expression : Begins Anywhere Primary [] :=
  begins_of_fillers [.name] (by decide) fun _ _ => .name rfl

theorem guided_primary (need : Nat) : Guided need primary Primary where
  sound _ ends := sound_primary ends
  detaches := Derivation.detaches_primary
  decided before final ends := by
    by_cases mem : nextKind before ∈ Grammar.operandKinds
    · obtain ⟨token, rest, rfl, kind⟩ := exists_of_nextKind rfl fun none => by
        rw [none] at mem
        exact absurd mem (by decide)
      obtain ⟨expr, read⟩ := exists_primary mem
      exact .read expr [token] rfl fun others last lastEnds _ =>
        (agrees_primary lastEnds).complete (read others) nofun
    · have failed : Decided need .next (hopeFor Anywhere Primary)
          (fail .noExpression : Parser Expr) before final :=
        decided_fail ends fun _ _ _ => begins_expression
      refine failed.of_same_next ends fun others last lastEnds same => ?_
      exact run_primary_of_not_mem lastEnds (same ▸ mem)

section Operators

variable {operand : Parser Expr} {form : Phrase Expr}

theorem sound_negated_derived (ends : final.kind = .textEnd) (sound : Sound final operand form)
    (depth : Nat) : Sound final (negated operand depth) (Negated form) := by
  have uncounted : ∀ {before expr after}, Grammar.Negated form depth before expr after →
      Negated form before expr after := by
    intro before expr after read
    induction read with
    | operand read => exact .operand read
    | negation kind _ ih => exact .negation kind ih
  intro before expr last run
  obtain ⟨after, rfl, read⟩ := sound_negated ends sound depth run
  exact ⟨after, rfl, uncounted read⟩

/-- Negations are read one `not` after the other, and the reader is stuck only where its operand is.
-/
theorem guided_negated (guided : Guided need operand form) (enough : depth < need) :
    Guided (depth + 1) (negated operand depth) (Negated form) where
  sound _ ends := sound_negated_derived ends (guided.sound ends) depth
  detaches := Derivation.detaches_negated guided.detaches
  decided before final ends := by
    have bare : ∀ {least before}, least ≤ need →
        Decided least .next (hopeFor Anywhere (Negated form)) operand before final := by
      intro least before enough
      refine (guided.decided ends).mono enough fun cause taken found _ hope few => ?_
      exact (hope few).extend [] [] rfl nofun fun phrase expr _ read =>
        ⟨expr, fun after _ => .operand (read after trivial)⟩
    have more : ∀ {operator found : Token} {cause taken}, operator.kind = .notWord →
        hopeFor Anywhere (Negated form) cause taken found →
        hopeFor Anywhere (Negated form) cause (operator :: taken) found :=
      fun {operator _ _ _} kind hope few => (hope few).extend [operator] [] rfl nofun
        fun phrase expr _ read => ⟨_, fun after _ => .negation kind (read after trivial)⟩
    induction depth generalizing before with
    | zero =>
      rw [negated]
      by_cases not : nextKind before = .notWord
      · obtain ⟨operator, rest, rfl, kind⟩ := exists_of_nextKind not (by decide)
        have deep : Decided 0 .next (fun cause more found =>
            hopeFor Anywhere (Negated form) cause (operator :: more) found)
            (throw .tooDeep : Parser Expr) rest final := .deep rfl (Nat.zero_le _)
        exact (Decided.takeIf_some ends (by decide) (List.mem_singleton.mpr kind) deep).less
          (by decide)
      · exact .takeIf_none ends (fun mem => not (List.mem_singleton.mp mem)) (bare enough)
    | succ depth ih =>
      rw [negated]
      by_cases not : nextKind before = .notWord
      · obtain ⟨operator, rest, rfl, kind⟩ := exists_of_nextKind not (by decide)
        refine (Decided.takeIf_some ends (by decide) (List.mem_singleton.mpr kind)
          ((ih (by omega) rest).map ends ?_)).less (by omega)
        exact fun _ _ _ hope => more kind hope
      · exact .takeIf_none ends (fun mem => not (List.mem_singleton.mp mem)) (bare enough)

variable {node : Span → Expr → Token → Expr → Expr} {kinds : List TokenKind}

theorem shrinks_moreOperands_of_detaches (ends : final.kind = .textEnd)
    (sound : Sound final operand form) (detaches : Detaches Anything form) :
    Shrinks final (moreOperands node kinds operand) := by
  intro left rest next last run
  rcases of_run_moreOperands ends sound run with
    ⟨operator, middle, right, after, rfl, _, read, rfl, _⟩ | ⟨stopped, _⟩
  · obtain ⟨taken, rfl, _⟩ := detaches read
    refine ⟨after, rfl, ?_⟩
    rw [List.length_cons, List.length_append]
    omega
  · cases stopped

/-- Behind an operator the reader may be stuck in the next operand; what it has read up to there is
the left side of a longer phrase. -/
theorem guided_leftGrouped (inside : .textEnd ∉ kinds) (guided : Guided need operand form) :
    Guided need (leftGrouped node kinds operand) (LeftGrouped node kinds form) where
  sound _ ends := sound_leftGrouped ends (guided.sound ends)
  detaches := Derivation.detaches_leftGrouped guided.detaches
  decided before final ends := by
    refine (guided.decided ends).next ends (fun cause taken found hope few => ?_) ?_
    · exact (hope few).extend [] [] rfl nofun fun phrase expr _ read =>
        ⟨expr, fun after _ => .single (read after trivial)⟩
    intro first taken middle whole run
    -- the operands so far are a phrase, whatever follows
    refine Decided.repeatNext ends (fun left done _ => ∀ others,
      LeftGrouped node kinds form (done ++ others) left others) ?_ ?_ ?_
      fun others => .single (guided.free ends whole run others)
    · exact fun last lastEnds =>
        shrinks_moreOperands_of_detaches lastEnds (guided.sound lastEnds) guided.detaches
    · intro left done rest soFar
      refine .takeIf ends inside (fun operator behind _ mem => ?_) fun _ => decided_pure _ rest
      refine (guided.decided ends).map ends fun cause more found hope few => ?_
      refine (hope few).extend (done ++ [operator]) [] (by simp) nofun fun phrase expr _ read => ?_
      refine ⟨node (left.span.upTo expr.span) left operator expr, fun after _ => ?_⟩
      rw [List.append_assoc]
      exact .more (soFar _) mem (read after trivial)
    · intro left done rest next taken after soFar whole run others
      rcases of_run_moreOperands ends (guided.sound ends) run with
        ⟨operator, behind, right, last, rfl, mem, read, same, result⟩ | ⟨stopped, _⟩
      · cases same
        cases result
        obtain ⟨own, rfl, free⟩ := guided.detaches read
        have split : taken = operator :: own := (List.append_cancel_right whole).symm
        rw [split, List.append_assoc]
        exact .more (soFar _) mem (free others trivial)
      · cases stopped

theorem guided_expressionOver (guided : Guided (depth + 1) operand form) :
    Guided (depth + 1) (expressionOver operand depth) (Derivation.ExpressionOver form) :=
  guided_leftGrouped (by decide) (guided_leftGrouped (by decide) (guided_leftGrouped (by decide)
    (guided_negated guided (Nat.lt_succ_self depth))))

end Operators

theorem guided_plain (depth : Nat) : Guided (depth + 1) (plainExpression depth) Plain :=
  guided_expressionOver (guided_primary (depth + 1))

theorem guided_expect_name (need : Nat) (part : Part) : Guided need (expect .name part) Name where
  sound _ ends := sound_expect_name ends part
  detaches := Derivation.detaches_name
  decided before final ends := by
    have plain : Decided need .next (hopeFor Anywhere Name) (expect .name part >>= pure) before
        final := by
      refine .expect ends (by decide) (fun _ _ _ _ => ?_) fun token rest _ _ => decided_pure _ rest
      exact begins_of_fillers [.name] (by decide) fun _ _ => .intro rfl
    rwa [bind_pure] at plain

/-- The tokens are the items with a comma behind each of them. -/
def ItemsSoFar (form : Phrase α) (items : List α) (done : List Token) : Prop :=
  (items = [] ∧ done = []) ∨ ∃ front comma, done = front ++ [comma] ∧ comma.kind = .comma ∧
    ∀ others, Separated form (front ++ others) items others

theorem ItemsSoFar.separated {items : List α} {done phrase : List Token} {found : α}
    (soFar : ItemsSoFar form items done) (room : items.length < argumentLimit)
    (read : ∀ others, form (phrase ++ others) found others) (others : List Token) :
    Separated form (done ++ (phrase ++ others)) (items ++ [found]) others := by
  rcases soFar with ⟨rfl, rfl⟩ | ⟨front, comma, rfl, kind, free⟩
  · exact .single (read others)
  · rw [List.append_assoc]
    exact .more (free _) kind room (read others)

theorem decided_moreItems {items : List α} {done : List Token} (guided : Guided need x form)
    (ends : final.kind = .textEnd) (soFar : ItemsSoFar form items done) :
    Decided need .next
      (fun cause more found => hopeFor Anywhere (Separated form) cause (done ++ more) found)
      (moreItems x items) before final := by
  rw [moreItems]
  split
  next => exact decided_fail ends fun _ _ few => absurd rfl few
  next full =>
    have room : items.length < argumentLimit := Nat.lt_of_not_le full
    refine (guided.decided ends).next ends (fun cause taken found hope few => ?_) ?_
    · exact (hope few).extend done [] rfl List.not_mem_nil fun phrase found _ read =>
        ⟨items ++ [found], fun after _ =>
          soFar.separated room (fun others => read others trivial) after⟩
    · intro found taken middle _ _
      exact .takeIf ends (by decide) (fun comma rest _ _ => decided_pure _ rest)
        fun _ => decided_pure _ middle

theorem shrinks_moreItems_of_guided (guided : Guided need x form) (ends : final.kind = .textEnd) :
    Shrinks final (moreItems x) := by
  intro items rest next last run
  obtain ⟨_, found, middle, read, outcome⟩ := of_run_moreItems ends (guided.sound ends) run
  obtain ⟨taken, rfl, _⟩ := guided.detaches read
  rcases outcome with ⟨comma, after, rfl, _, rfl, _⟩ | ⟨stopped, _⟩
  · refine ⟨after, rfl, ?_⟩
    rw [List.length_append, List.length_cons]
    omega
  · cases stopped

/-- Behind a comma the reader may be stuck in the next item, and then the items are not at their
end. -/
theorem guided_separated (guided : Guided need x form) :
    Guided need (separated x) (Separated form) where
  sound _ ends := sound_separated ends (guided.sound ends)
  detaches := Derivation.detaches_separated guided.detaches
  decided before final ends := by
    refine Decided.repeatNext ends (fun items done _ => ItemsSoFar form items done)
      (fun _ lastEnds => shrinks_moreItems_of_guided guided lastEnds)
      (fun _ _ _ soFar => decided_moreItems guided ends soFar) ?_
      (.inl ⟨rfl, rfl⟩ : ItemsSoFar form [] [])
    intro items done rest _ taken after soFar whole run
    obtain ⟨room, found, middle, read, outcome⟩ := of_run_moreItems ends (guided.sound ends) run
    obtain ⟨own, rfl, free⟩ := guided.detaches read
    rcases outcome with ⟨comma, last, rfl, kind, same, result⟩ | ⟨stopped, _⟩
    · cases same
      cases result
      have split : taken = own ++ [comma] :=
        List.append_cancel_right (by rw [← whole, List.append_assoc]; rfl)
      refine .inr ⟨done ++ own, comma, by rw [split, List.append_assoc], kind, fun others => ?_⟩
      rw [List.append_assoc]
      exact soFar.separated room (fun others => free others trivial) others
    · cases stopped

theorem guided_listed (guided : Guided need x form) : Guided need (listed x) (Listed form) where
  sound _ ends := sound_listed ends (guided.sound ends)
  detaches := Derivation.detaches_listed guided.detaches
  decided before final ends := by
    refine .peek ends (fun seen other same => by rw [same]) ?_
    split
    next => exact decided_pure _ before
    next =>
      refine ((guided_separated guided).decided ends).mono (Nat.le_refl _) ?_
      intro cause taken found _ hope few
      exact (hope few).extend [] [] rfl nofun fun phrase items _ read =>
        ⟨items, fun after _ => .some (read after trivial)⟩

section Calls

variable {done : List Token} {callee : Expr}

/-- A callee is still one behind its arguments. -/
theorem call_free {opening marker : Token} {arguments : List Expr} {phrase : List Token}
    (soFar : ∀ others, Called (done ++ others) callee others) (openingKind : opening.kind = .dash)
    (read : ∀ others, Listed Plain (phrase ++ others) arguments others)
    (markerKind : marker.kind = .dash) (others : List Token) :
    Called (done ++ opening :: (phrase ++ marker :: others))
      (.call (callee.span.upTo marker.span) callee marker arguments) others :=
  .call (soFar _) openingKind (read _) markerKind

/-- After the callee that was read so far, further calls of it are decided by the tokens that were
seen, and by the next one. -/
theorem decided_moreCalls (ends : final.kind = .textEnd)
    (soFar : ∀ others, Called (done ++ others) callee others) :
    Decided (depth + 1) .next
      (fun cause more found => hopeFor Anywhere Called cause (done ++ more) found)
      (moreCalls depth callee) before final := by
  have listed := guided_listed (guided_plain depth)
  refine .takeIf ends (by decide) (fun opening behind _ mem => ?_) fun _ => decided_pure _ before
  have kind := List.mem_singleton.mp mem
  refine (listed.decided ends).next ends (fun cause taken found hope few => ?_) ?_
  · refine (hope few).extend (done ++ [opening]) [.dash] (by simp) (by decide) ?_
    intro phrase arguments _ read
    refine ⟨.call (callee.span.upTo (filler .dash).span) callee (filler .dash) arguments, ?_⟩
    intro after _
    rw [List.append_assoc]
    exact call_free soFar kind (fun others => read others trivial) rfl after
  · intro arguments taken middle whole run
    have read := listed.free ends whole run
    refine .expect ends (by decide) (fun found _ _ _ => ?_)
      fun marker rest _ _ => decided_pure _ rest
    rw [List.append_nil]
    exact begins_of_fillers [.dash] (by decide) fun after _ => by
      rw [List.append_assoc]
      exact call_free soFar kind read rfl after

end Calls

/-- A callee and the calls behind it are read, and the reader is stuck only inside of one of them.
-/
theorem guided_called (depth : Nat) : Guided (depth + 1) (called depth) Called where
  sound final ends := by
    intro before expr last run
    obtain ⟨after, same, read⟩ := sound_called ends depth run
    exact ⟨after, same, ((Derivation.restricts_called depth).mp read).1⟩
  detaches := Derivation.detaches_called
  decided before final ends := by
    refine ((guided_primary (depth + 1)).decided ends).next ends ?_ ?_
    · exact fun cause taken found hope few => (hope few).extend [] [] rfl nofun
        fun phrase expr _ read => ⟨expr, fun after _ => .primary (read after trivial)⟩
    intro first taken middle whole run
    refine Decided.repeatNext ends
      (fun callee done _ => ∀ others, Called (done ++ others) callee others)
      (fun last lastEnds => shrinks_moreCalls lastEnds depth)
      (fun callee done rest soFar => decided_moreCalls ends soFar) ?_
      fun others => .primary ((guided_primary 0).free ends whole run others)
    intro callee done rest next taken after soFar whole run others
    rcases of_run_moreCalls ends run with
      ⟨opening, behind, arguments, marker, last, rfl, openingKind, read, markerKind, same, result⟩ |
      ⟨stopped, _⟩
    · cases same
      cases result
      obtain ⟨own, rfl, free⟩ := Derivation.detaches_listed Derivation.detaches_plain
        ((Derivation.restricts_listed (Derivation.restricts_plain depth)).mp read).1
      have split : taken = opening :: own ++ [marker] :=
        List.append_cancel_right (by rw [← whole]; simp)
      rw [split]
      simp only [List.append_assoc, List.cons_append, List.nil_append]
      exact call_free soFar openingKind (fun others => free others trivial) markerKind others
    · cases stopped

theorem guided_expression (depth : Nat) : Guided (depth + 1) (expression depth) Expression :=
  guided_expressionOver (guided_called depth)

/-- A test between two dashes is read, and the reader is stuck only where one of its parts is
wanted. -/
theorem guided_condition (depth : Nat) (part : Part) :
    Guided (depth + 1) (condition depth part) Condition where
  sound final ends := by
    intro before test last run
    obtain ⟨after, same, read⟩ := sound_condition ends depth part run
    exact ⟨after, same, ((Derivation.restricts_condition depth).mp read).1⟩
  detaches := Derivation.detaches_condition
  decided before final ends := by
    have test := guided_plain depth
    refine .expect ends (by decide) (fun found _ _ _ => ?_) fun opening rest _ openingKind => ?_
    · exact begins_of_fillers [.dash, .name, .dash] (by decide) fun after _ =>
        .intro rfl (.single (.single (.single (.operand (.name rfl))))) rfl
    refine (test.decided ends).next ends (fun cause taken found hope few => ?_) ?_
    · exact (hope few).extend [opening] [.dash] rfl (by decide) fun phrase expr _ read =>
        ⟨expr, fun after _ => .intro openingKind (read _ trivial) rfl⟩
    · intro expr taken middle whole run
      have read := test.free ends whole run
      refine .expect ends (by decide) (fun found _ _ _ => ?_)
        fun closing rest _ _ => decided_pure _ rest
      rw [List.append_nil]
      exact begins_of_fillers [.dash] (by decide) fun after _ => .intro openingKind (read _) rfl

end Parser

end Marginalia
