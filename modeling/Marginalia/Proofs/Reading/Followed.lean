import Marginalia.Proofs.Reading.Nearest

/-!
# What follows a phrase

A derivation looks at hardly anything behind its own tokens. An expression keeps its meaning
whatever follows it (`Detaches`). A statement keeps it if the next token is of the same kind
or ends the line, because a return without a value has to stand before one of
`Parser.returnStops` (`Detaches` up to `StandsFor`).

So the lines of two programs with a line end between them are the lines of one program
(`Derives.append`).
-/

namespace Marginalia

namespace Derivation

open Grammar (Phrase Primary LeftGrouped Separated Listed Name LineEnds Lines)

/-- The tokens of the phrase are the same phrase before all other tokens that fit in place of those
behind it. -/
def Detached {α : Type} (fits : List Token → List Token → Prop) (form : Phrase α)
    (before : List Token) (a : α) (after : List Token) : Prop :=
  ∃ taken, before = taken ++ after ∧ ∀ others, fits after others → form (taken ++ others) a others

/-- All phrases of the form are detached from what follows them. -/
def Detaches {α : Type} (fits : List Token → List Token → Prop) (form : Phrase α) : Prop :=
  ∀ ⦃before : List Token⦄ ⦃a : α⦄ ⦃after : List Token⦄, form before a after →
    Detached fits form before a after

/-- Whatever stands behind a phrase. -/
def Anything (_ _ : List Token) : Prop := True

/-- The second tokens begin like the first, or with something that ends a line. -/
def StandsFor (after others : List Token) : Prop :=
  nextKind others = nextKind after ∨ nextKind others ∈ Parser.returnStops

theorem StandsFor.append {after others : List Token} (stands : StandsFor after others)
    (taken : List Token) : StandsFor (taken ++ after) (taken ++ others) := by
  cases taken with
  | nil => exact stands
  | cons token taken => exact .inl rfl

/-! ## Expressions -/

section Expressions

variable {α : Type} {form : Phrase α} {operand : Phrase Expr}

theorem detaches_primary : Detaches Anything Primary := by
  intro before expr after read
  cases read with
  | falsehood kind => exact ⟨[_], rfl, fun _ _ => .falsehood kind⟩
  | truth kind => exact ⟨[_], rfl, fun _ _ => .truth kind⟩
  | nothing kind => exact ⟨[_], rfl, fun _ _ => .nothing kind⟩
  | text kind => exact ⟨[_], rfl, fun _ _ => .text kind⟩
  | name kind => exact ⟨[_], rfl, fun _ _ => .name kind⟩

theorem detaches_negated (detaches : Detaches Anything operand) :
    Detaches Anything (Negated operand) := by
  intro before expr after read
  induction read with
  | operand read =>
    obtain ⟨taken, rfl, free⟩ := detaches read
    exact ⟨taken, rfl, fun others fits => .operand (free others fits)⟩
  | @negation _ _ operator _ kind _ ih =>
    obtain ⟨taken, rfl, free⟩ := ih
    exact ⟨operator :: taken, rfl, fun others fits => .negation kind (free others fits)⟩

theorem detaches_leftGrouped {node : Span → Expr → Token → Expr → Expr} {kinds : List TokenKind}
    (detaches : Detaches Anything operand) :
    Detaches Anything (LeftGrouped node kinds operand) := by
  intro before expr after read
  induction read with
  | single read =>
    obtain ⟨taken, rfl, free⟩ := detaches read
    exact ⟨taken, rfl, fun others fits => .single (free others fits)⟩
  | @more _ _ _ operator _ _ _ mem right ih =>
    obtain ⟨left, rfl, leftFree⟩ := ih
    obtain ⟨taken, rfl, free⟩ := detaches right
    refine ⟨left ++ operator :: taken, by simp, fun others fits => ?_⟩
    have leftRead := leftFree (operator :: (taken ++ others)) trivial
    rw [List.append_assoc]
    exact .more leftRead mem (free others fits)

theorem detaches_expressionOver (detaches : Detaches Anything operand) :
    Detaches Anything (ExpressionOver operand) :=
  detaches_leftGrouped (detaches_leftGrouped (detaches_leftGrouped (detaches_negated detaches)))

theorem detaches_plain : Detaches Anything Plain :=
  detaches_expressionOver detaches_primary

theorem detaches_name : Detaches Anything Name := by
  intro before token after read
  cases read with
  | intro kind => exact ⟨[token], rfl, fun _ _ => .intro kind⟩

theorem detaches_separated (detaches : Detaches Anything form) :
    Detaches Anything (Separated form) := by
  intro before items after read
  induction read with
  | single read =>
    obtain ⟨taken, rfl, free⟩ := detaches read
    exact ⟨taken, rfl, fun others fits => .single (free others fits)⟩
  | @more _ _ _ comma _ _ _ kind room found ih =>
    obtain ⟨front, rfl, frontFree⟩ := ih
    obtain ⟨taken, rfl, free⟩ := detaches found
    refine ⟨front ++ comma :: taken, by simp, fun others fits => ?_⟩
    have frontRead := frontFree (comma :: (taken ++ others)) trivial
    rw [List.append_assoc]
    exact .more frontRead kind room (free others fits)

theorem detaches_listed (detaches : Detaches Anything form) : Detaches Anything (Listed form) := by
  intro before items after read
  cases read with
  | none => exact ⟨[], rfl, fun _ _ => .none⟩
  | some read =>
    obtain ⟨taken, rfl, free⟩ := detaches_separated detaches read
    exact ⟨taken, rfl, fun others fits => .some (free others fits)⟩

theorem detaches_called : Detaches Anything Called := by
  intro before expr after read
  induction read with
  | primary read =>
    obtain ⟨taken, rfl, free⟩ := detaches_primary read
    exact ⟨taken, rfl, fun others fits => .primary (free others fits)⟩
  | @call _ _ _ opening marker _ _ _ openingKind arguments markerKind ih =>
    obtain ⟨callee, rfl, calleeFree⟩ := ih
    obtain ⟨listed, rfl, listedFree⟩ := detaches_listed detaches_plain arguments
    refine ⟨callee ++ opening :: listed ++ [marker], by simp, fun others _ => ?_⟩
    have calleeRead := calleeFree (opening :: (listed ++ marker :: others)) trivial
    simp only [List.append_assoc, List.cons_append, List.nil_append]
    exact .call calleeRead openingKind (listedFree (marker :: others) trivial) markerKind

theorem detaches_expression : Detaches Anything Expression :=
  detaches_expressionOver detaches_called

theorem detaches_condition : Detaches Anything Condition := by
  intro before test after read
  cases read with
  | @intro _ _ opening closing _ openingKind test closingKind =>
    obtain ⟨taken, rfl, free⟩ := detaches_plain test
    refine ⟨opening :: taken ++ [closing], by simp, fun others _ => ?_⟩
    simp only [List.append_assoc, List.cons_append, List.nil_append]
    exact .intro openingKind (free (closing :: others) trivial) closingKind

end Expressions

/-! ## Statements -/

/-- The phrases of the form that are nested at most `depth` deep are detached. -/
def DetachesWithin (depth : Nat) (form : Phrase Stmt) : Prop :=
  ∀ ⦃before : List Token⦄ ⦃statement : Stmt⦄ ⦃after : List Token⦄, form before statement after →
    statement.nesting ≤ depth → Detached StandsFor form before statement after

section Statements

variable {depth : Nat} {before after : List Token} {statements : List Stmt}

theorem detached_lines {item : Phrase Stmt} (detaches : DetachesWithin depth item)
    (read : Lines item before statements after) (fits : Stmt.linesNesting statements ≤ depth) :
    Detached StandsFor (Lines item) before statements after := by
  induction read with
  | nil => exact ⟨[], rfl, fun _ _ => .nil⟩
  | @lineEnd _ _ token _ kind _ ih =>
    obtain ⟨taken, rfl, free⟩ := ih fits
    exact ⟨token :: taken, rfl, fun others stands => .lineEnd kind (free others stands)⟩
  | cons first _ ih =>
    rw [Stmt.linesNesting] at fits
    obtain ⟨rest, rfl, restFree⟩ := ih (by omega)
    obtain ⟨taken, rfl, free⟩ := detaches first (by omega)
    refine ⟨taken ++ rest, (List.append_assoc _ _ _).symm, fun others stands => ?_⟩
    rw [List.append_assoc]
    exact .cons (free _ (stands.append rest)) (restFree others stands)

/-- The lines of a block end at its dot, whatever follows that. -/
theorem detached_body {item : Phrase Stmt} {dot : Token} (detaches : DetachesWithin depth item)
    (read : Lines item before statements (dot :: after))
    (fits : Stmt.linesNesting statements ≤ depth) :
    ∃ taken, before = taken ++ dot :: after ∧
      ∀ others, Lines item (taken ++ dot :: others) statements (dot :: others) := by
  obtain ⟨taken, whole, free⟩ := detached_lines detaches read fits
  exact ⟨taken, whole, fun others => free (dot :: others) (.inl rfl)⟩

/-- A statement of one more level does not depend on what follows it, but for an `else` and what
ends a return. -/
theorem detachesWithin_statement_succ (branches : DetachesWithin depth Statement)
    (lines : DetachesWithin depth (Declaration true)) : DetachesWithin (depth + 1) Statement := by
  intro before statement after derived fits
  cases derived with
  | @condition _ _ _ ifToken _ _ kind test yes =>
    rw [Stmt.nesting] at fits
    obtain ⟨tested, rfl, testFree⟩ := detaches_condition test
    obtain ⟨taken, rfl, free⟩ := branches yes (by omega)
    refine ⟨ifToken :: tested ++ taken, by simp, fun others stands => ?_⟩
    rw [List.append_assoc]
    exact .condition kind (testFree _ trivial) (free others stands)
  | @alternative _ _ _ ends _ ifToken elseToken _ _ _ kind test yes lineEnds elseKind no =>
    rw [Stmt.nesting] at fits
    obtain ⟨tested, rfl, testFree⟩ := detaches_condition test
    obtain ⟨first, rfl, firstFree⟩ := branches yes (by omega)
    obtain ⟨taken, rfl, free⟩ := branches no (by omega)
    refine ⟨ifToken :: tested ++ first ++ ends ++ elseToken :: taken, by simp,
      fun others stands => ?_⟩
    have behind : StandsFor (elseToken :: (taken ++ after)) (elseToken :: (taken ++ others)) :=
      .inl rfl
    replace behind := behind.append ends
    simp only [List.append_assoc, List.cons_append]
    exact .alternative kind (testFree _ trivial) (firstFree _ behind) lineEnds elseKind
      (free others stands)
  | @giveNothing _ keyword kind stop =>
    refine ⟨[keyword], rfl, fun others stands => .giveNothing kind ?_⟩
    rcases stands with same | stops
    · exact same.symm ▸ stop
    · exact stops
  | @giveBack _ _ keyword _ kind value =>
    obtain ⟨taken, rfl, free⟩ := detaches_expression value
    exact ⟨keyword :: taken, rfl, fun others _ => .giveBack kind (free others trivial)⟩
  | @loop _ _ _ whileToken _ _ kind test inside =>
    rw [Stmt.nesting] at fits
    obtain ⟨tested, rfl, testFree⟩ := detaches_condition test
    obtain ⟨taken, rfl, free⟩ := branches inside (by omega)
    refine ⟨whileToken :: tested ++ taken, by simp, fun others stands => ?_⟩
    rw [List.append_assoc]
    exact .loop kind (testFree _ trivial) (free others stands)
  | @block _ _ colon dot _ kind inside dotKind =>
    rw [Stmt.nesting] at fits
    obtain ⟨taken, rfl, free⟩ := detached_body lines inside (by omega)
    refine ⟨colon :: taken ++ [dot], by simp, fun others _ => ?_⟩
    simp only [List.append_assoc, List.cons_append, List.nil_append]
    exact .block kind (free others) dotKind
  | printer expr calls =>
    obtain ⟨taken, rfl, free⟩ := detaches_expression expr
    exact ⟨taken, rfl, fun others _ => .printer (free others trivial) calls⟩
  | wrapped expr other =>
    obtain ⟨taken, rfl, free⟩ := detaches_expression expr
    exact ⟨taken, rfl, fun others _ => .wrapped (free others trivial) other⟩

/-- Nor does a declaration, at the top or inside of a block. -/
theorem detachesWithin_declaration_succ (nested : Bool)
    (branches : DetachesWithin (depth + 1) Statement)
    (lines : DetachesWithin depth (Declaration true)) :
    DetachesWithin (depth + 1) (Declaration nested) := by
  intro before statement after derived fits
  cases derived with
  | remark kind text => exact ⟨[_, _], rfl, fun _ _ => .remark kind text⟩
  | directive kind name value => exact ⟨[_, _, _], rfl, fun _ _ => .directive kind name value⟩
  | directiveBe kind name be value =>
    exact ⟨[_, _, _, _], rfl, fun _ _ => .directiveBe kind name be value⟩
  | @function _ _ _ _ _ toToken name opening closing colon dot _ kind nameKind openingKind params
      closingKind colonKind inside dotKind =>
    rw [Stmt.nesting] at fits
    obtain ⟨taken, rfl, free⟩ := detached_body lines inside (by omega)
    obtain ⟨listed, rfl, listedFree⟩ := detaches_listed detaches_name params
    refine ⟨toToken :: name :: opening :: listed ++ closing :: colon :: taken ++ [dot], by simp,
      fun others _ => ?_⟩
    simp only [List.append_assoc, List.cons_append, List.nil_append]
    exact .function kind nameKind openingKind (listedFree _ trivial) closingKind colonKind
      (free others) dotKind
  | binding kind name => exact ⟨[_, _], rfl, fun _ _ => .binding kind name⟩
  | @bindingBe _ _ _ letToken name be _ kind nameKind beKind value =>
    obtain ⟨taken, rfl, free⟩ := detaches_expression value
    exact ⟨letToken :: name :: be :: taken, rfl, fun others _ =>
      .bindingBe kind nameKind beKind (free others trivial)⟩
  | statement derived =>
    obtain ⟨taken, rfl, free⟩ := branches derived fits
    exact ⟨taken, rfl, fun others stands => .statement (free others stands)⟩

theorem detachesWithin_layer (depth : Nat) :
    DetachesWithin depth Statement ∧ ∀ nested, DetachesWithin depth (Declaration nested) :=
  layer_of_succ DetachesWithin
    (fun _ _ statement _ _ fits => absurd fits (Nat.not_le_of_lt statement.nesting_pos))
    detachesWithin_statement_succ detachesWithin_declaration_succ depth

end Statements

theorem detaches_statement : Detaches StandsFor Statement :=
  fun _ _ _ derived => (detachesWithin_layer _).1 derived (Nat.le_refl _)

theorem detaches_declaration (nested : Bool) : Detaches StandsFor (Declaration nested) :=
  fun _ _ _ derived => (detachesWithin_layer _).2 nested derived (Nat.le_refl _)

theorem detaches_lines (nested : Bool) : Detaches StandsFor (Lines (Declaration nested)) :=
  fun _ _ _ derived => detached_lines ((detachesWithin_layer _).2 nested) derived (Nat.le_refl _)

end Derivation

/-! ## Two programs with a line end between them -/

theorem Derives.append {tokens others : List Token} {lineEnd : Token} {program other : Program}
    (first : Derives tokens program) (kind : lineEnd.kind = .lineEnd)
    (second : Derives others other) :
    Derives (tokens ++ lineEnd :: others) (program ++ other) := by
  obtain ⟨taken, whole, free⟩ := Derivation.detaches_lines false first
  rw [List.append_nil] at whole
  subst whole
  have stands : Derivation.StandsFor [] (lineEnd :: others) := by
    right
    rw [nextKind_cons, kind]
    decide
  exact Grammar.lines_append (free _ stands) (.lineEnd kind second)

end Marginalia
