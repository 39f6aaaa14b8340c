import Marginalia.Proofs.Reading.Derivation
import Marginalia.Proofs.Scanning.Margins
import Marginalia.Store

/-!
# Texts on single lines

What a program can say it has from its texts: those that it quotes, its names, which mean themselves
where nothing binds them, the values of its directives, and the names that its functions show. A
program is unbroken if none of them goes over the end of a line. Names never do, so the program of
a source is unbroken if its quoted texts are (`Derives.allUnbroken`).
-/

namespace Marginalia

/-! ## Programs whose texts stand on single lines -/

/-- The value is no text with a line feed. -/
def Value.Unbroken : Value → Prop
  | .text value => '\n' ∉ value.toList
  | .nothing | .truth _ | .layers _ | .function _ => True

namespace Expr

mutual

/-- No text that the expression can have for its value has a line feed. -/
def Unbroken : Expr → Prop
  | .constant _ value => value.value.Unbroken
  | .name _ token => '\n' ∉ token.lexeme.toList
  | .negation _ _ operand => operand.Unbroken
  | .comparison _ left _ right | .connective _ left _ right => left.Unbroken ∧ right.Unbroken
  | .call _ callee _ arguments => callee.Unbroken ∧ AllUnbroken arguments
  | .unknown _ _ _ => True

/-- No text that one of the expressions can have for its value has a line feed. -/
def AllUnbroken : List Expr → Prop
  | [] => True
  | expr :: rest => expr.Unbroken ∧ AllUnbroken rest

end

theorem allUnbroken_iff {exprs : List Expr} :
    AllUnbroken exprs ↔ ∀ expr ∈ exprs, expr.Unbroken := by
  induction exprs with
  | nil => simp [AllUnbroken]
  | cons expr rest ih => rw [AllUnbroken, ih, List.forall_mem_cons]

end Expr

namespace Stmt

mutual

/-- No text that the statement can put into a value has a line feed. -/
def Unbroken : Stmt → Prop
  | .expression _ expr _ => expr.Unbroken
  | .binding _ _ initial | .giveBack _ _ initial => ∀ value ∈ initial, value.Unbroken
  | .block _ statements => AllUnbroken statements
  | .condition _ test yes none => test.Unbroken ∧ yes.Unbroken
  | .condition _ test yes (some no) => test.Unbroken ∧ yes.Unbroken ∧ no.Unbroken
  | .loop _ test body => test.Unbroken ∧ body.Unbroken
  | .function _ name _ body => '\n' ∉ name.lexeme.toList ∧ AllUnbroken body
  | .directive _ _ value => '\n' ∉ value.lexeme.toList
  | .remark _ _ | .unknown _ _ _ => True

/-- No text that one of the statements can put into a value has a line feed. -/
def AllUnbroken : List Stmt → Prop
  | [] => True
  | statement :: rest => statement.Unbroken ∧ AllUnbroken rest

end

theorem allUnbroken_iff {statements : List Stmt} :
    AllUnbroken statements ↔ ∀ statement ∈ statements, statement.Unbroken := by
  induction statements with
  | nil => simp [AllUnbroken]
  | cons statement rest ih => rw [AllUnbroken, ih, List.forall_mem_cons]

end Stmt

/-! ## Tokens whose texts stand on single lines -/

/-- No name and no quoted text among the tokens has a line feed. -/
structure TokensUnbroken (tokens : List Token) : Prop where
  names : ∀ token ∈ tokens, token.kind = .name → '\n' ∉ token.lexeme.toList
  quoted : ∀ token ∈ quotations tokens, ∀ text ∈ token.literal, '\n' ∉ text.toList

theorem Written.names_unbroken {signs : List Token} {text : List Char}
    (written : Written signs text) :
    ∀ token ∈ signs, token.kind = .name → '\n' ∉ token.lexeme.toList := by
  induction written with
  | nil => exact fun token mem => absurd mem List.not_mem_nil
  | gap _ _ ih => exact ih
  | @mark _ _ c kind mark _ ih =>
    refine List.forall_mem_cons.mpr ⟨fun isName => ?_, ih⟩
    have apart : ∀ kind ∈ markKinds, kind ≠ .name := by decide
    exact absurd isName (apart kind (ofMark?_mem mark))
  | lineEnd _ ih => exact List.forall_mem_cons.mpr ⟨nofun, ih⟩
  | @word _ _ letters word _ _ ih =>
    refine List.forall_mem_cons.mpr ⟨fun _ mem => ?_, ih⟩
    change '\n' ∈ (String.ofList letters).toList at mem
    rw [String.toList_ofList] at mem
    have letter := word.all _ mem
    cases letter
  | quotation _ _ ih => exact List.forall_mem_cons.mpr ⟨nofun, ih⟩
  | remark _ _ _ ih =>
    exact List.forall_mem_cons.mpr ⟨nofun, List.forall_mem_cons.mpr ⟨nofun, ih⟩⟩

namespace TokensUnbroken

variable {token text : Token} {tokens : List Token}

theorem of_cons (unbroken : TokensUnbroken (token :: tokens)) (other : token.kind ≠ .dagger) :
    TokensUnbroken tokens := by
  obtain ⟨names, quoted⟩ := unbroken
  refine ⟨fun name mem => names name (List.mem_cons_of_mem _ mem), fun found mem => quoted found ?_⟩
  by_cases kind : token.kind = .string
  · rw [quotations_string kind]
    exact List.mem_cons_of_mem _ mem
  · rwa [quotations_cons other kind]

theorem of_remark (unbroken : TokensUnbroken (token :: text :: tokens))
    (kind : token.kind = .dagger) (textKind : text.kind = .string) : TokensUnbroken tokens := by
  obtain ⟨names, quoted⟩ := unbroken
  rw [quotations_remark kind textKind] at quoted
  exact ⟨fun name mem => names name (List.mem_cons_of_mem _ (List.mem_cons_of_mem _ mem)), quoted⟩

theorem name (unbroken : TokensUnbroken (token :: tokens)) (kind : token.kind = .name) :
    '\n' ∉ token.lexeme.toList ∧ TokensUnbroken tokens :=
  ⟨unbroken.names token List.mem_cons_self kind, unbroken.of_cons (kind ▸ by decide)⟩

theorem literal (unbroken : TokensUnbroken (token :: tokens)) (kind : token.kind = .string) :
    (Constant.ofLiteral token.literal).value.Unbroken := by
  have first : token ∈ quotations (token :: tokens) := by
    rw [quotations_string kind]
    exact List.mem_cons_self
  cases found : token.literal with
  | none => trivial
  | some value => exact unbroken.quoted token first value found

theorem of_lineEnds {ends : List Token} (unbroken : TokensUnbroken (ends ++ tokens))
    (lineEnds : Grammar.LineEnds ends) : TokensUnbroken tokens := by
  induction ends with
  | nil => exact unbroken
  | cons token ends ih =>
    have behind := unbroken.of_cons (lineEnds token List.mem_cons_self ▸ by decide)
    exact ih behind fun other mem => lineEnds other (List.mem_cons_of_mem _ mem)

end TokensUnbroken

namespace Derivation

open Grammar (Phrase Primary LeftGrouped Separated Listed Name LineEnds Lines)

/-! ## Expressions -/

/-- What is read from unbroken tokens is unbroken, and so are the tokens behind it. -/
def ReadsUnbroken {α : Type} (unbroken : α → Prop) (form : Phrase α) : Prop :=
  ∀ ⦃before : List Token⦄ ⦃a : α⦄ ⦃after : List Token⦄, form before a after →
    TokensUnbroken before → unbroken a ∧ TokensUnbroken after

section Expressions

variable {operand : Phrase Expr}

theorem readsUnbroken_primary : ReadsUnbroken Expr.Unbroken Primary := by
  intro before expr after read unbroken
  have other : ∀ kind ∈ Grammar.operandKinds, kind ≠ .dagger := by decide
  cases read with
  | falsehood kind | truth kind | nothing kind =>
    exact ⟨trivial, unbroken.of_cons (other _ (kind ▸ by decide))⟩
  | text kind => exact ⟨unbroken.literal kind, unbroken.of_cons (other _ (kind ▸ by decide))⟩
  | name kind => exact unbroken.name kind

theorem readsUnbroken_negated (reads : ReadsUnbroken Expr.Unbroken operand) :
    ReadsUnbroken Expr.Unbroken (Negated operand) := by
  intro before expr after read unbroken
  induction read with
  | operand read => exact reads read unbroken
  | negation kind _ ih => exact ih (unbroken.of_cons (kind ▸ by decide))

theorem readsUnbroken_leftGrouped {node : Span → Expr → Token → Expr → Expr}
    {kinds : List TokenKind} (other : ∀ kind ∈ kinds, kind ≠ .dagger)
    (joined : ∀ span left operator right,
      left.Unbroken → right.Unbroken → (node span left operator right).Unbroken)
    (reads : ReadsUnbroken Expr.Unbroken operand) :
    ReadsUnbroken Expr.Unbroken (LeftGrouped node kinds operand) := by
  intro before expr after read unbroken
  induction read with
  | single read => exact reads read unbroken
  | more _ mem right ih =>
    obtain ⟨leftUnbroken, behind⟩ := ih unbroken
    obtain ⟨rightUnbroken, rest⟩ := reads right (behind.of_cons (other _ mem))
    exact ⟨joined _ _ _ _ leftUnbroken rightUnbroken, rest⟩

theorem readsUnbroken_expressionOver (reads : ReadsUnbroken Expr.Unbroken operand) :
    ReadsUnbroken Expr.Unbroken (ExpressionOver operand) :=
  readsUnbroken_leftGrouped (by decide) (fun _ _ _ _ => And.intro) <|
    readsUnbroken_leftGrouped (by decide) (fun _ _ _ _ => And.intro) <|
      readsUnbroken_leftGrouped (by decide) (fun _ _ _ _ => And.intro) <|
        readsUnbroken_negated reads

theorem readsUnbroken_plain : ReadsUnbroken Expr.Unbroken Plain :=
  readsUnbroken_expressionOver readsUnbroken_primary

theorem readsUnbroken_name : ReadsUnbroken (fun _ => True) Name := by
  intro before token after read unbroken
  cases read with
  | intro kind => exact ⟨trivial, (unbroken.name kind).2⟩

theorem readsUnbroken_listed {α : Type} {holds : α → Prop} {form : Phrase α}
    (reads : ReadsUnbroken holds form) :
    ReadsUnbroken (fun items => ∀ item ∈ items, holds item) (Listed form) := by
  intro before items after read unbroken
  cases read with
  | none => exact ⟨fun _ mem => absurd mem List.not_mem_nil, unbroken⟩
  | some read =>
    induction read with
    | single read =>
      obtain ⟨item, behind⟩ := reads read unbroken
      exact ⟨List.forall_mem_singleton.mpr item, behind⟩
    | more _ kind _ last ih =>
      obtain ⟨items, behind⟩ := ih unbroken
      obtain ⟨item, rest⟩ := reads last (behind.of_cons (kind ▸ by decide))
      refine ⟨fun other mem => ?_, rest⟩
      rcases List.mem_append.mp mem with early | late
      · exact items other early
      · exact List.forall_mem_singleton.mpr item other late

theorem readsUnbroken_called : ReadsUnbroken Expr.Unbroken Called := by
  intro before expr after read unbroken
  induction read with
  | primary read => exact readsUnbroken_primary read unbroken
  | call _ openingKind arguments markerKind ih =>
    obtain ⟨callee, behind⟩ := ih unbroken
    obtain ⟨items, rest⟩ := readsUnbroken_listed readsUnbroken_plain arguments
      (behind.of_cons (openingKind ▸ by decide))
    exact ⟨⟨callee, Expr.allUnbroken_iff.mpr items⟩, rest.of_cons (markerKind ▸ by decide)⟩

theorem readsUnbroken_expression : ReadsUnbroken Expr.Unbroken Expression :=
  readsUnbroken_expressionOver readsUnbroken_called

theorem readsUnbroken_condition : ReadsUnbroken Expr.Unbroken Condition := by
  intro before test after read unbroken
  cases read with
  | intro openingKind test closingKind =>
    obtain ⟨testUnbroken, rest⟩ :=
      readsUnbroken_plain test (unbroken.of_cons (openingKind ▸ by decide))
    exact ⟨testUnbroken, rest.of_cons (closingKind ▸ by decide)⟩

end Expressions

/-! ## Statements -/

/-- What is read of the form from unbroken tokens and is nested at most `depth` deep is unbroken,
and so are the tokens behind it. -/
def ReadsUnbrokenWithin (depth : Nat) (form : Phrase Stmt) : Prop :=
  ∀ ⦃before : List Token⦄ ⦃statement : Stmt⦄ ⦃after : List Token⦄, form before statement after →
    statement.nesting ≤ depth → TokensUnbroken before →
      statement.Unbroken ∧ TokensUnbroken after

section Statements

variable {depth : Nat} {before after : List Token} {statements : List Stmt}

theorem unbroken_of_lines {item : Phrase Stmt} (reads : ReadsUnbrokenWithin depth item)
    (read : Lines item before statements after) (fits : Stmt.linesNesting statements ≤ depth)
    (unbroken : TokensUnbroken before) :
    Stmt.AllUnbroken statements ∧ TokensUnbroken after := by
  induction read with
  | nil => exact ⟨trivial, unbroken⟩
  | lineEnd kind _ ih => exact ih fits (unbroken.of_cons (kind ▸ by decide))
  | cons first _ ih =>
    rw [Stmt.linesNesting] at fits
    obtain ⟨here, behind⟩ := reads first (by omega) unbroken
    obtain ⟨others, rest⟩ := ih (by omega) behind
    exact ⟨⟨here, others⟩, rest⟩

/-- A statement of one more level has no line feed in its texts, if the tokens have none. -/
theorem readsUnbroken_statement_succ (branches : ReadsUnbrokenWithin depth Statement)
    (lines : ReadsUnbrokenWithin depth (Declaration true)) :
    ReadsUnbrokenWithin (depth + 1) Statement := by
  intro before statement after derived fits unbroken
  cases derived with
  | condition kind test yes =>
    rw [Stmt.nesting] at fits
    obtain ⟨testUnbroken, behind⟩ :=
      readsUnbroken_condition test (unbroken.of_cons (kind ▸ by decide))
    obtain ⟨yesUnbroken, rest⟩ := branches yes (by omega) behind
    exact ⟨⟨testUnbroken, yesUnbroken⟩, rest⟩
  | alternative kind test yes lineEnds elseKind no =>
    rw [Stmt.nesting] at fits
    obtain ⟨testUnbroken, behind⟩ :=
      readsUnbroken_condition test (unbroken.of_cons (kind ▸ by decide))
    obtain ⟨yesUnbroken, afterYes⟩ := branches yes (by omega) behind
    have beforeNo := (afterYes.of_lineEnds lineEnds).of_cons (elseKind ▸ by decide)
    obtain ⟨noUnbroken, rest⟩ := branches no (by omega) beforeNo
    exact ⟨⟨testUnbroken, yesUnbroken, noUnbroken⟩, rest⟩
  | giveNothing kind _ => exact ⟨by rintro _ ⟨⟩, unbroken.of_cons (kind ▸ by decide)⟩
  | giveBack kind value =>
    obtain ⟨valueUnbroken, rest⟩ :=
      readsUnbroken_expression value (unbroken.of_cons (kind ▸ by decide))
    exact ⟨by rintro _ ⟨⟩; exact valueUnbroken, rest⟩
  | loop kind test inside =>
    rw [Stmt.nesting] at fits
    obtain ⟨testUnbroken, behind⟩ :=
      readsUnbroken_condition test (unbroken.of_cons (kind ▸ by decide))
    obtain ⟨insideUnbroken, rest⟩ := branches inside (by omega) behind
    exact ⟨⟨testUnbroken, insideUnbroken⟩, rest⟩
  | block kind inside dotKind =>
    rw [Stmt.nesting] at fits
    obtain ⟨insideUnbroken, rest⟩ :=
      unbroken_of_lines lines inside (by omega) (unbroken.of_cons (kind ▸ by decide))
    exact ⟨insideUnbroken, rest.of_cons (dotKind ▸ by decide)⟩
  | printer expr _ => exact readsUnbroken_expression expr unbroken
  | wrapped expr _ =>
    obtain ⟨exprUnbroken, rest⟩ := readsUnbroken_expression expr unbroken
    have printer : '\n' ∉ "print".toList := by decide
    exact ⟨⟨printer, exprUnbroken, trivial⟩, rest⟩

/-- Nor has a declaration, with its names and the values of its directives. -/
theorem readsUnbroken_declaration_succ (nested : Bool)
    (statements : ReadsUnbrokenWithin (depth + 1) Statement)
    (lines : ReadsUnbrokenWithin depth (Declaration true)) :
    ReadsUnbrokenWithin (depth + 1) (Declaration nested) := by
  intro before statement after derived fits unbroken
  cases derived with
  | remark kind textKind => exact ⟨trivial, unbroken.of_remark kind textKind⟩
  | directive kind nameKind valueKind =>
    obtain ⟨_, afterName⟩ := (unbroken.of_cons (kind ▸ by decide)).name nameKind
    exact afterName.name valueKind
  | directiveBe kind nameKind beKind valueKind =>
    obtain ⟨_, afterName⟩ := (unbroken.of_cons (kind ▸ by decide)).name nameKind
    exact (afterName.of_cons (beKind ▸ by decide)).name valueKind
  | function kind nameKind openingKind params closingKind colonKind inside dotKind =>
    rw [Stmt.nesting] at fits
    obtain ⟨nameUnbroken, afterName⟩ := (unbroken.of_cons (kind ▸ by decide)).name nameKind
    obtain ⟨_, afterParams⟩ := readsUnbroken_listed readsUnbroken_name params
      (afterName.of_cons (openingKind ▸ by decide))
    have beforeBody :=
      (afterParams.of_cons (closingKind ▸ by decide)).of_cons (colonKind ▸ by decide)
    obtain ⟨insideUnbroken, rest⟩ := unbroken_of_lines lines inside (by omega) beforeBody
    exact ⟨⟨nameUnbroken, insideUnbroken⟩, rest.of_cons (dotKind ▸ by decide)⟩
  | binding kind nameKind =>
    obtain ⟨_, rest⟩ := (unbroken.of_cons (kind ▸ by decide)).name nameKind
    exact ⟨by rintro _ ⟨⟩, rest⟩
  | bindingBe kind nameKind beKind value =>
    obtain ⟨_, afterName⟩ := (unbroken.of_cons (kind ▸ by decide)).name nameKind
    obtain ⟨valueUnbroken, rest⟩ :=
      readsUnbroken_expression value (afterName.of_cons (beKind ▸ by decide))
    exact ⟨by rintro _ ⟨⟩; exact valueUnbroken, rest⟩
  | statement derived => exact statements derived fits unbroken

theorem readsUnbroken_layer (depth : Nat) :
    ReadsUnbrokenWithin depth Statement ∧
      ∀ nested, ReadsUnbrokenWithin depth (Declaration nested) :=
  layer_of_succ ReadsUnbrokenWithin
    (fun _ _ statement _ _ fits => absurd fits (Nat.not_le_of_lt statement.nesting_pos))
    readsUnbroken_statement_succ readsUnbroken_declaration_succ depth

end Statements

end Derivation

/-- A program that unbroken tokens derive is unbroken. -/
theorem Derives.allUnbroken {tokens : List Token} {program : Program}
    (derives : Derives tokens program) (unbroken : TokensUnbroken tokens) :
    Stmt.AllUnbroken program := by
  have lines := (Derivation.readsUnbroken_layer program.nesting).2 false
  exact (Derivation.unbroken_of_lines lines derives (Nat.le_refl _) unbroken).1

end Marginalia
