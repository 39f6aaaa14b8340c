import Marginalia.Proofs.Layout.RoundTrip

/-!
# A layout keeps the tokens of its source

The layout of a program is written in the program's signs. Here the signs are compared with the
tokens that the program was read from: they are the same tokens in the same order, but for line
ends and for the `be` that a directive may have (`Grammar.keeps_layer`). That a mark or a keyword
comes back as it was is so because it was scanned: there is one way only to write it.

Nothing is asked of the program besides that it can be read. Where an `else` is stranded, the
layout is no program any more, but it still has the tokens.
-/

namespace Marginalia

/-- The tokens without line ends. -/
def unbroken (tokens : List Token) : List Token :=
  tokens.filter (·.kind ≠ .lineEnd)

/-- The tokens without the `be` between the name and the value of a directive. -/
def withoutDirectiveBe : List Token → List Token
  | pound :: name :: be :: rest =>
    if pound.kind = .pound ∧ be.kind = .beWord then pound :: name :: withoutDirectiveBe rest
    else pound :: withoutDirectiveBe (name :: be :: rest)
  | tokens => tokens

/-- The tokens that a layout keeps, without their places. -/
def keptTokens (tokens : List Token) : List Token :=
  (unbroken (withoutDirectiveBe tokens)).map Token.erased

section Kept

variable {token : Token} {rest : List Token}

theorem unbroken_cons (kind : token.kind ≠ .lineEnd) :
    unbroken (token :: rest) = token :: unbroken rest :=
  List.filter_cons_of_pos (decide_eq_true kind)

theorem unbroken_erased {kind : TokenKind} (same : token.kind = kind) (apart : kind ≠ .lineEnd) :
    unbroken (token.erased :: rest) = token.erased :: unbroken rest :=
  unbroken_cons (same ▸ apart)

theorem unbroken_append (left right : List Token) :
    unbroken (left ++ right) = unbroken left ++ unbroken right :=
  List.filter_append left right

theorem unbroken_lineEnd (kind : token.kind = .lineEnd) :
    unbroken (token :: rest) = unbroken rest := by
  refine List.filter_cons_of_neg ?_
  rw [kind]
  decide

theorem map_erased_unbroken (tokens : List Token) :
    (unbroken tokens).map Token.erased = unbroken (tokens.map Token.erased) := by
  rw [unbroken, unbroken, List.filter_map]
  rfl

theorem withoutDirectiveBe_cons (kind : token.kind ≠ .pound) :
    withoutDirectiveBe (token :: rest) = token :: withoutDirectiveBe rest := by
  rcases rest with _ | ⟨second, _ | ⟨third, rest⟩⟩
  · rfl
  · rfl
  · rw [withoutDirectiveBe, if_neg fun both => kind both.1]

theorem keptTokens_lineEnd (kind : token.kind = .lineEnd) :
    keptTokens (token :: rest) = keptTokens rest := by
  rw [keptTokens, withoutDirectiveBe_cons (by rw [kind]; decide), unbroken_lineEnd kind]
  rfl

theorem keptTokens_cons {kind : TokenKind} (same : token.kind = kind) (apart : kind ≠ .lineEnd)
    (other : kind ≠ .pound) : keptTokens (token :: rest) = token.erased :: keptTokens rest := by
  subst same
  rw [keptTokens, withoutDirectiveBe_cons other, unbroken_cons apart]
  rfl

theorem keptTokens_pound {pound name value : Token} (kind : pound.kind ≠ .lineEnd)
    (other : value.kind ≠ .beWord) :
    keptTokens (pound :: name :: value :: rest) =
      pound.erased :: keptTokens (name :: value :: rest) := by
  rw [keptTokens, withoutDirectiveBe, if_neg fun both => other both.2, unbroken_cons kind]
  rfl

theorem keptTokens_directiveBe {pound name be : Token} (kind : pound.kind = .pound)
    (nameKind : name.kind ≠ .lineEnd) (beKind : be.kind = .beWord) :
    keptTokens (pound :: name :: be :: rest) =
      pound.erased :: name.erased :: keptTokens rest := by
  rw [keptTokens, withoutDirectiveBe, if_pos ⟨kind, beKind⟩,
    unbroken_cons (by rw [kind]; decide), unbroken_cons nameKind]
  rfl

/-- The end of the text is always kept, and nothing before it depends on it. -/
theorem keptTokens_concat {final : Token} (tokens : List Token) (kind : final.kind = .textEnd) :
    keptTokens (tokens ++ [final]) = keptTokens tokens ++ [final.erased] := by
  have apart : unbroken [final] = [final] := unbroken_cons (by rw [kind]; decide)
  have whole : withoutDirectiveBe (tokens ++ [final]) = withoutDirectiveBe tokens ++ [final] := by
    fun_induction withoutDirectiveBe tokens with
    | case1 pound name be rest both ih =>
      rw [List.cons_append, List.cons_append, List.cons_append, withoutDirectiveBe, if_pos both, ih]
      rfl
    | case2 pound name be rest either ih =>
      rw [List.cons_append, List.cons_append, List.cons_append, withoutDirectiveBe, if_neg either]
      exact congrArg (pound :: ·) ih
    | case3 tokens short =>
      rcases tokens with _ | ⟨first, _ | ⟨second, _ | ⟨third, rest⟩⟩⟩
      · rfl
      · rfl
      · rw [List.cons_append, List.cons_append, List.nil_append, withoutDirectiveBe,
          if_neg fun both => by rw [kind] at both; cases both.2]
        rfl
      · exact absurd rfl (short first second third rest)
  rw [keptTokens, whole, unbroken_append, apart, List.map_append]
  rfl

theorem keptTokens_lineEnds {ends : List Token} (all : Grammar.LineEnds ends) :
    keptTokens (ends ++ rest) = keptTokens rest := by
  induction ends with
  | nil => rfl
  | cons token ends ih =>
    rw [List.cons_append, keptTokens_lineEnd (all token List.mem_cons_self)]
    exact ih fun other mem => all other (List.mem_cons_of_mem _ mem)

end Kept

/-- A keyword is spelled in one way. -/
theorem TokenKind.eq_of_ofWord {word other : String} (same : ofWord word = ofWord other)
    (keyword : ofWord other ≠ .name) : word = other := by
  generalize found : ofWord other = kind at same keyword
  unfold ofWord at same found
  split at found <;> subst found <;> split at same <;>
    first | rfl | exact absurd rfl keyword | cases same

namespace Grammar

/-- A keyword of a text is the one word of its kind. -/
theorem sign_eq_keyword {token : Token} {tokens : List Token} (word : String)
    (scanned : Scanned (token :: tokens)) (kind : token.kind = .ofWord word)
    (keyword : TokenKind.ofWord word ≠ .name) :
    token.erased = wordSign word.toList ∧ Scanned tokens := by
  obtain ⟨⟨letters, _, same, _⟩, behind⟩ := scanned.of_word (by rw [kind]; exact ofWord_mem word)
  have spelled : String.ofList letters = word :=
    TokenKind.eq_of_ofWord ((congrArg Token.kind same).symm.trans kind) keyword
  rw [same, ← spelled, String.toList_ofList]
  exact ⟨rfl, behind⟩

/-- A dagger of a text is the one character of its kind. -/
theorem sign_eq_dagger {token text : Token} {tokens : List Token}
    (scanned : Scanned (token :: text :: tokens)) (kind : token.kind = .dagger) :
    token.erased = daggerSign := by
  obtain ⟨whole, written⟩ := scanned
  rcases written.of_cons with ⟨lexeme, _⟩ | ⟨letters, others, rest, same, _⟩
  · exact absurd kind lexeme.kind_ne.1
  · exact same

/-- What is read keeps its tokens: those it was read from are its signs. -/
def Keeps {α : Type} (signs : α → List Token) (form : Phrase α) : Prop :=
  ∀ ⦃before : List Token⦄ ⦃a : α⦄ ⦃after : List Token⦄, form before a after → Scanned before →
    keptTokens before = unbroken (signs a) ++ keptTokens after ∧ Scanned after

section Expressions

theorem keeps_word {before : List Token} {token : Token} {span : Span} {value : Constant}
    (word : String) (scanned : Scanned (token :: before)) (kind : token.kind = .ofWord word)
    (keyword : TokenKind.ofWord word ∉ [.name, .lineEnd, .pound])
    (same : value.sign = wordSign word.toList) :
    keptTokens (token :: before) =
        unbroken (Expr.constant span value).signs ++ keptTokens before ∧ Scanned before := by
  simp only [List.mem_cons, List.not_mem_nil, or_false, not_or] at keyword
  obtain ⟨named, apart, other⟩ := keyword
  obtain ⟨isWord, behind⟩ := sign_eq_keyword word scanned kind named
  refine ⟨?_, behind⟩
  rw [keptTokens_cons kind apart other, Expr.signs, same, ← isWord, unbroken_erased kind apart]
  rfl

/-- A primary expression is read from one token, and that is its sign. -/
theorem keeps_primary : Keeps Expr.signs Primary := by
  intro before expr after read scanned
  cases read with
  | falsehood kind => exact keeps_word "false" scanned kind (by decide) rfl
  | truth kind => exact keeps_word "true" scanned kind (by decide) rfl
  | nothing kind => exact keeps_word "nothing" scanned kind (by decide) rfl
  | @text after token kind =>
    obtain ⟨lexeme, behind⟩ := scanned.of_cons (by rw [kind]; decide)
    obtain ⟨letters, _, same⟩ := lexeme.eq_of_string kind
    have literal : token.literal = some (String.ofList letters) := congrArg Token.literal same
    have quoted : (Constant.text (String.ofList letters)).sign = quotedSign letters := by
      simp [Constant.sign, quotedSign, sign, String.ext_iff]
    refine ⟨?_, behind⟩
    rw [keptTokens_cons kind (by decide) (by decide), literal, Expr.signs, Constant.ofLiteral,
      quoted, ← same, unbroken_erased kind (by decide)]
    rfl
  | name kind =>
    refine ⟨?_, scanned.of_kind kind (by decide)⟩
    rw [keptTokens_cons kind (by decide) (by decide), Expr.signs,
      unbroken_erased kind (by decide)]
    rfl

theorem keeps_negated {operand : Phrase Expr} (keeps : Keeps Expr.signs operand) (depth : Nat) :
    Keeps Expr.signs (Negated operand depth) := by
  intro before expr after read scanned
  induction read with
  | operand read => exact keeps read scanned
  | negation kind _ ih =>
    obtain ⟨kept, after⟩ := ih (scanned.of_kind kind (by decide))
    refine ⟨?_, after⟩
    rw [keptTokens_cons kind (by decide) (by decide), kept, Expr.signs,
      unbroken_erased kind (by decide), List.cons_append]

theorem keeps_leftGrouped {node : Span → Expr → Token → Expr → Expr} {kinds : List TokenKind}
    {operand : Phrase Expr} (isNode : IsOperatorNode node)
    (words : ∀ kind ∈ kinds, kind ∈ wordKinds) (keeps : Keeps Expr.signs operand) :
    Keeps Expr.signs (LeftGrouped node kinds operand) := by
  have plain : ∀ kind ∈ wordKinds, kind ≠ .lineEnd ∧ kind ≠ .pound ∧ kind ≠ .dagger := by decide
  intro before expr after read scanned
  induction read with
  | single read => exact keeps read scanned
  | @more before middle after operator left right _ mem rightRead ih =>
    obtain ⟨apart, other, remark⟩ := plain _ (words _ mem)
    obtain ⟨leftKept, behind⟩ := ih scanned
    obtain ⟨rightKept, after⟩ := keeps rightRead (behind.of_kind rfl remark)
    refine ⟨?_, after⟩
    rw [leftKept, keptTokens_cons rfl apart other, rightKept, isNode.signs, unbroken_append,
      unbroken_erased rfl apart, List.append_assoc, List.cons_append]

theorem keeps_expressionOver {operand : Phrase Expr} (keeps : Keeps Expr.signs operand)
    (depth : Nat) : Keeps Expr.signs (ExpressionOver operand depth) :=
  keeps_leftGrouped isOperatorNode_connective (by decide)
    (keeps_leftGrouped isOperatorNode_connective (by decide)
      (keeps_leftGrouped isOperatorNode_comparison (by decide) (keeps_negated keeps depth)))

theorem keeps_plain (depth : Nat) : Keeps Expr.signs (Plain depth) :=
  keeps_expressionOver keeps_primary depth

theorem keeps_separated {α : Type} {signs : α → List Token} {item : Phrase α}
    (keeps : Keeps signs item) :
    Keeps (fun items => separatedSigns (items.map signs)) (Separated item) := by
  intro before items after read scanned
  induction read with
  | single read =>
    simp only [List.map_cons, List.map_nil, separatedSigns, List.intercalate_singleton]
    exact keeps read scanned
  | @more before middle after comma items found front kind _ read ih =>
    have ne_nil : items.map signs ≠ [] := by
      cases front <;> simp
    obtain ⟨frontKept, behind⟩ := ih scanned
    obtain ⟨isComma, behind⟩ := sign_eq_mark ',' behind kind rfl
    obtain ⟨lastKept, after⟩ := keeps read behind
    refine ⟨?_, after⟩
    simp only [List.map_append, List.map_cons, List.map_nil, separatedSigns_append ne_nil]
    rw [frontKept, keptTokens_cons kind (by decide) (by decide), lastKept, isComma,
      unbroken_append, List.append_assoc]
    rfl

theorem keeps_listed {α : Type} {signs : α → List Token} {item : Phrase α}
    (keeps : Keeps signs item) :
    Keeps (fun items => separatedSigns (items.map signs)) (Listed item) := by
  intro before items after read scanned
  cases read with
  | none => exact ⟨rfl, scanned⟩
  | some read => exact keeps_separated keeps read scanned

theorem keeps_called (depth : Nat) : Keeps Expr.signs (Called depth) := by
  intro before expr after read scanned
  induction read with
  | primary read => exact keeps_primary read scanned
  | @call before middle after opening marker callee arguments _ openingKind inside markerKind ih =>
    obtain ⟨calleeKept, behind⟩ := ih scanned
    obtain ⟨isDash, behind⟩ := sign_eq_mark '—' behind openingKind rfl
    obtain ⟨argumentsKept, closing⟩ := keeps_listed (keeps_plain depth) inside behind
    refine ⟨?_, closing.of_kind markerKind (by decide)⟩
    rw [calleeKept, keptTokens_cons openingKind (by decide) (by decide), argumentsKept,
      keptTokens_cons markerKind (by decide) (by decide), isDash, Expr.signs,
      Expr.allSigns_eq_map, unbroken_append, List.append_assoc]
    refine congrArg (unbroken callee.signs ++ ·) (congrArg (dashSign :: ·) ?_)
    change _ = unbroken _ ++ _
    rw [unbroken_append, unbroken_erased markerKind (by decide), List.append_assoc]
    rfl

theorem keeps_expression (depth : Nat) : Keeps Expr.signs (Expression depth) :=
  keeps_expressionOver (keeps_called depth) depth

theorem keeps_condition (depth : Nat) :
    Keeps (fun test => dashSign :: (test.signs ++ [dashSign])) (Condition depth) := by
  intro before test after read scanned
  cases read with
  | intro openingKind inside closingKind =>
    obtain ⟨opens, behind⟩ := sign_eq_mark '—' scanned openingKind rfl
    obtain ⟨kept, behind⟩ := keeps_plain depth inside behind
    obtain ⟨closes, last⟩ := sign_eq_mark '—' behind closingKind rfl
    refine ⟨?_, last⟩
    rw [keptTokens_cons openingKind (by decide) (by decide), kept,
      keptTokens_cons closingKind (by decide) (by decide), opens, closes]
    change _ = dashSign :: (unbroken (test.signs ++ [dashSign]) ++ keptTokens after)
    rw [unbroken_append, List.append_assoc]
    rfl

theorem keeps_name : Keeps (fun token => [token.erased]) Name := by
  intro before token after read scanned
  cases read with
  | intro kind =>
    refine ⟨?_, scanned.of_kind kind (by decide)⟩
    rw [keptTokens_cons kind (by decide) (by decide), unbroken_erased kind (by decide)]
    rfl

end Expressions

/-! ## Statements -/

section Statements

theorem keeps_lines {item : Phrase Stmt} (keeps : Keeps Stmt.signs item) :
    Keeps Stmt.rowSigns (Lines item) := by
  intro before statements after read scanned
  induction read with
  | nil => exact ⟨rfl, scanned⟩
  | lineEnd kind _ ih =>
    rw [keptTokens_lineEnd kind]
    exact ih (scanned.of_kind kind (by decide))
  | cons first _ ih =>
    obtain ⟨firstKept, behind⟩ := keeps first scanned
    obtain ⟨restKept, last⟩ := ih behind
    refine ⟨?_, last⟩
    rw [firstKept, restKept, Stmt.rowSigns, unbroken_append, unbroken_lineEnd rfl,
      List.append_assoc]

/-- The tokens of a layout's body, behind the colon. -/
def bodySigns (inside : List Stmt × Token) : List Token :=
  lineEndSign :: (Stmt.rowSigns inside.1 ++ [dotSign])

theorem keeps_bodyRule {item : Phrase Stmt} (keeps : Keeps Stmt.signs item) :
    Keeps bodySigns (BodyRule item) := by
  intro before inside after read scanned
  cases read with
  | intro lines kind =>
    obtain ⟨kept, behind⟩ := keeps_lines keeps lines scanned
    obtain ⟨isDot, last⟩ := sign_eq_mark '.' behind kind rfl
    refine ⟨?_, last⟩
    rw [kept, keptTokens_cons kind (by decide) (by decide), isDot, bodySigns,
      unbroken_lineEnd rfl, unbroken_append, List.append_assoc]
    rfl

/-- A keyword, a condition between dashes, and what the condition decides about. -/
theorem keeps_headed {depth : Nat} {before middle : List Token} {keyword : Token} {test : Expr}
    (word : String) (scanned : Scanned (keyword :: before))
    (kind : keyword.kind = .ofWord word)
    (isKeyword : TokenKind.ofWord word ∉ [.name, .lineEnd, .pound, .dagger])
    (testRead : Condition depth before test middle) :
    keptTokens (keyword :: before) =
        unbroken (wordSign word.toList :: dashSign :: (test.signs ++ [dashSign])) ++
          keptTokens middle ∧
      Scanned middle := by
  simp only [List.mem_cons, List.not_mem_nil, or_false, not_or] at isKeyword
  obtain ⟨named, apart, other, _⟩ := isKeyword
  obtain ⟨isWord, behind⟩ := sign_eq_keyword word scanned kind named
  obtain ⟨testKept, middle⟩ := keeps_condition depth testRead behind
  refine ⟨?_, middle⟩
  rw [keptTokens_cons kind apart other, testKept, ← isWord, unbroken_erased kind apart,
    List.cons_append]

section Rules

variable {depth : Nat} {inner : Phrase Stmt} {body : Phrase (List Stmt × Token)}
  (innerKeeps : Keeps Stmt.signs inner) (bodyKeeps : Keeps bodySigns body)

include innerKeeps bodyKeeps

/-- A statement of one more level keeps its tokens: only line ends between its parts are dropped. -/
theorem keeps_statementRule : Keeps Stmt.signs (StatementRule depth inner body) := by
  intro before statement after read scanned
  cases read with
  | @condition before middle after ifToken test yes kind testRead yesRead =>
    obtain ⟨headKept, behind⟩ := keeps_headed "if" scanned kind (by decide) testRead
    obtain ⟨yesKept, last⟩ := innerKeeps yesRead behind
    refine ⟨?_, last⟩
    have signs : Stmt.signs (.condition (ifToken.span.upTo yes.span) test yes none) =
        (ifSign :: dashSign :: (test.signs ++ [dashSign])) ++ yes.signs := by
      simp [Stmt.signs]
    rw [headKept, yesKept, signs, unbroken_append, List.append_assoc]
    rfl
  | @alternative before middle after ends others ifToken elseToken test yes no kind testRead
      yesRead _ lineEnds elseKind noRead =>
    obtain ⟨headKept, behind⟩ := keeps_headed "if" scanned kind (by decide) testRead
    obtain ⟨yesKept, behind⟩ := innerKeeps yesRead behind
    obtain ⟨isElse, behind⟩ :=
      sign_eq_keyword "else" (behind.of_lineEnds lineEnds) elseKind (by decide)
    obtain ⟨noKept, last⟩ := innerKeeps noRead behind
    refine ⟨?_, last⟩
    have signs : Stmt.signs (.condition (ifToken.span.upTo no.span) test yes (some no)) =
        (ifSign :: dashSign :: (test.signs ++ [dashSign])) ++
          (yes.signs ++ elseSign :: no.signs) := by
      simp [Stmt.signs]
    rw [headKept, yesKept, keptTokens_lineEnds lineEnds,
      keptTokens_cons elseKind (by decide) (by decide), noKept, isElse, signs, unbroken_append,
      unbroken_append, List.append_assoc, List.append_assoc]
    rfl
  | giveNothing kind _ =>
    refine ⟨?_, scanned.of_kind kind (by decide)⟩
    rw [keptTokens_cons kind (by decide) (by decide), Stmt.signs,
      unbroken_erased kind (by decide)]
    rfl
  | giveBack kind valueRead =>
    obtain ⟨valueKept, last⟩ :=
      keeps_expression depth valueRead (scanned.of_kind kind (by decide))
    refine ⟨?_, last⟩
    rw [keptTokens_cons kind (by decide) (by decide), valueKept, Stmt.signs,
      unbroken_erased kind (by decide), List.cons_append]
  | @loop before middle after whileToken test inside kind testRead insideRead =>
    obtain ⟨headKept, behind⟩ := keeps_headed "while" scanned kind (by decide) testRead
    obtain ⟨insideKept, last⟩ := innerKeeps insideRead behind
    refine ⟨?_, last⟩
    have signs : Stmt.signs (.loop (whileToken.span.upTo inside.span) test inside) =
        (whileSign :: dashSign :: (test.signs ++ [dashSign])) ++ inside.signs := by
      simp [Stmt.signs]
    rw [headKept, insideKept, signs, unbroken_append, List.append_assoc]
    rfl
  | block kind inside =>
    obtain ⟨isColon, behind⟩ := sign_eq_mark ':' scanned kind rfl
    obtain ⟨insideKept, last⟩ := bodyKeeps inside behind
    refine ⟨?_, last⟩
    rw [keptTokens_cons kind (by decide) (by decide), insideKept, isColon]
    rfl
  | expression exprRead =>
    rw [signs_printed]
    exact keeps_expression depth exprRead scanned

/-- A declaration keeps its tokens, but for the word between the name and the value of a directive.
-/
theorem keeps_declarationRule (nested : Bool) :
    Keeps Stmt.signs (DeclarationRule nested depth inner body) := by
  intro before statement after read scanned
  cases read with
  | remark kind textKind =>
    have isDagger := sign_eq_dagger scanned kind
    obtain ⟨_, last⟩ := scanned.of_remark kind
    refine ⟨?_, last⟩
    rw [keptTokens_cons kind (by decide) (by decide),
      keptTokens_cons textKind (by decide) (by decide), isDagger, Stmt.signs,
      unbroken_cons (by decide), unbroken_erased textKind (by decide)]
    rfl
  | directive _ kind nameKind valueKind =>
    obtain ⟨isPound, behind⟩ := sign_eq_mark '#' scanned kind rfl
    refine ⟨?_, (behind.of_kind nameKind (by decide)).of_kind valueKind (by decide)⟩
    rw [keptTokens_pound (by rw [kind]; decide) (by rw [valueKind]; decide),
      keptTokens_cons nameKind (by decide) (by decide),
      keptTokens_cons valueKind (by decide) (by decide), isPound, Stmt.signs,
      unbroken_cons (by decide), unbroken_erased nameKind (by decide),
      unbroken_erased valueKind (by decide)]
    rfl
  | directiveBe _ kind nameKind beKind valueKind =>
    obtain ⟨isPound, behind⟩ := sign_eq_mark '#' scanned kind rfl
    have behindBe := (behind.of_kind nameKind (by decide)).of_kind beKind (by decide)
    refine ⟨?_, behindBe.of_kind valueKind (by decide)⟩
    rw [keptTokens_directiveBe kind (by rw [nameKind]; decide) beKind,
      keptTokens_cons valueKind (by decide) (by decide), isPound, Stmt.signs,
      unbroken_cons (by decide), unbroken_erased nameKind (by decide),
      unbroken_erased valueKind (by decide)]
    rfl
  | @function before middle after params toToken name opening closing colon dot statements kind
      nameKind openingKind paramsRead closingKind colonKind inside =>
    obtain ⟨isTo, behind⟩ := sign_eq_keyword "to" scanned kind (by decide)
    obtain ⟨opens, behind⟩ := sign_eq_mark '—' (behind.of_kind nameKind (by decide)) openingKind rfl
    obtain ⟨paramsKept, behind⟩ := keeps_listed keeps_name paramsRead behind
    obtain ⟨closes, behind⟩ := sign_eq_mark '—' behind closingKind rfl
    obtain ⟨isColon, behind⟩ := sign_eq_mark ':' behind colonKind rfl
    obtain ⟨insideKept, last⟩ := bodyKeeps inside behind
    refine ⟨?_, last⟩
    have signs : Stmt.signs (.function (toToken.span.upTo dot.span) name params statements) =
        toSign :: name.erased :: dashSign ::
          (separatedSigns (params.map fun param => [param.erased]) ++
            dashSign :: colonSign :: bodySigns (statements, dot)) := rfl
    rw [keptTokens_cons kind (by decide) (by decide),
      keptTokens_cons nameKind (by decide) (by decide),
      keptTokens_cons openingKind (by decide) (by decide), paramsKept,
      keptTokens_cons closingKind (by decide) (by decide),
      keptTokens_cons colonKind (by decide) (by decide), insideKept, isTo, opens, closes, isColon,
      signs, unbroken_cons (by decide), unbroken_erased nameKind (by decide),
      unbroken_cons (by decide), unbroken_append, unbroken_cons (by decide),
      unbroken_cons (by decide)]
    simp only [List.cons_append, List.append_assoc]
    rfl
  | binding kind nameKind =>
    obtain ⟨isLet, behind⟩ := sign_eq_keyword "let" scanned kind (by decide)
    refine ⟨?_, behind.of_kind nameKind (by decide)⟩
    rw [keptTokens_cons kind (by decide) (by decide),
      keptTokens_cons nameKind (by decide) (by decide), isLet, Stmt.signs,
      unbroken_cons (by decide), unbroken_erased nameKind (by decide)]
    rfl
  | bindingBe kind nameKind beKind valueRead =>
    obtain ⟨isLet, behind⟩ := sign_eq_keyword "let" scanned kind (by decide)
    obtain ⟨isBe, behind⟩ :=
      sign_eq_keyword "be" (behind.of_kind nameKind (by decide)) beKind (by decide)
    obtain ⟨valueKept, last⟩ := keeps_expression depth valueRead behind
    refine ⟨?_, last⟩
    rw [keptTokens_cons kind (by decide) (by decide),
      keptTokens_cons nameKind (by decide) (by decide),
      keptTokens_cons beKind (by decide) (by decide), valueKept, isLet, isBe, Stmt.signs,
      unbroken_cons (by decide), unbroken_erased nameKind (by decide), unbroken_cons (by decide)]
    rfl
  | statement read => exact innerKeeps read scanned

end Rules

theorem keeps_layer (depth : Nat) :
    Keeps Stmt.signs (Statement depth) ∧
      (∀ nested, Keeps Stmt.signs (Declaration nested depth)) ∧ Keeps bodySigns (Body depth) := by
  induction depth with
  | zero => exact ⟨fun _ _ _ => False.elim, fun _ _ _ _ => False.elim, fun _ _ _ => False.elim⟩
  | succ depth ih =>
    obtain ⟨statement, declaration, body⟩ := ih
    exact ⟨keeps_statementRule statement body, keeps_declarationRule statement body,
      keeps_bodyRule (declaration true)⟩

/-- The signs of a program are the tokens it was read from. -/
theorem keptTokens_of_reads {depth : Nat} {tokens : List Token} {program : Program}
    (read : Reads depth tokens program) (scanned : Scanned tokens) :
    keptTokens tokens = unbroken program.signs := by
  obtain ⟨kept, _⟩ := keeps_lines ((keeps_layer depth).2.1 false) read scanned
  rw [kept]
  change unbroken (Stmt.rowSigns program) ++ [] = _
  rw [List.append_nil]
  cases program with
  | nil => rfl
  | cons statement rest => rfl

end Statements

end Grammar

namespace Source

open Grammar

variable {source : Source} {parsed : Parsed}

/-- The last token of a source is the end of its text. -/
theorem erased_final {final : Token} (read : source.parse = .ok parsed)
    (whole : parsed.tokens = parsed.tokens.dropLast ++ [final]) : final.erased = endSign := by
  have scanned := (parse_eq_ok_iff.mp read).1
  obtain ⟨body, _, _, _, written⟩ := exists_of_scan scanned
  obtain ⟨tokens, again, places⟩ := scan_of_written source.file written
  obtain rfl : parsed.tokens = tokens := Except.ok.inj (scanned.symm.trans again)
  rw [whole, List.map_append] at places
  exact List.singleton_inj.mp (List.append_inj_right' places rfl)

/-- The canonical text of a source has the tokens of the source, in their order, with their kinds,
lexemes and literals: only line ends and the `be` of a directive may differ. -/
theorem format_tokens (read : source.parse = .ok parsed) :
    ∃ text, parsed.program.layout = .ok text ∧
      source.format =
        (if depthLimit < Stmt.depths parsed.program then .error .tooDeep else .ok text) ∧
      ∀ file, ∃ tokens, (Source.mk text file).scan = .ok tokens ∧
        (unbroken tokens).map Token.erased =
          (unbroken (withoutDirectiveBe parsed.tokens)).map Token.erased := by
  obtain ⟨final, whole, scanned, derived⟩ := scanned_reads_of_parseUnder read
  obtain ⟨text, laidOut, written⟩ := exists_layout derived scanned
  refine ⟨text, laidOut, format_of_parse read laidOut, fun file => ?_⟩
  obtain ⟨tokens, rescanned, places⟩ := scan_of_written file written
  refine ⟨tokens, rescanned, ?_⟩
  have isEnd := erased_final read whole
  have endKind : final.kind = .textEnd := congrArg Token.kind isEnd
  change _ = keptTokens parsed.tokens
  rw [map_erased_unbroken, places, unbroken_append, whole, keptTokens_concat _ endKind,
    keptTokens_of_reads derived scanned, isEnd]
  rfl

/-- A source in which a `be`, two line ends and the place of the `else` all differ from its
canonical text, and the other tokens do not. -/
theorem format_tokens_directive :
    ∃ text parsed tokens, (Source.mk "#f be g\nif—a— &\n\nelse b † c" "").parse = .ok parsed ∧
      (Source.mk text "").scan = .ok tokens ∧
      (unbroken tokens).map Token.erased =
        (unbroken (withoutDirectiveBe parsed.tokens)).map Token.erased := by
  obtain ⟨parsed, read, _⟩ :=
    @exists_of_map_parse ⟨"#f be g\nif—a— &\n\nelse b † c", ""⟩ (fun _ => true) (by decide +kernel)
  obtain ⟨text, _, _, kept⟩ := format_tokens read
  obtain ⟨tokens, scanned, same⟩ := kept ""
  exact ⟨text, parsed, tokens, read, scanned, same⟩

end Source

end Marginalia
