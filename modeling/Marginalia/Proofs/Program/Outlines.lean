import Mathlib
import Marginalia.Program.Outline
import Marginalia.Proofs.Program.Documents
import Marginalia.Proofs.Running.Outcomes

/-!
# Outlines lose nothing

Two programs that a reader has made are equal if their outlines with spans are, and equal without
their places if their outlines without spans are (`Program.outline_faithful`). It is enough that the
outlines are alike.

An outline shows of a place what `Span.seen` says. Two trees are compared from the top. Nodes with
alike outlines have the same label, so they are of one kind, and then the outlines of their parts
are alike in each place (`Stmt.partsAlike_of_alike`). This needs nodes of known kinds
(`Stmt.Known`), since the outline of another one may be any document.
-/

namespace Marginalia

open Document

/-! ## What a reader makes -/

/-- Programs that differ in their places only. -/
def Likeness.placed : Likeness := ⟨fun _ _ => True, True, False⟩

/-- All nodes of the expression are of known kinds. -/
abbrev Expr.Known (expr : Expr) : Prop :=
  Likeness.placed.ExprAlike expr expr

/-- All nodes of the statement are of known kinds. -/
abbrev Stmt.Known (statement : Stmt) : Prop :=
  Likeness.placed.StmtAlike statement statement

/-- A reader can make the program, within some depth, from tokens and the end of the text. -/
def Program.Readable (program : Program) : Prop :=
  ∃ depth body final, (∀ token ∈ body, token.kind ≠ .textEnd) ∧ final.kind = .textEnd ∧
    Program.parseWithin depth (body ++ [final]) = .ok program

theorem Source.readable_of_parseUnder {source : Source} {limits : Limits} {parsed : Parsed}
    (read : source.parseUnder limits = .ok parsed) : parsed.program.Readable := by
  obtain ⟨scanned, programRead⟩ := parseUnder_eq_ok_iff.mp read
  obtain ⟨body, final, whole, ends, inside⟩ := exists_body_of_scan scanned
  exact ⟨limits.depth, body, final, inside, ends, whole ▸ programRead⟩

/-- What a source can be read as whose statements end at these places and are that deep. -/
theorem Source.exists_readable_of_test {source : Source} {stops : List Int} {depth : Nat}
    (tested : (source.parse.map fun parsed => (parsed.program.map (·.span.stop.index),
      Stmt.depths parsed.program)).toOption = some (stops, depth)) :
    ∃ parsed, source.parse = .ok parsed ∧ parsed.program.Readable ∧
      parsed.program.map (·.span.stop.index) = stops ∧ Stmt.depths parsed.program = depth := by
  cases read : source.parse with
  | error fault =>
    rw [read] at tested
    cases tested
  | ok parsed =>
    rw [read] at tested
    obtain ⟨places, deep⟩ := Prod.mk.inj (Option.some.inj tested)
    exact ⟨parsed, rfl, readable_of_parseUnder read, places, deep⟩

theorem Stmt.forall_known_of_rows {statements : List Stmt}
    (rows : Likeness.placed.RowsAlike statements statements) :
    ∀ statement ∈ statements, statement.Known := by
  have pairs := Likeness.forall₂_of_rows id rows
  rwa [List.forall₂_same] at pairs

theorem Program.Readable.known {program : Program} (readable : program.Readable) :
    ∀ statement ∈ program, statement.Known := by
  obtain ⟨depth, body, final, inside, ends, read⟩ := readable
  have rows : Likeness.placed.RowsAlike program program :=
    Grammar.rowsAlike_of_reads ((Program.parseWithin_eq_ok_iff inside ends).mp read)
      fun _ _ => trivial
  exact Stmt.forall_known_of_rows rows

/-! ## Nodes and their parts -/

/-- What an outline shows of a place: all of it, or nothing. -/
def Span.seen (spans : Bool) (span : Span) : Span :=
  if spans then span else .nowhere

section Nodes

variable {spans : Bool} {kind kind' : String} {span span' : Span}
  {parts parts' : List (String × Document)}

/-- The document outlines a node of the kind. -/
def IsNode (spans : Bool) (kind : String) (document : Document) : Prop :=
  ∃ span parts, document = outlineNode spans kind span parts

theorem IsNode.ne_null {document : Document} (node : IsNode spans kind document) :
    document ≠ .null := by
  obtain ⟨span, parts, rfl⟩ := node
  exact nofun

/-- Alike nodes are of one kind. -/
theorem IsNode.kind_eq {document document' : Document} (node : IsNode spans kind document)
    (node' : IsNode spans kind' document') (alike : document.Alike document') : kind = kind' := by
  obtain ⟨span, parts, rfl⟩ := node
  obtain ⟨span', parts', rfl⟩ := node'
  exact alike.first.eq_of_text

/-- Alike nodes whose parts have the same names are at places that show no difference, and their
parts are alike. -/
theorem parts_of_alike
    (alike : (outlineNode spans kind span parts).Alike (outlineNode spans kind' span' parts'))
    (names : List String) (left : parts.map Prod.fst = names) (right : parts'.map Prod.fst = names)
    (once : ("node_type" :: "span" :: names).Nodup) :
    span.seen spans = span'.seen spans ∧
      List.Forall₂ Alike (parts.map Prod.snd) (parts'.map Prod.snd) := by
  subst left
  cases spans with
  | false =>
    have apart : ("node_type" :: parts.map Prod.fst).Nodup :=
      once.sublist ((List.sublist_cons_self _ _).cons_cons _)
    have names : "node_type" :: parts'.map Prod.fst = "node_type" :: parts.map Prod.fst :=
      congrArg _ right
    obtain _ | ⟨_, others⟩ := alike.values _ rfl names apart
    exact ⟨rfl, others⟩
  | true =>
    have names : "node_type" :: "span" :: parts'.map Prod.fst =
        "node_type" :: "span" :: parts.map Prod.fst :=
      congrArg _ (congrArg _ right)
    obtain _ | ⟨_, _ | ⟨place, others⟩⟩ := alike.values _ rfl names once
    exact ⟨Span.eq_of_alike place, others⟩

end Nodes

section Parts

variable {spans : Bool}

theorem forall_of_rel_self {α : Type} {related : α → α → Prop} {part : Option α}
    (same : Option.Rel related part part) : ∀ a ∈ part, related a a := by
  intro a mem
  cases mem
  cases same with
  | some here => exact here

theorem Constant.eq_of_alike {left right : Constant}
    (alike : left.outline.Alike right.outline) : left = right := by
  cases left <;> cases right <;> cases alike <;> rfl

theorem TokenKind.ofLabel?_label (kind : TokenKind) : ofLabel? kind.label = some kind := by
  cases kind <;> decide

theorem TokenKind.label_injective : TokenKind.label.Injective := by
  intro left right same
  have found := congrArg ofLabel? same
  rw [ofLabel?_label, ofLabel?_label] at found
  exact Option.some.inj found

/-- Tokens with alike documents are the same in what the documents show of them. -/
theorem Token.moved_of_alike {left right : Token}
    (alike : (left.document spans).Alike (right.document spans)) :
    left.moved (Span.seen spans) = right.moved (Span.seen spans) := by
  -- With spans or without, the first three members come first.
  have same : Alike (.text left.kind.label) (.text right.kind.label) ∧
      Alike (.text left.lexeme) (.text right.lexeme) ∧
      Alike (.ofOption .text left.literal) (.ofOption .text right.literal) ∧
      left.span.seen spans = right.span.seen spans := by
    cases spans with
    | false =>
      obtain _ | ⟨kinds, _ | ⟨lexemes, _ | ⟨literals, _⟩⟩⟩ :=
        alike.values ["type", "lexeme", "literal"] rfl rfl (by decide)
      exact ⟨kinds, lexemes, literals, rfl⟩
    | true =>
      obtain _ | ⟨kinds, _ | ⟨lexemes, _ | ⟨literals, _ | ⟨places, _⟩⟩⟩⟩ :=
        alike.values ["type", "lexeme", "literal", "span"] rfl rfl (by decide)
      exact ⟨kinds, lexemes, literals, Span.eq_of_alike places⟩
  obtain ⟨kinds, lexemes, literals, places⟩ := same
  have texts := rel_of_ofOption literals nofun nofun
  have same : left.literal = right.literal := by
    generalize left.literal = literal, right.literal = literal' at texts ⊢
    cases texts with
    | none => rfl
    | some same => rw [same.eq_of_text]
  rw [Token.moved, Token.moved, TokenKind.label_injective kinds.eq_of_text, lexemes.eq_of_text,
    same, places]

theorem Token.map_moved_of_alike {lefts rights : List Token}
    (alike : List.Forall₂ Alike (lefts.map (Token.document spans))
      (rights.map (Token.document spans))) :
    lefts.map (Token.moved (Span.seen spans)) = rights.map (Token.moved (Span.seen spans)) := by
  rw [List.forall₂_map_left_iff, List.forall₂_map_right_iff] at alike
  rw [← List.forall₂_eq_eq_eq, List.forall₂_map_left_iff, List.forall₂_map_right_iff]
  exact alike.imp fun _ _ => Token.moved_of_alike

end Parts

/-! ## Alike outlines -/

namespace Expr

variable {spans : Bool} {left right : Expr}

theorem Known.isNode {expr : Expr} (known : expr.Known) :
    IsNode spans expr.kind (expr.outline spans) := by
  cases known <;> exact ⟨_, _, rfl⟩

/-- Expressions of one kind whose places and tokens show no difference, and whose parts have alike
outlines. -/
inductive PartsAlike (spans : Bool) : Expr → Expr → Prop
  | constant {span span' : Span} (value : Constant) :
    span.seen spans = span'.seen spans →
    PartsAlike spans (.constant span value) (.constant span' value)
  | name {span span' : Span} {token token' : Token} :
    span.seen spans = span'.seen spans →
    token.moved (Span.seen spans) = token'.moved (Span.seen spans) →
    PartsAlike spans (.name span token) (.name span' token')
  | negation {span span' : Span} {operator operator' : Token} {operand operand' : Expr} :
    span.seen spans = span'.seen spans →
    operator.moved (Span.seen spans) = operator'.moved (Span.seen spans) →
    (operand.outline spans).Alike (operand'.outline spans) →
    PartsAlike spans (.negation span operator operand) (.negation span' operator' operand')
  | comparison {span span' : Span} {left left' : Expr} {operator operator' : Token}
    {right right' : Expr} :
    span.seen spans = span'.seen spans → (left.outline spans).Alike (left'.outline spans) →
    operator.moved (Span.seen spans) = operator'.moved (Span.seen spans) →
    (right.outline spans).Alike (right'.outline spans) →
    PartsAlike spans (.comparison span left operator right)
      (.comparison span' left' operator' right')
  | connective {span span' : Span} {left left' : Expr} {operator operator' : Token}
    {right right' : Expr} :
    span.seen spans = span'.seen spans → (left.outline spans).Alike (left'.outline spans) →
    operator.moved (Span.seen spans) = operator'.moved (Span.seen spans) →
    (right.outline spans).Alike (right'.outline spans) →
    PartsAlike spans (.connective span left operator right)
      (.connective span' left' operator' right')
  | call {span span' : Span} {callee callee' : Expr} {marker marker' : Token}
    {arguments arguments' : List Expr} :
    span.seen spans = span'.seen spans → (callee.outline spans).Alike (callee'.outline spans) →
    marker.moved (Span.seen spans) = marker'.moved (Span.seen spans) →
    List.Forall₂ Alike (outlines spans arguments) (outlines spans arguments') →
    PartsAlike spans (.call span callee marker arguments) (.call span' callee' marker' arguments')

/-- Expressions with alike outlines are of one kind, since no two kinds have the same name, and
their parts have alike outlines. -/
theorem partsAlike_of_alike (lefts : left.Known) (rights : right.Known)
    (alike : (left.outline spans).Alike (right.outline spans)) : PartsAlike spans left right := by
  -- No two constructors have the same label, so only the cases of one kind are left.
  have kinds := (Known.isNode lefts).kind_eq (Known.isNode rights) alike
  cases lefts with
  | constant value =>
    cases rights with
    | constant value' =>
      obtain ⟨places, _ | ⟨values, _⟩⟩ := parts_of_alike alike ["value"] rfl rfl (by decide)
      rw [Constant.eq_of_alike values]
      exact .constant value' places
    | _ => simp [kind] at kinds
  | name _ =>
    cases rights with
    | name _ =>
      obtain ⟨places, _ | ⟨tokens, _⟩⟩ := parts_of_alike alike ["name"] rfl rfl (by decide)
      exact .name places (Token.moved_of_alike tokens)
    | _ => simp [kind] at kinds
  | negation _ _ =>
    cases rights with
    | negation _ _ =>
      obtain ⟨places, _ | ⟨operators, _ | ⟨operands, _⟩⟩⟩ :=
        parts_of_alike alike ["operator", "operand"] rfl rfl (by decide)
      exact .negation places (Token.moved_of_alike operators) operands
    | _ => simp [kind] at kinds
  | comparison _ _ _ =>
    cases rights with
    | comparison _ _ _ =>
      obtain ⟨places, _ | ⟨first, _ | ⟨operators, _ | ⟨second, _⟩⟩⟩⟩ :=
        parts_of_alike alike ["left", "operator", "right"] rfl rfl (by decide)
      exact .comparison places first (Token.moved_of_alike operators) second
    | _ => simp [kind] at kinds
  | connective _ _ _ =>
    cases rights with
    | connective _ _ _ =>
      obtain ⟨places, _ | ⟨first, _ | ⟨operators, _ | ⟨second, _⟩⟩⟩⟩ :=
        parts_of_alike alike ["left", "operator", "right"] rfl rfl (by decide)
      exact .connective places first (Token.moved_of_alike operators) second
    | _ => simp [kind] at kinds
  | call _ _ _ _ =>
    cases rights with
    | call _ _ _ _ =>
      obtain ⟨places, _ | ⟨callees, _ | ⟨markers, _ | ⟨lists, _⟩⟩⟩⟩ :=
        parts_of_alike alike ["callee", "marker", "arguments"] rfl rfl (by decide)
      exact .call places callees (Token.moved_of_alike markers) lists.items
    | _ => simp [kind] at kinds

mutual

/-- Expressions with alike outlines are equal, but for places that an outline does not show. -/
theorem moved_of_alike {left right : Expr} (lefts : left.Known) (rights : right.Known)
    (alike : (left.outline spans).Alike (right.outline spans)) :
    left.moved (Span.seen spans) = right.moved (Span.seen spans) := by
  -- The recursion is on the first tree; the parts of the second one stand in the same places.
  have parts := partsAlike_of_alike lefts rights alike
  cases left with
  | constant span value =>
    cases parts with
    | constant _ places => rw [moved, moved, places]
  | name span token =>
    cases parts with
    | name places tokens => rw [moved, moved, places, tokens]
  | negation span operator operand =>
    cases parts with
    | negation places operators operands =>
      obtain _ | _ | ⟨_, inner⟩ := lefts
      obtain _ | _ | ⟨_, inner'⟩ := rights
      rw [moved, moved, places, operators, moved_of_alike inner inner' operands]
  | comparison span left operator right =>
    cases parts with
    | comparison places first operators second =>
      obtain _ | _ | _ | ⟨one, _, other⟩ := lefts
      obtain _ | _ | _ | ⟨one', _, other'⟩ := rights
      rw [moved, moved, places, moved_of_alike one one' first, operators,
        moved_of_alike other other' second]
  | connective span left operator right =>
    cases parts with
    | connective places first operators second =>
      obtain _ | _ | _ | _ | ⟨one, _, other⟩ := lefts
      obtain _ | _ | _ | _ | ⟨one', _, other'⟩ := rights
      rw [moved, moved, places, moved_of_alike one one' first, operators,
        moved_of_alike other other' second]
  | call span callee marker arguments =>
    cases parts with
    | call places callees markers lists =>
      cases lefts with
      | call _ one _ all =>
      cases rights with
      | call _ one' _ all' =>
        rw [moved, moved, places, moved_of_alike one one' callees, markers,
          allMoved_of_alike all all' lists]
  | unknown span label view => cases lefts

/-- Expressions in a row with alike outlines are the same in what the outlines show. -/
theorem allMoved_of_alike {lefts rights : List Expr}
    (left : List.Forall₂ Likeness.placed.ExprAlike lefts lefts)
    (right : List.Forall₂ Likeness.placed.ExprAlike rights rights)
    (alike : List.Forall₂ Alike (outlines spans lefts) (outlines spans rights)) :
    allMoved (Span.seen spans) lefts = allMoved (Span.seen spans) rights := by
  cases lefts with
  | nil =>
    cases rights with
    | nil => rfl
    | cons _ _ => cases alike
  | cons expr rest =>
    cases rights with
    | nil => cases alike
    | cons expr' rest' =>
      cases left with
      | cons first others =>
      cases right with
      | cons first' others' =>
      cases alike with
      | cons same also =>
        rw [allMoved, allMoved, moved_of_alike first first' same,
          allMoved_of_alike others others' also]

end

/-- Optional expressions with alike documents are both absent, or have alike outlines. -/
theorem rel_of_alike {left right : Option Expr}
    (lefts : Option.Rel Likeness.placed.ExprAlike left left)
    (rights : Option.Rel Likeness.placed.ExprAlike right right)
    (alike : (ofOption (outline spans) left).Alike (ofOption (outline spans) right)) :
    Option.Rel (fun one other => (one.outline spans).Alike (other.outline spans)) left right :=
  rel_of_ofOption alike (fun expr mem => (Known.isNode (forall_of_rel_self lefts expr mem)).ne_null)
    fun expr mem => (Known.isNode (forall_of_rel_self rights expr mem)).ne_null

theorem map_moved_of_rel {left right : Option Expr}
    (lefts : Option.Rel Likeness.placed.ExprAlike left left)
    (rights : Option.Rel Likeness.placed.ExprAlike right right)
    (alike : Option.Rel (fun one other => (one.outline spans).Alike (other.outline spans))
      left right) :
    left.map (moved (Span.seen spans)) = right.map (moved (Span.seen spans)) := by
  cases alike with
  | none => rfl
  | some same =>
    obtain ⟨known⟩ := lefts
    obtain ⟨known'⟩ := rights
    exact congrArg some (moved_of_alike known known' same)

end Expr

namespace Stmt

variable {spans : Bool} {left right : Stmt}

/-- Both forms of a condition have the same parts. -/
theorem outline_condition (spans : Bool) (span : Span) (test : Expr) (yes : Stmt)
    (no : Option Stmt) :
    (condition span test yes no).outline spans = outlineNode spans "Condition" span
      [("test", test.outline spans), ("then_branch", yes.outline spans),
        ("else_branch", .ofOption (outline spans) no)] := by
  cases no <;> rfl

theorem Known.isNode {statement : Stmt} (known : statement.Known) :
    IsNode spans statement.kind (statement.outline spans) := by
  cases known with
  | condition _ _ _ => exact ⟨_, _, outline_condition spans _ _ _ _⟩
  | _ => exact ⟨_, _, rfl⟩

/-- Statements of one kind whose places and tokens show no difference, and whose parts have alike
outlines. -/
inductive PartsAlike (spans : Bool) : Stmt → Stmt → Prop
  | expression {span span' : Span} {expr expr' : Expr} (wrapped : Bool) :
    span.seen spans = span'.seen spans → (expr.outline spans).Alike (expr'.outline spans) →
    PartsAlike spans (.expression span expr wrapped) (.expression span' expr' wrapped)
  | binding {span span' : Span} {name name' : Token} {initial initial' : Option Expr} :
    span.seen spans = span'.seen spans →
    name.moved (Span.seen spans) = name'.moved (Span.seen spans) →
    Option.Rel (fun one other => (one.outline spans).Alike (other.outline spans))
      initial initial' →
    PartsAlike spans (.binding span name initial) (.binding span' name' initial')
  | block {span span' : Span} {statements statements' : List Stmt} :
    span.seen spans = span'.seen spans →
    List.Forall₂ Alike (outlines spans statements) (outlines spans statements') →
    PartsAlike spans (.block span statements) (.block span' statements')
  | condition {span span' : Span} {test test' : Expr} {yes yes' : Stmt} {no no' : Option Stmt} :
    span.seen spans = span'.seen spans → (test.outline spans).Alike (test'.outline spans) →
    (yes.outline spans).Alike (yes'.outline spans) →
    Option.Rel (fun one other => (one.outline spans).Alike (other.outline spans)) no no' →
    PartsAlike spans (.condition span test yes no) (.condition span' test' yes' no')
  | loop {span span' : Span} {test test' : Expr} {body body' : Stmt} :
    span.seen spans = span'.seen spans → (test.outline spans).Alike (test'.outline spans) →
    (body.outline spans).Alike (body'.outline spans) →
    PartsAlike spans (.loop span test body) (.loop span' test' body')
  | giveBack {span span' : Span} {keyword keyword' : Token} {value value' : Option Expr} :
    span.seen spans = span'.seen spans →
    keyword.moved (Span.seen spans) = keyword'.moved (Span.seen spans) →
    Option.Rel (fun one other => (one.outline spans).Alike (other.outline spans)) value value' →
    PartsAlike spans (.giveBack span keyword value) (.giveBack span' keyword' value')
  | function {span span' : Span} {name name' : Token} {params params' : List Token}
    {body body' : List Stmt} :
    span.seen spans = span'.seen spans →
    name.moved (Span.seen spans) = name'.moved (Span.seen spans) →
    params.map (Token.moved (Span.seen spans)) = params'.map (Token.moved (Span.seen spans)) →
    List.Forall₂ Alike (outlines spans body) (outlines spans body') →
    PartsAlike spans (.function span name params body) (.function span' name' params' body')
  | directive {span span' : Span} {name name' value value' : Token} :
    span.seen spans = span'.seen spans →
    name.moved (Span.seen spans) = name'.moved (Span.seen spans) →
    value.moved (Span.seen spans) = value'.moved (Span.seen spans) →
    PartsAlike spans (.directive span name value) (.directive span' name' value')
  | remark {span span' : Span} {text text' : Token} :
    span.seen spans = span'.seen spans →
    text.moved (Span.seen spans) = text'.moved (Span.seen spans) →
    PartsAlike spans (.remark span text) (.remark span' text')

/-- Statements with alike outlines are of one kind, and their parts have alike outlines. -/
theorem partsAlike_of_alike (lefts : left.Known) (rights : right.Known)
    (alike : (left.outline spans).Alike (right.outline spans)) : PartsAlike spans left right := by
  have kinds := (Known.isNode lefts).kind_eq (Known.isNode rights) alike
  cases lefts with
  | expression _ _ =>
    cases rights with
    | expression _ _ =>
      obtain ⟨places, _ | ⟨exprs, _ | ⟨wraps, _⟩⟩⟩ :=
        parts_of_alike alike ["expression", "implicit"] rfl rfl (by decide)
      rw [wraps.eq_of_bool]
      exact .expression _ places exprs
    | _ => simp [kind] at kinds
  | binding _ known =>
    cases rights with
    | binding _ known' =>
      obtain ⟨places, _ | ⟨names, _ | ⟨initials, _⟩⟩⟩ :=
        parts_of_alike alike ["name", "initializer"] rfl rfl (by decide)
      exact .binding places (Token.moved_of_alike names) (Expr.rel_of_alike known known' initials)
    | _ => simp [kind] at kinds
  | block _ =>
    cases rights with
    | block _ =>
      obtain ⟨places, _ | ⟨lists, _⟩⟩ := parts_of_alike alike ["statements"] rfl rfl (by decide)
      exact .block places lists.items
    | _ => simp [kind] at kinds
  | condition _ _ other =>
    cases rights with
    | condition _ _ other' =>
      rw [outline_condition, outline_condition] at alike
      obtain ⟨places, _ | ⟨tests, _ | ⟨yess, _ | ⟨nos, _⟩⟩⟩⟩ :=
        parts_of_alike alike ["test", "then_branch", "else_branch"] rfl rfl (by decide)
      refine .condition places tests yess (rel_of_ofOption nos ?_ ?_)
      · exact fun no mem => (Known.isNode (forall_of_rel_self other no mem)).ne_null
      · exact fun no mem => (Known.isNode (forall_of_rel_self other' no mem)).ne_null
    | _ => simp [kind] at kinds
  | loop _ _ =>
    cases rights with
    | loop _ _ =>
      obtain ⟨places, _ | ⟨tests, _ | ⟨bodies, _⟩⟩⟩ :=
        parts_of_alike alike ["test", "body"] rfl rfl (by decide)
      exact .loop places tests bodies
    | _ => simp [kind] at kinds
  | giveBack _ known =>
    cases rights with
    | giveBack _ known' =>
      obtain ⟨places, _ | ⟨keywords, _ | ⟨values, _⟩⟩⟩ :=
        parts_of_alike alike ["keyword", "value"] rfl rfl (by decide)
      exact .giveBack places (Token.moved_of_alike keywords) (Expr.rel_of_alike known known' values)
    | _ => simp [kind] at kinds
  | function _ _ _ _ =>
    cases rights with
    | function _ _ _ _ =>
      obtain ⟨places, _ | ⟨names, _ | ⟨lists, _ | ⟨bodies, _⟩⟩⟩⟩ :=
        parts_of_alike alike ["name", "params", "body"] rfl rfl (by decide)
      exact .function places (Token.moved_of_alike names) (Token.map_moved_of_alike lists.items)
        bodies.items
    | _ => simp [kind] at kinds
  | directive _ _ =>
    cases rights with
    | directive _ _ =>
      obtain ⟨places, _ | ⟨names, _ | ⟨values, _⟩⟩⟩ :=
        parts_of_alike alike ["name", "value"] rfl rfl (by decide)
      exact .directive places (Token.moved_of_alike names) (Token.moved_of_alike values)
    | _ => simp [kind] at kinds
  | remark =>
    cases rights with
    | remark =>
      obtain ⟨places, _ | ⟨texts, _⟩⟩ := parts_of_alike alike ["text"] rfl rfl (by decide)
      exact .remark places (Token.moved_of_alike texts)
    | _ => simp [kind] at kinds

mutual

/-- Statements with alike outlines are equal, but for places that an outline does not show. -/
theorem moved_of_alike {left right : Stmt} (lefts : left.Known) (rights : right.Known)
    (alike : (left.outline spans).Alike (right.outline spans)) :
    left.moved (Span.seen spans) = right.moved (Span.seen spans) := by
  have parts := partsAlike_of_alike lefts rights alike
  cases left with
  | expression span expr wrapped =>
    cases parts with
    | expression _ places exprs =>
      cases lefts with
      | expression _ known =>
      cases rights with
      | expression _ known' => rw [moved, moved, places, Expr.moved_of_alike known known' exprs]
  | binding span name initial =>
    cases parts with
    | binding places names initials =>
      cases lefts with
      | binding _ known =>
      cases rights with
      | binding _ known' =>
        rw [moved, moved, places, names, Expr.map_moved_of_rel known known' initials]
  | block span statements =>
    cases parts with
    | block places lists =>
      cases lefts with
      | block known =>
      cases rights with
      | block known' =>
        rw [moved, moved, places, allMoved_of_alike (forall_known_of_rows known)
          (forall_known_of_rows known') lists]
  | condition span test yes no =>
    cases parts with
    | condition places tests yess nos =>
      cases lefts with
      | condition known branch other =>
      cases rights with
      | condition known' branch' other' =>
        have first := Expr.moved_of_alike known known' tests
        have second := moved_of_alike branch branch' yess
        cases no with
        | none =>
          cases nos with
          | none => rw [moved, moved, places, first, second]
        | some no =>
          cases nos with
          | some same =>
          cases other with
          | some given =>
          cases other' with
          | some given' =>
            rw [moved, moved, places, first, second, moved_of_alike given given' same]
  | loop span test body =>
    cases parts with
    | loop places tests bodies =>
      cases lefts with
      | loop known inner =>
      cases rights with
      | loop known' inner' =>
        rw [moved, moved, places, Expr.moved_of_alike known known' tests,
          moved_of_alike inner inner' bodies]
  | giveBack span keyword value =>
    cases parts with
    | giveBack places keywords values =>
      cases lefts with
      | giveBack _ known =>
      cases rights with
      | giveBack _ known' =>
        rw [moved, moved, places, keywords, Expr.map_moved_of_rel known known' values]
  | function span name params body =>
    cases parts with
    | function places names lists bodies =>
      cases lefts with
      | function _ _ _ known =>
      cases rights with
      | function _ _ _ known' =>
        rw [moved, moved, places, names, lists, allMoved_of_alike (forall_known_of_rows known)
          (forall_known_of_rows known') bodies]
  | directive span name value =>
    cases parts with
    | directive places names values => rw [moved, moved, places, names, values]
  | remark span text =>
    cases parts with
    | remark places texts => rw [moved, moved, places, texts]
  | unknown span label view => cases lefts

theorem allMoved_of_alike {lefts rights : List Stmt}
    (left : ∀ statement ∈ lefts, statement.Known) (right : ∀ statement ∈ rights, statement.Known)
    (alike : List.Forall₂ Alike (outlines spans lefts) (outlines spans rights)) :
    allMoved (Span.seen spans) lefts = allMoved (Span.seen spans) rights := by
  cases lefts with
  | nil =>
    cases rights with
    | nil => rfl
    | cons _ _ => cases alike
  | cons statement rest =>
    cases rights with
    | nil => cases alike
    | cons statement' rest' =>
      obtain ⟨first, others⟩ := List.forall_mem_cons.mp left
      obtain ⟨first', others'⟩ := List.forall_mem_cons.mp right
      cases alike with
      | cons same also =>
        rw [allMoved, allMoved, moved_of_alike first first' same,
          allMoved_of_alike others others' also]

end

end Stmt

/-! ## Outlines without spans do not look at places -/

variable {move : Span → Span}

theorem Token.map_document_moved (tokens : List Token) :
    (tokens.map (Token.moved move)).map (Token.document false) =
      tokens.map (Token.document false) := by
  rw [List.map_map]
  rfl

namespace Expr

mutual

theorem outline_moved (expr : Expr) : (expr.moved move).outline false = expr.outline false := by
  cases expr with
  | constant span value => rfl
  | name span token => rfl
  | negation span operator operand =>
    rw [moved, outline, outline, outline_moved operand]
    rfl
  | comparison span left operator right =>
    rw [moved, outline, outline, outline_moved left, outline_moved right]
    rfl
  | connective span left operator right =>
    rw [moved, outline, outline, outline_moved left, outline_moved right]
    rfl
  | call span callee marker arguments =>
    rw [moved, outline, outline, outline_moved callee, outlines_moved arguments]
    rfl
  | unknown span kind view => rfl

theorem outlines_moved (exprs : List Expr) :
    outlines false (allMoved move exprs) = outlines false exprs := by
  cases exprs with
  | nil => rfl
  | cons expr rest => rw [allMoved, outlines, outlines, outline_moved expr, outlines_moved rest]

end

theorem ofOption_outline_moved (part : Option Expr) :
    ofOption (outline false) (part.map (moved move)) = ofOption (outline false) part := by
  cases part with
  | none => rfl
  | some expr => exact outline_moved expr

end Expr

namespace Stmt

mutual

/-- An outline without places does not depend on places. -/
theorem outline_moved (statement : Stmt) :
    (statement.moved move).outline false = statement.outline false := by
  cases statement with
  | expression span expr wrapped =>
    rw [moved, outline, outline, Expr.outline_moved]
    rfl
  | binding span name initial =>
    rw [moved, outline, outline, Expr.ofOption_outline_moved]
    rfl
  | block span statements =>
    rw [moved, outline, outline, outlines_moved statements]
    rfl
  | condition span test yes no =>
    cases no with
    | none =>
      rw [moved, outline, outline, Expr.outline_moved, outline_moved yes]
      rfl
    | some no =>
      rw [moved, outline, outline, Expr.outline_moved, outline_moved yes, outline_moved no]
      rfl
  | loop span test body =>
    rw [moved, outline, outline, Expr.outline_moved, outline_moved body]
    rfl
  | giveBack span keyword value =>
    rw [moved, outline, outline, Expr.ofOption_outline_moved]
    rfl
  | function span name params body =>
    rw [moved, outline, outline, Token.map_document_moved, outlines_moved body]
    rfl
  | directive span name value => rfl
  | remark span text => rfl
  | unknown span kind view => rfl

theorem outlines_moved (statements : List Stmt) :
    outlines false (allMoved move statements) = outlines false statements := by
  cases statements with
  | nil => rfl
  | cons statement rest =>
    rw [allMoved, outlines, outlines, outline_moved statement, outlines_moved rest]

end

end Stmt

/-! ## Programs with alike outlines -/

namespace Program

variable {left right : Program}

theorem outline_erased (program : Program) :
    Program.outline false program.erased = program.outline false := by
  rw [erased_eq_allMoved, outline, outline, Stmt.outlines_moved]

theorem eq_of_alike (lefts : left.Readable) (rights : right.Readable)
    (alike : (left.outline true).Alike (right.outline true)) : left = right := by
  have same : Stmt.allMoved id left = Stmt.allMoved id right :=
    Stmt.allMoved_of_alike lefts.known rights.known alike.items
  rwa [Stmt.allMoved_id, Stmt.allMoved_id] at same

theorem erased_eq_of_alike (lefts : left.Readable) (rights : right.Readable)
    (alike : (left.outline false).Alike (right.outline false)) : left.erased = right.erased := by
  rw [erased_eq_allMoved, erased_eq_allMoved]
  exact Stmt.allMoved_of_alike lefts.known rights.known alike.items

/-- Outlines lose nothing. Programs that a reader can make are equal if and only if their outlines
with spans are, and equal without their places if and only if their outlines without spans are; and
their outlines are alike only if they are equal. -/
theorem outline_faithful (lefts : left.Readable) (rights : right.Readable) :
    [left = right, left.outline true = right.outline true,
      (left.outline true).Alike (right.outline true)].TFAE ∧
    [left.erased = right.erased, left.outline false = right.outline false,
      (left.outline false).Alike (right.outline false)].TFAE := by
  constructor
  · tfae_have 1 → 2 := congrArg (outline true)
    tfae_have 2 → 3 := fun same => same ▸ alike_refl _
    tfae_have 3 → 1 := eq_of_alike lefts rights
    tfae_finish
  · tfae_have 1 → 2 := by
      intro same
      rw [← outline_erased left, ← outline_erased right, same]
    tfae_have 2 → 3 := fun same => same ▸ alike_refl _
    tfae_have 3 → 1 := erased_eq_of_alike lefts rights
    tfae_finish

/-- A blank more shows with spans only; a return of nothing shows beside one that gives nothing
back. -/
theorem outline_faithful_returns :
    ∃ plain spaced given,
      (Source.mk "to f——: &." "").parse = .ok plain ∧
      (Source.mk "to  f——: &." "").parse = .ok spaced ∧
      (Source.mk "to f——: &nothing." "").parse = .ok given ∧
      plain.program.Readable ∧ spaced.program.Readable ∧ given.program.Readable ∧
      plain.program.outline false = spaced.program.outline false ∧
      ¬ (plain.program.outline true).Alike (spaced.program.outline true) ∧
      ¬ (plain.program.outline false).Alike (given.program.outline false) := by
  have same : (Source.mk "to f——: &." "").parse.map (·.program.erased) =
      (Source.mk "to  f——: &." "").parse.map (·.program.erased) := by
    cbv
  obtain ⟨plain, read, readable, places, depth⟩ :=
    @Source.exists_readable_of_test ⟨"to f——: &.", ""⟩ [10] 2 (by decide +kernel)
  obtain ⟨spaced, read', readable', places', _⟩ :=
    @Source.exists_readable_of_test ⟨"to  f——: &.", ""⟩ [11] 2 (by decide +kernel)
  obtain ⟨given, readGiven, readableGiven, _, deeper⟩ :=
    @Source.exists_readable_of_test ⟨"to f——: &nothing.", ""⟩ [17] 3 (by decide +kernel)
  rw [read, read'] at same
  have apart := (outline_faithful readable readable').1.out 0 2
  have alike := (outline_faithful readable readable').2.out 0 1
  have apartGiven := (outline_faithful readable readableGiven).2.out 0 2
  refine ⟨plain, spaced, given, read, read', readGiven, readable, readable', readableGiven,
    alike.mp (Except.ok.inj same), fun both => ?_, fun both => ?_⟩
  · rw [apart.mpr both, places'] at places
    cases places
  · rw [depths_congr (apartGiven.mpr both), deeper] at depth
    cases depth

end Program

end Marginalia
