import Marginalia.Proofs.Program.Moved
import Marginalia.Proofs.Running.Limits
import Mathlib.Data.List.Forall2

/-!
# Alike programs and stores

Two programs may differ in their places and in their remarks and still mean the same. A `Likeness`
says how much they may differ: which lines their calls stand on, and whether remarks may be missing
from one of them. Expressions, statements and functions are alike under it when they differ in
nothing else; nodes of an unknown kind are like nothing. Stores are alike when they differ only in
functions, and those are alike (`StoreAlike`).

A program may also be compared with itself. Then likeness says what it is made of: known nodes, and
calls that stand on certain lines.
-/

namespace Marginalia

/-! ## Programs without places and remarks -/

theorem Token.lexeme_of_erased {token token' : Token} (same : token.erased = token'.erased) :
    token.lexeme = token'.lexeme := by
  have fields := congrArg Token.lexeme same
  exact fields

theorem Token.kind_of_erased {token token' : Token} (same : token.erased = token'.erased) :
    token.kind = token'.kind := by
  have fields := congrArg Token.kind same
  exact fields

namespace Stmt

mutual

/-- The statement without places, and without the remarks inside it. -/
def bare : Stmt → Stmt
  | .block _ statements => .block .nowhere (allBare statements)
  | .condition _ test yes none => .condition .nowhere test.erased yes.bare none
  | .condition _ test yes (some no) => .condition .nowhere test.erased yes.bare (some no.bare)
  | .loop _ test body => .loop .nowhere test.erased body.bare
  | .function _ name params body =>
    .function .nowhere name.erased (params.map Token.erased) (allBare body)
  | statement => statement.erased

/-- The statements without places, and without remarks among or inside them. -/
def allBare : List Stmt → List Stmt
  | [] => []
  | .remark _ _ :: rest => allBare rest
  | statement :: rest => statement.bare :: allBare rest

end

theorem bare_condition (span : Span) (test : Expr) (yes : Stmt) (no : Option Stmt) :
    (condition span test yes no).bare =
      .condition .nowhere test.erased yes.bare (no.map bare) := by
  cases no <;> rfl

theorem remark_or_bare (statement : Stmt) :
    (∃ span text, statement = .remark span text) ∨
      ∀ rest, allBare (statement :: rest) = statement.bare :: allBare rest := by
  cases statement with
  | remark span text => exact .inl ⟨span, text, rfl⟩
  | _ => exact .inr fun _ => rfl

end Stmt

/-- The program without places and remarks. -/
def Program.bare (program : Program) : Program :=
  Stmt.allBare program

/-! ## Likeness -/

/-- How much two programs may differ. -/
structure Likeness where
  /-- The lines that two calls in the same place of the programs may stand on. -/
  fits : Int → Int → Prop
  /-- There may be somebody to ask. -/
  asks : Prop
  /-- One program may have remarks that the other one has not. -/
  skips : Prop

namespace Likeness

/-- Expressions that differ in their places only. -/
inductive ExprAlike (like : Likeness) : Expr → Expr → Prop
  | constant {span span' : Span} (value : Constant) :
    ExprAlike like (.constant span value) (.constant span' value)
  | name {span span' : Span} {token token' : Token} :
    token.erased = token'.erased → ExprAlike like (.name span token) (.name span' token')
  | negation {span span' : Span} {operator operator' : Token} {operand operand' : Expr} :
    operator.erased = operator'.erased → ExprAlike like operand operand' →
    ExprAlike like (.negation span operator operand) (.negation span' operator' operand')
  | comparison {span span' : Span} {left left' : Expr} {operator operator' : Token}
    {right right' : Expr} :
    ExprAlike like left left' → operator.erased = operator'.erased →
    ExprAlike like right right' →
    ExprAlike like (.comparison span left operator right)
      (.comparison span' left' operator' right')
  | connective {span span' : Span} {left left' : Expr} {operator operator' : Token}
    {right right' : Expr} :
    ExprAlike like left left' → operator.erased = operator'.erased →
    ExprAlike like right right' →
    ExprAlike like (.connective span left operator right)
      (.connective span' left' operator' right')
  | call {span span' : Span} {callee callee' : Expr} {marker marker' : Token}
    {arguments arguments' : List Expr} :
    like.fits callee.span.start.line callee'.span.start.line →
    ExprAlike like callee callee' → marker.erased = marker'.erased →
    List.Forall₂ (ExprAlike like) arguments arguments' →
    ExprAlike like (.call span callee marker arguments) (.call span' callee' marker' arguments')

/-- Statements that are alike one by one, but for remarks where these may be skipped. -/
inductive RowsOver (skips : Prop) (alike : Stmt → Stmt → Prop) : List Stmt → List Stmt → Prop
  | nil : RowsOver skips alike [] []
  | cons {left right : Stmt} {lefts rights : List Stmt} :
    alike left right → RowsOver skips alike lefts rights →
    RowsOver skips alike (left :: lefts) (right :: rights)
  | skipLeft {span : Span} {text : Token} {lefts rights : List Stmt} :
    skips → RowsOver skips alike lefts rights →
    RowsOver skips alike (.remark span text :: lefts) rights
  | skipRight {span : Span} {text : Token} {lefts rights : List Stmt} :
    skips → RowsOver skips alike lefts rights →
    RowsOver skips alike lefts (.remark span text :: rights)

/-- Statements that differ in their places and in their remarks only. -/
inductive StmtAlike (like : Likeness) : Stmt → Stmt → Prop
  | expression {span span' : Span} {expr expr' : Expr} (wrapped : Bool) :
    like.ExprAlike expr expr' →
    StmtAlike like (.expression span expr wrapped) (.expression span' expr' wrapped)
  | binding {span span' : Span} {name name' : Token} {initial initial' : Option Expr} :
    name.erased = name'.erased → Option.Rel like.ExprAlike initial initial' →
    StmtAlike like (.binding span name initial) (.binding span' name' initial')
  | block {span span' : Span} {statements statements' : List Stmt} :
    RowsOver like.skips (StmtAlike like) statements statements' →
    StmtAlike like (.block span statements) (.block span' statements')
  | condition {span span' : Span} {test test' : Expr} {yes yes' : Stmt} {no no' : Option Stmt} :
    like.ExprAlike test test' → StmtAlike like yes yes' → Option.Rel (StmtAlike like) no no' →
    StmtAlike like (.condition span test yes no) (.condition span' test' yes' no')
  | loop {span span' : Span} {test test' : Expr} {body body' : Stmt} :
    like.ExprAlike test test' → StmtAlike like body body' →
    StmtAlike like (.loop span test body) (.loop span' test' body')
  | giveBack {span span' : Span} {keyword keyword' : Token} {value value' : Option Expr} :
    keyword.erased = keyword'.erased → Option.Rel like.ExprAlike value value' →
    StmtAlike like (.giveBack span keyword value) (.giveBack span' keyword' value')
  | function {span span' : Span} {name name' : Token} {params params' : List Token}
    {body body' : List Stmt} :
    name.erased = name'.erased → params.map Token.erased = params'.map Token.erased →
    Stmt.allBare body = Stmt.allBare body' →
    RowsOver like.skips (StmtAlike like) body body' →
    StmtAlike like (.function span name params body) (.function span' name' params' body')
  | directive {span span' : Span} {name name' value value' : Token} :
    name.erased = name'.erased → value.erased = value'.erased →
    StmtAlike like (.directive span name value) (.directive span' name' value')
  | remark {span span' : Span} {text text' : Token} :
    StmtAlike like (.remark span text) (.remark span' text')

/-- Statements that differ, one by one, in their places and in their remarks only. -/
abbrev RowsAlike (like : Likeness) : List Stmt → List Stmt → Prop :=
  RowsOver like.skips like.StmtAlike

theorem forall₂_of_rows {like : Likeness} (never : ¬ like.skips) {lefts rights : List Stmt}
    (rows : like.RowsAlike lefts rights) : List.Forall₂ like.StmtAlike lefts rights := by
  induction rows with
  | nil => exact .nil
  | cons first _ ih => exact .cons first ih
  | skipLeft skips _ _ => exact absurd skips never
  | skipRight skips _ _ => exact absurd skips never

/-- Functions that differ in the places and the remarks of their declarations only. -/
inductive FunctionAlike (like : Likeness) : Function → Function → Prop
  | printer : FunctionAlike like .printer .printer
  | listener (dialogue : Nat) : like.asks →
    FunctionAlike like (.listener dialogue) (.listener dialogue)
  | declared {name name' : Token} {params params' : List Token} {body body' : List Stmt}
    (home : ScopeId) :
    name.erased = name'.erased → params.map Token.erased = params'.map Token.erased →
    Stmt.allBare body = Stmt.allBare body' → like.RowsAlike body body' →
    FunctionAlike like (.declared name params body home) (.declared name' params' body' home)

/-- Stores that differ only in functions, and those are alike. -/
structure StoreAlike (like : Likeness) (left right : Store) : Prop where
  rest : right = { left with functions := right.functions }
  size : left.functions.size = right.functions.size
  functions : ∀ address,
    Option.Rel like.FunctionAlike (left.functions.get? address) (right.functions.get? address)
  asks : left.settings.dialogue.isSome = true → like.asks

end Likeness

/-! ## Changes of a store that do not look at functions -/

namespace Store

/-- The change neither looks at the functions of the store nor touches them, and it leaves the
dialogue of the settings alone. -/
structure Blind (change : Store → Store) : Prop where
  functions : ∀ (store : Store) functions,
    change { store with functions } = { change store with functions }
  dialogue : ∀ store, (change store).settings.dialogue = store.settings.dialogue

theorem blind_child (scope : ScopeId) : Blind (·.child scope) :=
  ⟨fun _ _ => rfl, fun _ => rfl⟩

theorem blind_overwrite (slot : Slot) (value : Value) : Blind (·.overwrite slot value) := by
  refine ⟨fun store functions => ?_, fun store => ?_⟩
  · have same : { store with functions }.binding? slot = store.binding? slot := rfl
    unfold overwrite
    rw [same]
    cases store.binding? slot with
    | none => rfl
    | some binding =>
      dsimp only
      split
      · split <;> rfl
      · rfl
  · unfold overwrite
    split
    · rfl
    split
    · split <;> rfl
    · rfl

theorem blind_bindNew (scope : ScopeId) (name : String) (value : Value) :
    Blind (·.bindNew scope name value) := by
  refine ⟨fun store functions => ?_, fun store => ?_⟩
  · unfold bindNew
    dsimp only
    split <;> rfl
  · unfold bindNew
    split <;> rfl

theorem blind_define (scope : ScopeId) (name : String) (value : Value) :
    Blind (·.define scope name value) := by
  refine ⟨fun store functions => ?_, fun store => ?_⟩
  · have same : { store with functions }.find? scope name = store.find? scope name := rfl
    unfold define
    rw [same]
    cases store.find? scope name with
    | none => exact (blind_bindNew scope name value).functions store functions
    | some slot => exact (blind_overwrite slot value).functions store functions
  · unfold define
    split
    · exact (blind_overwrite _ value).dialogue store
    · exact (blind_bindNew scope name value).dialogue store

theorem blind_assign (scope : ScopeId) (name : String) (value : Value) :
    Blind (·.assign scope name value) := by
  refine ⟨fun store functions => ?_, fun store => ?_⟩
  · have same : { store with functions }.resolve? scope name = store.resolve? scope name := rfl
    unfold assign
    rw [same]
    cases store.resolve? scope name with
    | none => exact (blind_bindNew scope name value).functions store functions
    | some slot => exact (blind_overwrite slot value).functions store functions
  · unfold assign
    split
    · exact (blind_overwrite _ value).dialogue store
    · exact (blind_bindNew scope name value).dialogue store

theorem blind_assignAll (scope : ScopeId) (names : List String) (value : Value) :
    Blind (·.assignAll scope names value) := by
  unfold assignAll
  induction names with
  | nil => exact ⟨fun _ _ => rfl, fun _ => rfl⟩
  | cons name names ih =>
    have first := blind_assign scope name value
    refine ⟨fun store functions => ?_, fun store => ?_⟩
    · rw [List.foldl_cons, first.functions store functions]
      exact ih.functions _ functions
    · rw [List.foldl_cons, ih.dialogue]
      exact first.dialogue store

theorem blind_answer (dialogue : Nat) :
    Blind fun store => { store with dialogues := store.dialogues.update dialogue List.tail } :=
  ⟨fun _ _ => rfl, fun _ => rfl⟩

end Store

/-! ## Alike stores -/

namespace Likeness.StoreAlike

variable {like : Likeness} {left right : Store}

theorem change {change : Store → Store} (blind : Store.Blind change)
    (alike : like.StoreAlike left right) : like.StoreAlike (change left) (change right) := by
  have leftSame : (change left).functions = left.functions :=
    (congrArg Store.functions (blind.functions left left.functions)).trans rfl
  have rightSame : (change right).functions = right.functions :=
    (congrArg Store.functions (blind.functions right right.functions)).trans rfl
  refine ⟨?_, ?_, ?_, ?_⟩
  · rw [rightSame, ← blind.functions left right.functions, ← alike.rest]
  · rw [leftSame, rightSame]
    exact alike.size
  · rw [leftSame, rightSame]
    exact alike.functions
  · rw [blind.dialogue]
    exact alike.asks

theorem newFunction {function function' : Function} (alike : like.StoreAlike left right)
    (same : like.FunctionAlike function function') :
    (left.newFunction function).1 = (right.newFunction function').1 ∧
      like.StoreAlike (left.newFunction function).2 (right.newFunction function').2 := by
  refine ⟨congrArg Value.function alike.size, ?_, ?_, fun address => ?_, alike.asks⟩
  · have rest := alike.rest
    rw [Store.newFunction, Store.newFunction, rest]
  · change (left.functions.alloc function).size = (right.functions.alloc function').size
    rw [Heap.size_alloc, Heap.size_alloc, alike.size]
  · change Option.Rel _ ((left.functions.alloc function).get? address)
      ((right.functions.alloc function').get? address)
    rw [Heap.get?_alloc, Heap.get?_alloc, alike.size]
    split
    · exact .some same
    · exact alike.functions address

theorem settings (alike : like.StoreAlike left right) : right.settings = left.settings := by
  rw [alike.rest]

theorem scopes (alike : like.StoreAlike left right) : right.scopes = left.scopes := by
  rw [alike.rest]

theorem dialogues (alike : like.StoreAlike left right) : right.dialogues = left.dialogues := by
  rw [alike.rest]

theorem lists (alike : like.StoreAlike left right) : right.lists = left.lists := by
  rw [alike.rest]

/-- Alike functions are installed under the same names. -/
theorem install {function function' : Function} (alike : like.StoreAlike left right)
    (same : like.FunctionAlike function function') (scope : ScopeId) (names : List String) :
    like.StoreAlike
      ((left.newFunction function).2.assignAll scope names (left.newFunction function).1)
      ((right.newFunction function').2.assignAll scope names (right.newFunction function').1) := by
  obtain ⟨sameValue, stores⟩ := alike.newFunction same
  rw [← sameValue]
  exact stores.change (Store.blind_assignAll scope names _)

theorem installPrinter (alike : like.StoreAlike left right) (scope : ScopeId) :
    like.StoreAlike (left.installPrinter scope) (right.installPrinter scope) :=
  alike.install .printer scope printerNames

theorem installListener (alike : like.StoreAlike left right) (scope : ScopeId) :
    like.StoreAlike (left.installListener scope) (right.installListener scope) := by
  unfold Store.installListener
  rw [alike.settings]
  cases found : left.settings.dialogue with
  | none => exact alike
  | some dialogue =>
    have asks := alike.asks (by rw [found]; rfl)
    exact alike.install (.listener dialogue asks) scope Store.listenerNames

theorem direct (alike : like.StoreAlike left right) (scope : ScopeId) (name value : String) :
    like.StoreAlike (left.direct scope name value) (right.direct scope name value) := by
  unfold Store.direct
  split
  · refine ⟨?_, alike.size, alike.functions, alike.asks⟩
    have rest := alike.rest
    rw [rest]
  split
  · exact alike.installListener scope
  · exact alike.change (Store.blind_assign scope name (.text value))

theorem lookup (alike : like.StoreAlike left right) (scope : ScopeId) (name : String) :
    right.lookup scope name = left.lookup scope name := by
  rw [alike.rest]
  rfl

/-- What a value calls in alike stores is alike. -/
theorem called (alike : like.StoreAlike left right) (value : Value) :
    Option.Rel like.FunctionAlike ((left.callable? value).bind left.functions.get?)
      ((right.callable? value).bind right.functions.get?) := by
  have same : right.callable? value = left.callable? value := by
    rw [alike.rest]
    rfl
  rw [same]
  cases left.callable? value with
  | none => exact .none
  | some address => exact alike.functions address

/-! ## Rendering and comparing -/

theorem functionText {function function' : Function}
    (alike : like.FunctionAlike function function') :
    Store.functionText function' = Store.functionText function := by
  cases alike with
  | printer => rfl
  | listener dialogue _ => rfl
  | @declared name name' _ _ _ _ _ sameName _ _ _ =>
    rw [Store.functionText, Store.functionText, Token.lexeme_of_erased sameName]

theorem elim_functionText {function function' : Option Function}
    (alike : Option.Rel like.FunctionAlike function function') :
    function'.elim "" Store.functionText = function.elim "" Store.functionText := by
  cases alike with
  | none => rfl
  | some same => exact functionText same

theorem items (alike : like.StoreAlike left right) (list : Nat) :
    right.items list = left.items list := by
  rw [Store.items, Store.items, alike.lists]

theorem render (alike : like.StoreAlike left right) (depth : Nat) (value : Value) :
    right.render depth value = left.render depth value := by
  induction depth generalizing value with
  | zero =>
    cases value with
    | function address => exact congrArg Except.ok (elim_functionText (alike.functions address))
    | _ => rfl
  | succ depth ih =>
    cases value with
    | function address => exact congrArg Except.ok (elim_functionText (alike.functions address))
    | layers list => rw [Store.render, Store.render, alike.items, funext ih]
    | _ => rfl

theorem renderAll (alike : like.StoreAlike left right) (depth : Nat) (values : List Value) :
    right.renderAll depth values = left.renderAll depth values := by
  rw [Store.renderAll, Store.renderAll, funext (alike.render depth)]

theorem equal (alike : like.StoreAlike left right) (depth : Nat) (x y : Value) :
    right.equal depth x y = left.equal depth x y := by
  induction depth generalizing x y with
  | zero =>
    cases x with
    | layers list => cases y <;> rfl
    | _ => rfl
  | succ depth ih =>
    cases x with
    | layers list =>
      cases y with
      | layers list' => simp only [Store.equal, alike.items, ih]
      | _ => rfl
    | _ => rfl

end Likeness.StoreAlike

end Marginalia
