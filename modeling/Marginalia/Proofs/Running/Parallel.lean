import Marginalia.Proofs.Running.Alike

/-!
# Runs side by side

Alike programs on alike machines run side by side: they do the same things in the same order, and
both end well or both stop, with alike machines and for alike reasons. The only thing that they may
do differently is where a text is printed. Where it is printed is never looked at again, so the
difference does not spread.

`Likeness.Pages.Parallel` says this of two actions. It is closed under the ways in which actions are
put together, so it holds of evaluation at every depth (`parallel_evaluation`) and of whole programs
(`parallel_interpret`), under any limits. What a fault may be is part of it, see `FaultAlike`.
-/

namespace Marginalia

/-- The lengths of the pages that two runs print on. -/
structure Likeness.Pages (like : Likeness) where
  left : Nat
  right : Nat
  /-- Either both pages have the lines of two calls, or none does. -/
  agree : ∀ {line line' : Int}, like.fits line line' →
    ((Page.place? left line).isSome ↔ (Page.place? right line').isSome)

namespace Likeness.Pages

/-- The same text was printed on lines that fit and that the pages have, or the same was asked. -/
inductive EventAlike {like : Likeness} (pages : like.Pages) : Event → Event → Prop
  | printed {line line' : Int} (text : String) : like.fits line line' →
    (Page.place? pages.left line).isSome = true →
    EventAlike pages (.printed line text) (.printed line' text)
  | asked (text : String) : like.asks → EventAlike pages (.asked text) (.asked text)

/-- The machines have done the same so far, but for the lines of what was printed. -/
structure MachineAlike {like : Likeness} (pages : like.Pages) (left right : Machine) : Prop where
  store : like.StoreAlike left.store right.store
  scope : left.scope = right.scope
  leftPage : left.page.length = pages.left
  rightPage : right.page.length = pages.right
  log : List.Forall₂ pages.EventAlike left.log right.log

/-- The reasons why two runs side by side may stop. -/
inductive FaultAlike {like : Likeness} (pages : like.Pages) : Fault → Fault → Prop
  | run (cause : RunCause) {place place' : Token} : place.erased = place'.erased →
    FaultAlike pages (.run cause place) (.run cause place')
  | tooDeep : FaultAlike pages .tooDeep .tooDeep
  | endless : FaultAlike pages .endless .endless
  | noAnswer : like.asks → FaultAlike pages .noAnswer .noAnswer
  | noSuchLine {line line' : Int} : like.fits line line' →
    Page.place? pages.left line = none → FaultAlike pages .noSuchLine .noSuchLine

variable {α α' β β' : Type}

/-- Both actions have ended well, or both have stopped. -/
inductive ResultAlike {like : Likeness} (pages : like.Pages) (same : α → β → Prop) :
    EStateM.Result Fault Machine α → EStateM.Result Fault Machine β → Prop
  | ok {a : α} {b : β} {left right : Machine} : same a b → pages.MachineAlike left right →
    ResultAlike pages same (.ok a left) (.ok b right)
  | error {fault fault' : Fault} {left right : Machine} : pages.FaultAlike fault fault' →
    pages.MachineAlike left right → ResultAlike pages same (.error fault left) (.error fault' right)

/-- On alike machines the actions run side by side. -/
def Parallel {like : Likeness} (pages : like.Pages) (same : α → β → Prop) (x : Action α)
    (y : Action β) : Prop :=
  ∀ ⦃left right : Machine⦄, pages.MachineAlike left right →
    pages.ResultAlike same (x left) (y right)

/-! ## Putting actions together -/

section Actions

variable {like : Likeness} {pages : like.Pages} {same : α → β → Prop} {also : α' → β' → Prop}

theorem parallel_pure {a : α} {b : β} (alike : same a b) : pages.Parallel same (pure a) (pure b) :=
  fun _ _ machines => .ok alike machines

theorem parallel_throw {fault fault' : Fault} (alike : pages.FaultAlike fault fault') :
    pages.Parallel same (throw fault) (throw fault') :=
  fun _ _ machines => .error alike machines

theorem parallel_bind {x : Action α} {y : Action β} {f : α → Action α'} {g : β → Action β'}
    (first : pages.Parallel same x y)
    (next : ∀ ⦃a b⦄, same a b → pages.Parallel also (f a) (g b)) :
    pages.Parallel also (x >>= f) (y >>= g) := by
  intro left right machines
  have results := first machines
  change pages.ResultAlike also (EStateM.bind x f left) (EStateM.bind y g right)
  unfold EStateM.bind
  generalize x left = xs at results
  generalize y right = ys at results
  cases results with
  | ok alike machines => exact next alike machines
  | error faults machines => exact .error faults machines

theorem parallel_get_bind {f : Machine → Action α} {g : Machine → Action β}
    (next : ∀ ⦃left right⦄, pages.MachineAlike left right →
      pages.ResultAlike same (f left left) (g right right)) :
    pages.Parallel same (get >>= f) (get >>= g) :=
  fun _ _ machines => next machines

theorem parallel_modify {change change' : Machine → Machine}
    (keeps : ∀ ⦃left right⦄, pages.MachineAlike left right →
      pages.MachineAlike (change left) (change' right)) :
    pages.Parallel Eq (modify change) (modify change') :=
  fun _ _ machines => .ok rfl (keeps machines)

theorem parallel_onStore {change change' : Store → Store}
    (keeps : ∀ ⦃left right⦄, like.StoreAlike left right →
      like.StoreAlike (change left) (change' right)) :
    pages.Parallel Eq (Action.onStore change) (Action.onStore change') :=
  parallel_modify fun _ _ machines => { machines with store := keeps machines.store }

theorem parallel_within {x : Action α} {y : Action β} (scope : ScopeId)
    (inside : pages.Parallel same x y) :
    pages.Parallel same (Action.within scope x) (Action.within scope y) := by
  intro left right machines
  have entered : pages.MachineAlike { left with scope } { right with scope } :=
    { machines with scope := rfl }
  have results := inside entered
  unfold Action.within
  generalize x { left with scope } = xs at results
  generalize y { right with scope } = ys at results
  cases results with
  | ok alike after => exact .ok alike { after with scope := machines.scope }
  | error faults after => exact .error faults { after with scope := machines.scope }

theorem parallel_mapM {γ γ' : Type} {rel : γ → γ' → Prop} {f : γ → Action α} {g : γ' → Action α}
    {lefts : List γ} {rights : List γ'}
    (each : ∀ ⦃left right⦄, rel left right → pages.Parallel Eq (f left) (g right))
    (alike : List.Forall₂ rel lefts rights) :
    pages.Parallel Eq (lefts.mapM f) (rights.mapM g) := by
  induction alike with
  | nil => exact parallel_pure rfl
  | cons first _ ih =>
    rw [List.mapM_cons, List.mapM_cons]
    refine parallel_bind (each first) fun a b head => parallel_bind ih fun others others' tail => ?_
    exact parallel_pure (by rw [head, tail])

theorem parallel_consult {query : Store → Except Fault α}
    (agrees : ∀ ⦃left right⦄, like.StoreAlike left right → query right = query left)
    (limit : ∀ store, GivesUpOnly (query store)) :
    pages.Parallel Eq (Action.consult query) (Action.consult query) := by
  intro left right machines
  have answers := agrees machines.store
  cases found : query left.store with
  | ok result =>
    rw [Action.consult_of_ok found, Action.consult_of_ok (answers.trans found)]
    exact .ok rfl machines
  | error fault =>
    obtain rfl := limit _ found
    rw [Action.consult_of_error found, Action.consult_of_error (answers.trans found)]
    exact .error .tooDeep machines

end Actions

/-! ## What actions are made of -/

section Evaluator

variable {like : Likeness} {pages : like.Pages} (limits : Limits)

theorem parallel_checkName (name : String) :
    pages.Parallel Eq (limits.checkName name) (limits.checkName name) := by
  unfold Limits.checkName Limits.checkSpelling
  cases Pattern.read limits.depth name.toList with
  | ok pattern => exact parallel_pure rfl
  | error fault =>
    cases fault with
    | tooDeep => exact parallel_throw .tooDeep
    | malformed => exact parallel_pure rfl

theorem parallel_lookup (name : String) :
    pages.Parallel Eq (limits.lookup name) (limits.lookup name) := by
  refine parallel_bind (parallel_checkName limits name) fun _ _ _ => ?_
  refine parallel_get_bind fun left right machines => .ok ?_ machines
  rw [machines.store.lookup, machines.scope]

theorem parallel_assign (name : String) (value : Value) :
    pages.Parallel Eq (limits.assign name value) (limits.assign name value) := by
  refine parallel_bind (parallel_checkName limits name) fun _ _ _ => ?_
  refine parallel_get_bind fun left right machines => ?_
  rw [machines.scope]
  exact parallel_onStore
    (fun _ _ stores => stores.change (Store.blind_assign right.scope name value)) machines

theorem parallel_direct (name value : String) :
    pages.Parallel Eq (limits.direct name value) (limits.direct name value) := by
  refine parallel_bind (parallel_checkName limits name) fun _ _ _ => ?_
  refine parallel_get_bind fun left right machines => ?_
  rw [machines.scope]
  exact parallel_onStore (fun _ _ stores => stores.direct right.scope name value) machines

theorem parallel_declare {name name' : Token} {params params' : List Token}
    {body body' : List Stmt} (sameName : name.erased = name'.erased)
    (sameParams : params.map Token.erased = params'.map Token.erased)
    (sameBody : Stmt.allBare body = Stmt.allBare body') (rows : like.RowsAlike body body') :
    pages.Parallel Eq (Action.declare name params body) (Action.declare name' params' body') := by
  intro left right machines
  have alike : like.FunctionAlike (.declared name params body left.scope)
      (.declared name' params' body' right.scope) :=
    machines.scope ▸ .declared left.scope sameName sameParams sameBody rows
  obtain ⟨sameValue, stores⟩ := machines.store.newFunction alike
  exact .ok sameValue { machines with store := stores }

theorem parallel_renderAll (arguments : List Value) :
    pages.Parallel Eq (Action.consult (·.renderAll limits.depth arguments))
      (Action.consult (·.renderAll limits.depth arguments)) :=
  parallel_consult (fun _ _ stores => stores.renderAll limits.depth arguments) fun store =>
    store.givesUpOnly_renderAll limits.depth arguments

/-- Both pages have room for a text on lines that fit, or neither has. -/
theorem MachineAlike.print? {left right : Machine} {line line' : Int}
    (machines : pages.MachineAlike left right) (fits : like.fits line line') (text : List Char) :
    (Page.place? pages.left line = none ∧ left.page.print? line text = none ∧
        right.page.print? line' text = none) ∨
      ∃ page page', (Page.place? pages.left line).isSome = true ∧
        left.page.print? line text = some page ∧ right.page.print? line' text = some page' ∧
        page.length = pages.left ∧ page'.length = pages.right := by
  have both := pages.agree fits
  unfold Page.print?
  rw [machines.leftPage, machines.rightPage]
  cases found : Page.place? pages.left line with
  | none =>
    have missing : Page.place? pages.right line' = none := by
      rw [found] at both
      simpa using both
    rw [missing]
    exact .inl ⟨rfl, rfl, rfl⟩
  | some index =>
    rw [found] at both
    obtain ⟨index', there⟩ := Option.isSome_iff_exists.mp (both.mp rfl)
    rw [there]
    refine .inr ⟨_, _, rfl, rfl, rfl, ?_, ?_⟩
    · rw [List.length_modify, machines.leftPage]
    · rw [List.length_modify, machines.rightPage]

theorem parallel_print {line line' : Int} (fits : like.fits line line') (arguments : List Value) :
    pages.Parallel Eq (limits.print line arguments) (limits.print line' arguments) := by
  refine parallel_bind (parallel_renderAll limits arguments) fun text text' sameText => ?_
  subst sameText
  refine parallel_get_bind fun left right machines => ?_
  rcases machines.print? fits text.toList with
    ⟨missing, gone, gone'⟩ | ⟨page, page', there, printed, printed', rows, rows'⟩
  · rw [gone, gone']
    exact .error (.noSuchLine fits missing) machines
  · rw [printed, printed']
    refine .ok rfl { machines with leftPage := rows, rightPage := rows', log := ?_ }
    exact List.rel_append machines.log (.cons (.printed text fits there) .nil)

theorem parallel_ask (asks : like.asks) (dialogue : Nat) (arguments : List Value) :
    pages.Parallel Eq (limits.ask dialogue arguments) (limits.ask dialogue arguments) := by
  refine parallel_bind (parallel_renderAll limits arguments) fun text text' sameText => ?_
  subst sameText
  refine parallel_bind (parallel_modify fun left right machines => ?_) fun _ _ _ => ?_
  · exact { machines with log := List.rel_append machines.log (.cons (.asked _ asks) .nil) }
  refine parallel_get_bind fun left right machines => ?_
  rw [machines.store.dialogues]
  rcases left.store.dialogues.get? dialogue with _ | _ | ⟨answer, rest⟩
  · exact .error (.noAnswer asks) machines
  · exact .error (.noAnswer asks) machines
  · refine parallel_bind (parallel_onStore fun _ _ stores => ?_) (fun _ _ _ => parallel_pure rfl)
      machines
    exact stores.change (Store.blind_answer dialogue)

theorem parallel_bindParams {params params' : List Token}
    (sameParams : params.map Token.erased = params'.map Token.erased) (scope : ScopeId)
    (arguments : List Value) :
    pages.Parallel Eq (limits.bindParams scope params arguments)
      (limits.bindParams scope params' arguments) := by
  induction params generalizing params' arguments with
  | nil =>
    obtain rfl : params' = [] := List.map_eq_nil_iff.mp sameParams.symm
    exact parallel_pure rfl
  | cons param params ih =>
    cases params' with
    | nil => cases sameParams
    | cons param' params' =>
      obtain ⟨first, rest⟩ := List.cons.inj sameParams
      rw [Limits.bindParams, Limits.bindParams, Token.lexeme_of_erased first]
      refine parallel_bind (parallel_checkName limits _) fun _ _ _ => ?_
      refine parallel_bind (parallel_onStore fun _ _ stores => ?_) fun _ _ _ => ih rest _
      exact stores.change (Store.blind_define scope _ _)

/-- What two statements give back side by side. -/
def ReturnedAlike (left right : Option Returned) : Prop :=
  Option.Rel (fun x y => x.keyword.erased = y.keyword.erased ∧ x.value = y.value) left right

/-- Calls of alike functions run beside each other, if their callees stand on lines that fit and
alike bodies do. -/
theorem parallel_callFunction {run run' : List Stmt → Action (Option Returned)}
    {callee callee' : Expr} {function function' : Function}
    (fits : like.fits callee.span.start.line callee'.span.start.line) (arguments : List Value)
    (alike : like.FunctionAlike function function')
    (runs : ∀ ⦃body body'⦄, like.RowsAlike body body' →
      pages.Parallel ReturnedAlike (run body) (run' body')) :
    pages.Parallel Eq (limits.callFunction run callee arguments function)
      (limits.callFunction run' callee' arguments function') := by
  cases alike with
  | printer =>
    exact parallel_bind (parallel_print limits fits arguments) fun _ _ _ => parallel_pure rfl
  | listener dialogue asks => exact parallel_ask limits asks dialogue arguments
  | declared home _ sameParams _ rows =>
    rw [Limits.callFunction, Limits.callFunction]
    refine parallel_get_bind fun left right machines => ?_
    rw [machines.store.scopes]
    refine parallel_bind (parallel_onStore fun _ _ stores => ?_) (fun _ _ _ => ?_) machines
    · exact stores.change (Store.blind_child home)
    refine parallel_bind (parallel_bindParams limits sameParams _ arguments) fun _ _ _ => ?_
    refine parallel_bind (parallel_within _ (runs rows)) fun outcome outcome' returned => ?_
    cases returned with
    | none => exact parallel_pure rfl
    | some both => exact parallel_pure both.2

theorem parallel_rounds {test test' : Action Bool} {body body' : Action (Option Returned)}
    (tests : pages.Parallel Eq test test') (bodies : pages.Parallel ReturnedAlike body body')
    (left : Nat) :
    pages.Parallel ReturnedAlike (rounds test body left) (rounds test' body' left) := by
  induction left with
  | zero => exact parallel_throw .endless
  | succ left ih =>
    refine parallel_bind tests fun holds holds' sameTest => ?_
    subst sameTest
    cases holds with
    | false => exact parallel_pure .none
    | true =>
      refine parallel_bind bodies fun outcome outcome' returned => ?_
      cases returned with
      | none => exact ih
      | some both => exact parallel_pure (.some both)

/-! ## Evaluation -/

/-- Alike expressions and statements of one depth run side by side. -/
structure ParallelLayer {like : Likeness} (pages : like.Pages) (limits : Limits) (depth : Nat) :
    Prop where
  expr : ∀ ⦃left right : Expr⦄, like.ExprAlike left right →
    pages.Parallel Eq (limits.eval depth left) (limits.eval depth right)
  statement : ∀ ⦃left right : Stmt⦄, like.StmtAlike left right →
    pages.Parallel ReturnedAlike (limits.exec depth left) (limits.exec depth right)

variable {limits}

theorem exec_remark (quiet : limits.remarks = false) (depth : Nat) (span : Span) (text : Token) :
    limits.exec depth (.remark span text) = pure none := by
  cases depth with
  | zero =>
    rw [Limits.exec, quiet]
    rfl
  | succ depth => rw [Limits.exec]

namespace ParallelLayer

variable {depth : Nat} (layer : pages.ParallelLayer limits depth)
  (quiet : like.skips → limits.remarks = false)

include layer quiet

theorem rows {lefts rights : List Stmt} (alike : like.RowsAlike lefts rights) :
    pages.Parallel ReturnedAlike (firstReturn (limits.exec depth) lefts)
      (firstReturn (limits.exec depth) rights) := by
  induction alike with
  | nil => exact parallel_pure .none
  | cons first _ ih =>
    refine parallel_bind (layer.statement first) fun outcome outcome' returned => ?_
    cases returned with
    | none => exact ih
    | some both => exact parallel_pure (.some both)
  | skipLeft skips _ ih =>
    rw [firstReturn, exec_remark (quiet skips)]
    exact ih
  | skipRight skips _ ih =>
    rw [firstReturn.eq_2 _ (.remark _ _), exec_remark (quiet skips)]
    exact ih

/-- Alike expressions of one more level run beside each other. -/
theorem expr_succ {left right : Expr} (alike : like.ExprAlike left right) :
    pages.Parallel Eq (limits.eval (depth + 1) left) (limits.eval (depth + 1) right) := by
  cases alike with
  | constant value =>
    rw [Limits.eval, Limits.eval]
    exact parallel_pure rfl
  | name same =>
    rw [Limits.eval, Limits.eval, Token.lexeme_of_erased same]
    exact parallel_lookup limits _
  | negation _ operand =>
    rw [Limits.eval, Limits.eval]
    refine parallel_bind (layer.expr operand) fun value value' same => ?_
    exact parallel_pure (by rw [same])
  | comparison lefts _ rights =>
    rw [Limits.eval, Limits.eval]
    refine parallel_bind (layer.expr lefts) fun x x' sameLeft => ?_
    refine parallel_bind (layer.expr rights) fun y y' sameRight => ?_
    subst sameLeft sameRight
    refine parallel_bind (parallel_consult (fun _ _ stores => stores.equal limits.depth x y)
      fun store => store.givesUpOnly_equal limits.depth x y) fun holds holds' same => ?_
    exact parallel_pure (by rw [same])
  | connective lefts operator rights =>
    rw [Limits.eval, Limits.eval, Token.kind_of_erased operator]
    refine parallel_bind (layer.expr lefts) fun value value' same => ?_
    subst same
    split
    · exact parallel_pure rfl
    · exact layer.expr rights
  | call fits callees marker arguments =>
    rw [Limits.eval, Limits.eval]
    refine parallel_bind (layer.expr callees) fun value value' same => ?_
    refine parallel_bind (parallel_mapM (fun _ _ => @layer.expr _ _) arguments)
      fun values values' sameValues => ?_
    subst same sameValues
    refine parallel_get_bind fun left right machines => ?_
    have found := machines.store.called value
    generalize (left.store.callable? value).bind left.store.functions.get? = function at found
    generalize (right.store.callable? value).bind right.store.functions.get? = function' at found
    cases found with
    | some alike =>
      exact parallel_callFunction limits fits values alike (fun _ _ => layer.rows quiet) machines
    | none =>
      refine parallel_bind (parallel_consult (fun _ _ stores => stores.render limits.depth value)
        fun store => store.givesUpOnly_render limits.depth value) (fun shown shown' same => ?_)
        machines
      subst same
      exact parallel_throw (.run (.notAFunction shown) marker)

/-- Alike statements of one more level run beside each other, with remarks on either side. -/
theorem statement_succ {left right : Stmt} (alike : like.StmtAlike left right) :
    pages.Parallel ReturnedAlike (limits.exec (depth + 1) left)
      (limits.exec (depth + 1) right) := by
  cases alike with
  | expression wrapped exprs =>
    rw [Limits.exec, Limits.exec]
    exact parallel_bind (layer.expr exprs) fun _ _ _ => parallel_pure .none
  | @binding _ _ name name' _ _ names initial =>
    have assigns : ∀ ⦃value value'⦄, value = value' → pages.Parallel ReturnedAlike
        (do limits.assign name.lexeme value; return none)
        (do limits.assign name'.lexeme value'; return none) := by
      rintro value _ rfl
      rw [Token.lexeme_of_erased names]
      exact parallel_bind (parallel_assign limits _ value) fun _ _ _ => parallel_pure .none
    cases initial with
    | none =>
      rw [Limits.exec, Limits.exec]
      exact parallel_bind (parallel_pure rfl) assigns
    | some exprs =>
      rw [Limits.exec, Limits.exec]
      exact parallel_bind (layer.expr exprs) assigns
  | block rows =>
    rw [Limits.exec, Limits.exec]
    refine parallel_get_bind fun left right machines => ?_
    rw [machines.store.scopes, machines.scope]
    refine parallel_bind (parallel_onStore fun _ _ stores => ?_) (fun _ _ _ => ?_) machines
    · exact stores.change (Store.blind_child right.scope)
    · exact parallel_within _ (layer.rows quiet rows)
  | condition tests yes no =>
    cases no with
    | none =>
      rw [Limits.exec, Limits.exec]
      refine parallel_bind (layer.expr tests) fun value value' same => ?_
      subst same
      split
      · exact layer.statement yes
      · exact parallel_pure .none
    | some no =>
      rw [Limits.exec, Limits.exec]
      refine parallel_bind (layer.expr tests) fun value value' same => ?_
      subst same
      split
      · exact layer.statement yes
      · exact layer.statement no
  | loop tests bodies =>
    rw [Limits.exec, Limits.exec]
    refine parallel_rounds ?_ (layer.statement bodies) limits.rounds
    refine parallel_bind (layer.expr tests) fun value value' same => ?_
    exact parallel_pure (by rw [same])
  | giveBack keywords value =>
    cases value with
    | none =>
      rw [Limits.exec, Limits.exec]
      exact parallel_pure (.some ⟨keywords, rfl⟩)
    | some exprs =>
      rw [Limits.exec, Limits.exec]
      refine parallel_bind (layer.expr exprs) fun value value' same => ?_
      exact parallel_pure (.some ⟨keywords, same⟩)
  | function names params bodies rows =>
    rw [Limits.exec, Limits.exec, Token.lexeme_of_erased names]
    refine parallel_bind (parallel_declare names params bodies rows) fun value value' same => ?_
    subst same
    exact parallel_bind (parallel_assign limits _ value) fun _ _ _ => parallel_pure .none
  | directive names values =>
    rw [Limits.exec, Limits.exec, Token.lexeme_of_erased names, Token.lexeme_of_erased values]
    exact parallel_bind (parallel_direct limits _ _) fun _ _ _ => parallel_pure .none
  | remark =>
    rw [Limits.exec, Limits.exec]
    exact parallel_pure .none

end ParallelLayer

theorem parallel_exec_zero {left right : Stmt} (alike : like.StmtAlike left right) :
    pages.Parallel ReturnedAlike (limits.exec 0 left) (limits.exec 0 right) := by
  cases alike with
  | remark =>
    rw [Limits.exec, Limits.exec]
    split
    · exact parallel_throw .tooDeep
    · exact parallel_pure .none
  | _ => exact parallel_throw .tooDeep

/-- Alike expressions and statements run side by side. Where remarks may be skipped, they must not
be counted. -/
theorem parallel_evaluation (quiet : like.skips → limits.remarks = false) (depth : Nat) :
    pages.ParallelLayer limits depth := by
  induction depth with
  | zero => exact ⟨fun _ _ _ => parallel_throw .tooDeep, fun _ _ => parallel_exec_zero⟩
  | succ depth layer =>
    exact ⟨fun _ _ => layer.expr_succ quiet, fun _ _ => layer.statement_succ quiet⟩

/-- Alike programs run side by side. -/
theorem parallel_interpret (quiet : like.skips → limits.remarks = false)
    {program program' : Program} (alike : like.RowsAlike program program') :
    pages.Parallel Eq (limits.interpret program) (limits.interpret program') := by
  have layer : pages.ParallelLayer limits limits.depth := parallel_evaluation quiet limits.depth
  induction alike with
  | nil => exact parallel_pure rfl
  | cons first _ ih =>
    refine parallel_bind (layer.statement first) fun outcome outcome' returned => ?_
    cases returned with
    | none => exact ih
    | some both => exact parallel_throw (.run .returnAtTop both.1)
  | skipLeft skips _ ih =>
    rw [Limits.interpret, exec_remark (quiet skips)]
    exact ih
  | skipRight skips _ ih =>
    rw [Limits.interpret.eq_2 _ (.remark _ _), exec_remark (quiet skips)]
    exact ih

end Evaluator

/-! ## Whole runs -/

/-- Runs that have ended in the same way. -/
structure RunAlike {like : Likeness} (pages : like.Pages) (left right : Run) : Prop where
  fault : Option.Rel pages.FaultAlike left.fault right.fault
  machine : pages.MachineAlike left.machine right.machine

variable {like : Likeness} {pages : like.Pages}

/-- Alike programs on alike machines end in the same way. -/
theorem runAlike_runUnder {limits : Limits} (quiet : like.skips → limits.remarks = false)
    {program program' : Program} (alike : like.RowsAlike program program') {left right : Machine}
    (machines : pages.MachineAlike left right) :
    pages.RunAlike (program.runUnder limits left) (program'.runUnder limits right) := by
  have results := parallel_interpret quiet alike machines
  unfold Program.runUnder
  generalize limits.interpret program left = outcome at results
  generalize limits.interpret program' right = outcome' at results
  cases results with
  | ok _ after => exact ⟨.none, after⟩
  | error faults after => exact ⟨.some faults, after⟩

/-- Machines that begin in alike stores, each with a page of its own text. -/
theorem machineAlike_start {left right : Store} {settings : Settings} {text text' : List Char}
    (stores : like.StoreAlike left right)
    (asks : settings.dialogue.isSome = true → like.asks)
    (leftPage : (splitLines text).length = pages.left)
    (rightPage : (splitLines text').length = pages.right) (scope : ScopeId) :
    pages.MachineAlike (.start left scope settings text) (.start right scope settings text') := by
  have begun : like.StoreAlike { left with settings } { right with settings } := by
    refine ⟨?_, stores.size, stores.functions, asks⟩
    rw [stores.rest]
  refine ⟨begun.installPrinter scope, rfl, ?_, ?_, .nil⟩
  · rw [← leftPage]
    exact List.length_map _
  · rw [← rightPage]
    exact List.length_map _

end Likeness.Pages

end Marginalia
