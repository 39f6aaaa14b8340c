import Marginalia.Proofs.Reading.Limit
import Marginalia.Proofs.Running.Meets
import Marginalia.Proofs.Store.Rendering
import Marginalia.Source

/-!
# Runs under other limits

Raising the limits of a run changes nothing, unless it has stopped at them
(`Source.runUnder_of_le`). So a run that ends in another way has ended for good, and a run that does
not end is one that stops at its limits whatever they are.
-/

namespace Marginalia

/-- The fault says that a limit was reached. -/
def Fault.isLimit : Fault → Bool
  | .tooDeep | .endless => true
  | _ => false

/-- The second limits are no lower than the first. -/
structure Limits.Le (limits more : Limits) : Prop where
  depth : limits.depth ≤ more.depth
  rounds : limits.rounds ≤ more.rounds
  remarks : more.remarks = true → limits.remarks = true

namespace Action

variable {α β : Type}

/-- Unless the second action stops at a limit, the first one does the same. -/
def Outlasts (x y : Action α) : Prop :=
  ∀ machine, (∃ fault last, y machine = .error fault last ∧ fault.isLimit = true) ∨
    y machine = x machine

theorem outlasts_refl (x : Action α) : Outlasts x x :=
  fun _ => .inr rfl

theorem outlasts_tooDeep (x : Action α) : Outlasts x (throw .tooDeep) :=
  fun machine => .inl ⟨.tooDeep, machine, rfl, rfl⟩

theorem outlasts_bind {x y : Action α} {f g : α → Action β} (first : Outlasts x y)
    (next : ∀ a, Outlasts (f a) (g a)) : Outlasts (x >>= f) (y >>= g) := by
  intro machine
  rcases first machine with ⟨fault, last, stopped, limit⟩ | same
  · exact .inl ⟨fault, last, bind_of_error stopped, limit⟩
  · cases run : y machine with
    | error fault last =>
      rw [bind_of_error run, bind_of_error (same.symm.trans run)]
      exact .inr rfl
    | ok a middle =>
      rw [bind_of_ok run, bind_of_ok (same.symm.trans run)]
      exact next a middle

theorem outlasts_ite {p : Prop} [Decidable p] {x x' y y' : Action α} (yes : Outlasts x y)
    (no : Outlasts x' y') : Outlasts (if p then x else x') (if p then y else y') := by
  by_cases holds : p
  · rw [if_pos holds, if_pos holds]
    exact yes
  · rw [if_neg holds, if_neg holds]
    exact no

theorem outlasts_within {x y : Action α} (scope : ScopeId) (outlasts : Outlasts x y) :
    Outlasts (within scope x) (within scope y) := by
  intro machine
  rcases outlasts { machine with scope } with ⟨fault, last, stopped, limit⟩ | same
  · refine .inl ⟨fault, { last with scope := machine.scope }, ?_, limit⟩
    rw [within, stopped]
  · rw [within, within, same]
    exact .inr rfl

theorem outlasts_mapM {f g : α → Action β} (each : ∀ a, Outlasts (f a) (g a)) (items : List α) :
    Outlasts (items.mapM f) (items.mapM g) := by
  induction items with
  | nil => exact outlasts_refl _
  | cons item items ih =>
    rw [List.mapM_cons, List.mapM_cons]
    exact outlasts_bind (each item) fun _ => outlasts_bind ih fun _ => outlasts_refl _

theorem outlasts_consult {query query' : Store → Except Fault α}
    (same : ∀ store, SameUnless .tooDeep (query store) (query' store)) :
    Outlasts (consult query) (consult query') := by
  intro machine
  rcases same machine.store with gone | same
  · exact .inl ⟨.tooDeep, machine, consult_of_error gone, rfl⟩
  · refine .inr ?_
    cases found : query machine.store with
    | error fault => rw [consult_of_error found, consult_of_error (same.trans found)]
    | ok result => rw [consult_of_ok found, consult_of_ok (same.trans found)]

theorem outlasts_firstReturn {run run' : Stmt → Action (Option Returned)}
    (each : ∀ statement, Outlasts (run statement) (run' statement)) (statements : List Stmt) :
    Outlasts (firstReturn run statements) (firstReturn run' statements) := by
  induction statements with
  | nil => exact outlasts_refl _
  | cons statement rest ih =>
    refine outlasts_bind (each statement) fun outcome => ?_
    cases outcome with
    | some returned => exact outlasts_refl _
    | none => exact ih

theorem outlasts_rounds {test test' : Action Bool} {body body' : Action (Option Returned)}
    {left more : Nat} (testOutlasts : Outlasts test test') (bodyOutlasts : Outlasts body body')
    (le : left ≤ more) : Outlasts (rounds test body more) (rounds test' body' left) := by
  induction left generalizing more with
  | zero => exact fun machine => .inl ⟨.endless, machine, rfl, rfl⟩
  | succ left ih =>
    obtain ⟨more, rfl⟩ : ∃ less, more = less + 1 := ⟨more - 1, by omega⟩
    refine outlasts_bind testOutlasts fun holds => outlasts_ite ?_ (outlasts_refl _)
    refine outlasts_bind bodyOutlasts fun outcome => ?_
    cases outcome with
    | some returned => exact outlasts_refl _
    | none => exact ih (Nat.le_of_succ_le_succ le)

end Action

namespace Limits

open Marginalia.Action

variable {limits more : Limits} (le : limits.Le more)

include le

theorem outlasts_checkName (name : String) :
    Outlasts (more.checkName name) (limits.checkName name) := by
  unfold checkName checkSpelling
  rcases Pattern.sameUnless_read le.depth name.toList with gone | same
  · rw [gone]
    exact outlasts_tooDeep _
  · rw [same]
    exact outlasts_refl _

theorem outlasts_lookup (name : String) : Outlasts (more.lookup name) (limits.lookup name) :=
  outlasts_bind (outlasts_checkName le name) fun _ => outlasts_refl _

theorem outlasts_assign (name : String) (value : Value) :
    Outlasts (more.assign name value) (limits.assign name value) :=
  outlasts_bind (outlasts_checkName le name) fun _ => outlasts_refl _

theorem outlasts_direct (name value : String) :
    Outlasts (more.direct name value) (limits.direct name value) :=
  outlasts_bind (outlasts_checkName le name) fun _ => outlasts_refl _

theorem outlasts_bindParams (scope : ScopeId) (params : List Token) (arguments : List Value) :
    Outlasts (more.bindParams scope params arguments)
      (limits.bindParams scope params arguments) := by
  induction params generalizing arguments with
  | nil => exact outlasts_refl _
  | cons param params ih =>
    rw [bindParams, bindParams]
    refine outlasts_bind (outlasts_checkName le _) fun _ => ?_
    exact outlasts_bind (outlasts_refl _) fun _ => ih _

theorem outlasts_callFunction {run run' : List Stmt → Action (Option Returned)}
    (runs : ∀ body, Outlasts (run body) (run' body)) (callee : Expr) (arguments : List Value)
    (function : Function) :
    Outlasts (more.callFunction run callee arguments function)
      (limits.callFunction run' callee arguments function) := by
  have rendered := fun store : Store => store.sameUnless_renderAll le.depth arguments
  cases function with
  | printer =>
    refine outlasts_bind ?_ fun _ => outlasts_refl _
    exact outlasts_bind (outlasts_consult rendered) fun _ => outlasts_refl _
  | listener dialogue => exact outlasts_bind (outlasts_consult rendered) fun _ => outlasts_refl _
  | declared name params body home =>
    refine outlasts_bind (outlasts_refl _) fun machine => ?_
    refine outlasts_bind (outlasts_refl _) fun _ => ?_
    refine outlasts_bind (outlasts_bindParams le _ _ _) fun _ => ?_
    exact outlasts_bind (outlasts_within _ (runs body)) fun _ => outlasts_refl _

section Layer

variable {depth deeper : Nat}
  (evalOutlasts : ∀ expr, Outlasts (more.eval deeper expr) (limits.eval depth expr))
  (execOutlasts : ∀ statement, Outlasts (more.exec deeper statement) (limits.exec depth statement))

include evalOutlasts execOutlasts

/-- An expression of one more level comes to the same under higher limits, or a limit stops it. -/
theorem outlasts_eval_succ (expr : Expr) :
    Outlasts (more.eval (deeper + 1) expr) (limits.eval (depth + 1) expr) := by
  cases expr with
  | constant span value =>
    rw [eval, eval]
    exact outlasts_refl _
  | name span token =>
    rw [eval, eval]
    exact outlasts_lookup le _
  | negation span operator operand =>
    rw [eval, eval]
    exact outlasts_bind (evalOutlasts operand) fun _ => outlasts_refl _
  | comparison span left operator right =>
    rw [eval, eval]
    refine outlasts_bind (evalOutlasts left) fun _ => ?_
    refine outlasts_bind (evalOutlasts right) fun _ => ?_
    refine outlasts_bind (outlasts_consult fun store => ?_) fun _ => outlasts_refl _
    exact store.sameUnless_equal le.depth _ _
  | connective span left operator right =>
    rw [eval, eval]
    refine outlasts_bind (evalOutlasts left) fun _ => ?_
    exact outlasts_ite (outlasts_refl _) (evalOutlasts right)
  | call span callee marker arguments =>
    rw [eval, eval]
    refine outlasts_bind (evalOutlasts callee) fun value => ?_
    refine outlasts_bind (outlasts_mapM evalOutlasts arguments) fun values => ?_
    refine outlasts_bind (outlasts_refl _) fun machine => ?_
    dsimp only
    split
    · exact outlasts_callFunction le (outlasts_firstReturn execOutlasts) callee values _
    · refine outlasts_bind (outlasts_consult fun store => ?_) fun _ => outlasts_refl _
      exact store.sameUnless_render le.depth _
  | unknown span kind view =>
    rw [eval, eval]
    exact outlasts_refl _

/-- So does a statement of one more level. -/
theorem outlasts_exec_succ (statement : Stmt) :
    Outlasts (more.exec (deeper + 1) statement) (limits.exec (depth + 1) statement) := by
  cases statement with
  | expression span expr wrapped =>
    rw [exec, exec]
    exact outlasts_bind (evalOutlasts expr) fun _ => outlasts_refl _
  | binding span name initial =>
    have assigns := fun value : Value =>
      outlasts_bind (outlasts_assign le name.lexeme value) fun _ =>
        outlasts_refl (pure (none : Option Returned))
    cases initial with
    | none =>
      rw [exec, exec]
      exact outlasts_bind (outlasts_refl _) assigns
    | some expr =>
      rw [exec, exec]
      exact outlasts_bind (evalOutlasts expr) assigns
  | block span inside =>
    rw [exec, exec]
    refine outlasts_bind (outlasts_refl _) fun machine => ?_
    refine outlasts_bind (outlasts_refl _) fun _ => ?_
    exact outlasts_within _ (outlasts_firstReturn execOutlasts inside)
  | condition span test yes no =>
    cases no with
    | none =>
      rw [exec, exec]
      exact outlasts_bind (evalOutlasts test) fun _ =>
        outlasts_ite (execOutlasts yes) (outlasts_refl _)
    | some no =>
      rw [exec, exec]
      exact outlasts_bind (evalOutlasts test) fun _ =>
        outlasts_ite (execOutlasts yes) (execOutlasts no)
  | loop span test body =>
    rw [exec, exec]
    refine outlasts_rounds ?_ (execOutlasts body) le.rounds
    exact outlasts_bind (evalOutlasts test) fun _ => outlasts_refl _
  | giveBack span keyword value =>
    cases value with
    | none =>
      rw [exec, exec]
      exact outlasts_refl _
    | some expr =>
      rw [exec, exec]
      exact outlasts_bind (evalOutlasts expr) fun _ => outlasts_refl _
  | function span name params body =>
    rw [exec, exec]
    refine outlasts_bind (outlasts_refl _) fun _ => ?_
    exact outlasts_bind (outlasts_assign le _ _) fun _ => outlasts_refl _
  | directive span name value =>
    rw [exec, exec]
    exact outlasts_bind (outlasts_direct le _ _) fun _ => outlasts_refl _
  | remark span text =>
    rw [exec, exec]
    exact outlasts_refl _
  | unknown span kind view =>
    rw [exec, exec]
    exact outlasts_refl _

end Layer

/-- At the lowest level a limit stops every statement but a remark, and that does nothing. -/
theorem outlasts_exec_zero (deeper : Nat) (statement : Stmt) :
    Outlasts (more.exec deeper statement) (limits.exec 0 statement) := by
  cases statement with
  | remark span text =>
    cases counted : limits.remarks with
    | true =>
      rw [exec.eq_1 limits, counted]
      exact outlasts_tooDeep _
    | false =>
      have uncounted : more.remarks = false := by
        rw [← Bool.not_eq_true]
        exact fun holds => absurd (le.remarks holds) (by rw [counted]; decide)
      have passes : more.exec deeper (.remark span text) = pure none := by
        cases deeper with
        | zero =>
          rw [exec, uncounted]
          rfl
        | succ deeper => rw [exec]
      rw [passes, exec, counted]
      exact outlasts_refl _
  | _ => exact outlasts_tooDeep _

theorem outlasts_eval_exec {depth deeper : Nat} (depthLe : depth ≤ deeper) :
    (∀ expr, Outlasts (more.eval deeper expr) (limits.eval depth expr)) ∧
      ∀ statement, Outlasts (more.exec deeper statement) (limits.exec depth statement) := by
  induction depth generalizing deeper with
  | zero => exact ⟨fun _ => outlasts_tooDeep _, outlasts_exec_zero le deeper⟩
  | succ depth ih =>
    obtain ⟨deeper, rfl⟩ : ∃ less, deeper = less + 1 := ⟨deeper - 1, by omega⟩
    obtain ⟨evalOutlasts, execOutlasts⟩ := ih (Nat.le_of_succ_le_succ depthLe)
    exact ⟨outlasts_eval_succ le evalOutlasts execOutlasts,
      outlasts_exec_succ le evalOutlasts execOutlasts⟩

theorem outlasts_interpret (program : Program) :
    Outlasts (more.interpret program) (limits.interpret program) := by
  induction program with
  | nil => exact outlasts_refl _
  | cons statement rest ih =>
    refine outlasts_bind ((outlasts_eval_exec le le.depth).2 statement) fun outcome => ?_
    cases outcome with
    | some returned => exact outlasts_refl _
    | none => exact ih

end Limits

/-- The run stopped at a limit. -/
def Run.stoppedAtLimit (run : Run) : Bool :=
  run.fault.any Fault.isLimit

/-- Raising the limits changes no run of a program but one that has stopped at them. -/
theorem Program.runUnder_of_le {limits more : Limits} (le : limits.Le more) (program : Program)
    (machine : Machine) :
    (program.runUnder limits machine).stoppedAtLimit = true ∨
      program.runUnder limits machine = program.runUnder more machine := by
  rw [runUnder, runUnder]
  rcases Limits.outlasts_interpret le program machine with ⟨fault, last, stopped, limit⟩ | same
  · rw [stopped]
    exact .inl limit
  · rw [same]
    exact .inr rfl

namespace Source

variable {limits more : Limits}

theorem parseUnder_of_le (le : limits.Le more) (source : Source) :
    SameUnless .tooDeep (source.parseUnder more) (source.parseUnder limits) :=
  sameUnless_bind (sameUnless_refl _) fun tokens =>
    sameUnless_bind (Program.parseWithin_of_le le.depth tokens) fun _ => sameUnless_refl _

/-- The source was too deep to be read, or its run stopped at a limit. -/
def AtLimit : Except Fault (Parsed × Run) → Prop
  | .error fault => fault = .tooDeep
  | .ok (_, run) => run.stoppedAtLimit = true

/-- Raising the limits changes nothing but what has stopped at them. -/
theorem runInUnder_of_le (le : limits.Le more) (source : Source) (store : Store) (scope : ScopeId)
    (answers : Option (List String)) :
    AtLimit (source.runInUnder limits store scope answers) ∨
      source.runInUnder limits store scope answers =
        source.runInUnder more store scope answers := by
  unfold runInUnder
  rcases parseUnder_of_le le source with gone | same
  · rw [gone]
    exact .inl rfl
  · rw [same]
    cases source.parseUnder more with
    | error fault => exact .inr rfl
    | ok parsed =>
      rcases Program.runUnder_of_le le parsed.program
        (source.openedIn store scope answers) with limit | same
      · exact .inl limit
      · refine .inr ?_
        change Except.ok (parsed, _) = Except.ok (parsed, _)
        rw [same]

theorem runUnder_of_le (le : limits.Le more) (source : Source) (answers : Option (List String)) :
    AtLimit (source.runUnder limits answers) ∨
      source.runUnder limits answers = source.runUnder more answers :=
  runInUnder_of_le le source .fresh Store.root answers

end Source

end Marginalia
