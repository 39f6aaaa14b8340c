import Mathlib
import Marginalia.Proofs.Running.Outcomes

/-!
# Places and remarks do not change what a program means

Two programs that are equal without places and remarks (`Program.bare`) are alike, if each of them
was read from a text (`Likeness.rowsAlike_of_bare`). So they run side by side, under any limits that
do not count remarks: they ask the same, print the same texts, stop for the same reason and leave
the same bindings (`Run.Agrees`).

The limits of a machine do count remarks, so a remark can be the one statement that is too deep.
But a run that stops at no limit is the same when remarks are not counted, and so two runs that stop
at no limit agree (`Source.run_agrees`).
-/

namespace Marginalia

namespace Likeness

/-- Two programs with calls on the lines of their own texts; remarks are free. -/
def between (leftRows rightRows : Nat) (asks : Prop) : Likeness where
  fits line line' := (1 ≤ line ∧ line ≤ leftRows) ∧ 1 ≤ line' ∧ line' ≤ rightRows
  asks := asks
  skips := True

/-- The pages of two programs that print on the lines of their own texts. -/
def twoPages (leftRows rightRows : Nat) (asks : Prop) :
    (between leftRows rightRows asks).Pages where
  left := leftRows
  right := rightRows
  agree := by
    rintro line line' ⟨⟨first, last⟩, first', last'⟩
    exact iff_of_true ((Page.isSome_place?_iff first).mpr last)
      ((Page.isSome_place?_iff first').mpr last')

section Alike

variable {leftRows rightRows : Nat} {asks leftAsks rightAsks : Prop}

mutual

/-- Expressions that are equal without places are alike from source to source, if each is alike to
itself. -/
theorem exprAlike_of_erased {left right : Expr}
    (lefts : (itself leftRows leftAsks).ExprAlike left left)
    (rights : (itself rightRows rightAsks).ExprAlike right right)
    (same : left.erased = right.erased) :
    (between leftRows rightRows asks).ExprAlike left right := by
  cases left with
  | constant span value =>
    cases right with
    | constant span' value' =>
      cases same
      exact .constant value
    | _ => cases same
  | name span token =>
    cases right with
    | name span' token' => exact .name (Expr.name.inj same).2
    | _ => cases same
  | negation span operator operand =>
    cases right with
    | negation span' operator' operand' =>
      obtain ⟨_, operators, operands⟩ := Expr.negation.inj same
      cases lefts with
      | negation _ left =>
      cases rights with
      | negation _ right => exact .negation operators (exprAlike_of_erased left right operands)
    | _ => cases same
  | comparison span x operator y =>
    cases right with
    | comparison span' x' operator' y' =>
      obtain ⟨_, xs, operators, ys⟩ := Expr.comparison.inj same
      cases lefts with
      | comparison left _ right =>
      cases rights with
      | comparison left' _ right' =>
        exact .comparison (exprAlike_of_erased left left' xs) operators
          (exprAlike_of_erased right right' ys)
    | _ => cases same
  | connective span x operator y =>
    cases right with
    | connective span' x' operator' y' =>
      obtain ⟨_, xs, operators, ys⟩ := Expr.connective.inj same
      cases lefts with
      | connective left _ right =>
      cases rights with
      | connective left' _ right' =>
        exact .connective (exprAlike_of_erased left left' xs) operators
          (exprAlike_of_erased right right' ys)
    | _ => cases same
  | call span callee marker arguments =>
    cases right with
    | call span' callee' marker' arguments' =>
      obtain ⟨_, callees, markers, items⟩ := Expr.call.inj same
      cases lefts with
      | call fits left _ each =>
      cases rights with
      | call fits' left' _ each' =>
        exact .call ⟨fits.2, fits'.2⟩ (exprAlike_of_erased left left' callees) markers
          (exprsAlike_of_erased (List.forall₂_same.mp each) (List.forall₂_same.mp each') items)
    | _ => cases same
  | unknown span kind view => cases lefts

theorem exprsAlike_of_erased {lefts rights : List Expr}
    (left : ∀ expr ∈ lefts, (itself leftRows leftAsks).ExprAlike expr expr)
    (right : ∀ expr ∈ rights, (itself rightRows rightAsks).ExprAlike expr expr)
    (same : Expr.allMoved (fun _ => .nowhere) lefts = Expr.allMoved (fun _ => .nowhere) rights) :
    List.Forall₂ (between leftRows rightRows asks).ExprAlike lefts rights := by
  cases lefts with
  | nil =>
    cases rights with
    | nil => exact .nil
    | cons expr rest => cases same
  | cons expr rest =>
    cases rights with
    | nil => cases same
    | cons expr' rest' =>
      obtain ⟨first, others⟩ := List.cons.inj same
      rw [List.forall_mem_cons] at left right
      exact .cons (exprAlike_of_erased left.1 right.1 first)
        (exprsAlike_of_erased left.2 right.2 others)

end

theorem initialsAlike_of_erased {left right : Option Expr}
    (lefts : Option.Rel (itself leftRows leftAsks).ExprAlike left left)
    (rights : Option.Rel (itself rightRows rightAsks).ExprAlike right right)
    (same : left.map Expr.erased = right.map Expr.erased) :
    Option.Rel (between leftRows rightRows asks).ExprAlike left right := by
  cases left with
  | none =>
    cases right with
    | none => exact .none
    | some expr => cases same
  | some expr =>
    cases right with
    | none => cases same
    | some expr' =>
      cases lefts with
      | some left =>
      cases rights with
      | some right => exact .some (exprAlike_of_erased left right (Option.some.inj same))

theorem forall_stmtAlike_of_rows {most : Nat} {statements : List Stmt}
    (rows : (itself most asks).RowsAlike statements statements) :
    ∀ statement ∈ statements, (itself most asks).StmtAlike statement statement :=
  List.forall₂_same.mp (forall₂_of_rows id rows)

/-- Statements without which nothing but remarks is left are remarks up to the first other one. -/
theorem exists_of_allBare_eq_cons {statements others : List Stmt} {first : Stmt}
    (bare : Stmt.allBare statements = first :: others) :
    ∃ remarks statement rest, statements = remarks ++ statement :: rest ∧
      Stmt.allBare remarks = [] ∧ statement.bare = first ∧ Stmt.allBare rest = others := by
  induction statements with
  | nil => cases bare
  | cons statement rest ih =>
    cases statement with
    | remark span text =>
      obtain ⟨remarks, found, behind, rfl, none, same, also⟩ := ih bare
      exact ⟨.remark span text :: remarks, found, behind, rfl, none, same, also⟩
    | _ =>
      obtain ⟨same, also⟩ := List.cons.inj bare
      exact ⟨[], _, rest, rfl, rfl, same, also⟩

theorem rowsAlike_remarks {remarks lefts rights : List Stmt} (none : Stmt.allBare remarks = [])
    (rows : (between leftRows rightRows asks).RowsAlike lefts rights) :
    (between leftRows rightRows asks).RowsAlike lefts (remarks ++ rights) := by
  induction remarks with
  | nil => exact rows
  | cons statement rest ih =>
    cases statement with
    | remark span text => exact .skipRight trivial (ih none)
    | _ => cases none

mutual

/-- Statements that are equal without places and remarks are alike from source to source, if each is
alike to itself. The one may have a branch or a body with remarks that the other has not, so their
rows are compared past all remarks. -/
theorem stmtAlike_of_bare {left right : Stmt}
    (lefts : (itself leftRows leftAsks).StmtAlike left left)
    (rights : (itself rightRows rightAsks).StmtAlike right right) (same : left.bare = right.bare) :
    (between leftRows rightRows asks).StmtAlike left right := by
  cases left with
  | expression span expr wrapped =>
    cases right with
    | expression span' expr' wrapped' =>
      obtain ⟨_, exprs, rfl⟩ := Stmt.expression.inj same
      cases lefts with
      | expression _ left =>
      cases rights with
      | expression _ right => exact .expression wrapped (exprAlike_of_erased left right exprs)
    | condition _ _ _ _ =>
      rw [Stmt.bare_condition] at same
      cases same
    | _ => cases same
  | binding span name initial =>
    cases right with
    | binding span' name' initial' =>
      obtain ⟨_, names, initials⟩ := Stmt.binding.inj same
      cases lefts with
      | binding _ left =>
      cases rights with
      | binding _ right => exact .binding names (initialsAlike_of_erased left right initials)
    | condition _ _ _ _ =>
      rw [Stmt.bare_condition] at same
      cases same
    | _ => cases same
  | block span statements =>
    cases right with
    | block span' statements' =>
      cases lefts with
      | block left =>
      cases rights with
      | block right =>
        exact .block (rowsAlike_of_bare (forall_stmtAlike_of_rows left)
          (forall_stmtAlike_of_rows right) (Stmt.block.inj same).2)
    | condition _ _ _ _ =>
      rw [Stmt.bare_condition] at same
      cases same
    | _ => cases same
  | condition span test yes no =>
    rw [Stmt.bare_condition] at same
    cases right with
    | condition span' test' yes' no' =>
      rw [Stmt.bare_condition] at same
      obtain ⟨_, tests, yess, nos⟩ := Stmt.condition.inj same
      cases lefts with
      | condition test left other =>
      cases rights with
      | condition test' right other' =>
        exact .condition (exprAlike_of_erased test test' tests)
          (stmtAlike_of_bare left right yess) (branchesAlike_of_bare other other' nos)
    | _ => cases same
  | loop span test body =>
    cases right with
    | loop span' test' body' =>
      obtain ⟨_, tests, bodies⟩ := Stmt.loop.inj same
      cases lefts with
      | loop test left =>
      cases rights with
      | loop test' right =>
        exact .loop (exprAlike_of_erased test test' tests) (stmtAlike_of_bare left right bodies)
    | condition _ _ _ _ =>
      rw [Stmt.bare_condition] at same
      cases same
    | _ => cases same
  | giveBack span keyword value =>
    cases right with
    | giveBack span' keyword' value' =>
      obtain ⟨_, keywords, values⟩ := Stmt.giveBack.inj same
      cases lefts with
      | giveBack _ left =>
      cases rights with
      | giveBack _ right => exact .giveBack keywords (initialsAlike_of_erased left right values)
    | condition _ _ _ _ =>
      rw [Stmt.bare_condition] at same
      cases same
    | _ => cases same
  | function span name params body =>
    cases right with
    | function span' name' params' body' =>
      obtain ⟨_, names, allParams, bodies⟩ := Stmt.function.inj same
      cases lefts with
      | function _ _ _ left =>
      cases rights with
      | function _ _ _ right =>
        exact .function names allParams bodies (rowsAlike_of_bare (forall_stmtAlike_of_rows left)
          (forall_stmtAlike_of_rows right) bodies)
    | condition _ _ _ _ =>
      rw [Stmt.bare_condition] at same
      cases same
    | _ => cases same
  | directive span name value =>
    cases right with
    | directive span' name' value' =>
      obtain ⟨_, names, values⟩ := Stmt.directive.inj same
      exact .directive names values
    | condition _ _ _ _ =>
      rw [Stmt.bare_condition] at same
      cases same
    | _ => cases same
  | remark span text =>
    cases right with
    | remark span' text' => exact .remark
    | condition _ _ _ _ =>
      rw [Stmt.bare_condition] at same
      cases same
    | _ => cases same
  | unknown span kind view => cases lefts

theorem branchesAlike_of_bare {left right : Option Stmt}
    (lefts : Option.Rel (itself leftRows leftAsks).StmtAlike left left)
    (rights : Option.Rel (itself rightRows rightAsks).StmtAlike right right)
    (same : left.map Stmt.bare = right.map Stmt.bare) :
    Option.Rel (between leftRows rightRows asks).StmtAlike left right := by
  cases left with
  | none =>
    cases right with
    | none => exact .none
    | some statement => cases same
  | some statement =>
    cases right with
    | none => cases same
    | some statement' =>
      cases lefts with
      | some left =>
      cases rights with
      | some right => exact .some (stmtAlike_of_bare left right (Option.some.inj same))

/-- So are statements in a row, where remarks of either row are skipped. -/
theorem rowsAlike_of_bare {lefts rights : List Stmt}
    (left : ∀ statement ∈ lefts, (itself leftRows leftAsks).StmtAlike statement statement)
    (right : ∀ statement ∈ rights, (itself rightRows rightAsks).StmtAlike statement statement)
    (same : Stmt.allBare lefts = Stmt.allBare rights) :
    (between leftRows rightRows asks).RowsAlike lefts rights := by
  cases lefts with
  | nil =>
    have rows : (between leftRows rightRows asks).RowsAlike [] (rights ++ []) :=
      rowsAlike_remarks same.symm .nil
    rwa [List.append_nil] at rows
  | cons statement rest =>
    rw [List.forall_mem_cons] at left
    obtain ⟨first, others⟩ := left
    rcases statement.remark_or_bare with ⟨span, text, rfl⟩ | bare
    · exact .skipLeft trivial (rowsAlike_of_bare others right same)
    · rw [bare] at same
      obtain ⟨remarks, found, behind, rfl, none, bares, also⟩ :=
        exists_of_allBare_eq_cons same.symm
      rw [List.forall_mem_append, List.forall_mem_cons] at right
      refine rowsAlike_remarks none (.cons ?_ ?_)
      · exact stmtAlike_of_bare first right.2.1 bares.symm
      · exact rowsAlike_of_bare others right.2.2 also.symm

end

end Alike

end Likeness

/-! ## Runs that agree -/

/-- The function without the places and the remarks of its declaration. -/
def Function.bare : Function → Function
  | .declared name params body home =>
    .declared name.erased (params.map Token.erased) (Stmt.allBare body) home
  | function => function

/-- The event without its line. -/
def Event.unplaced : Event → Event
  | .printed _ text => .printed 0 text
  | .asked text => .asked text

/-- Code, message and hint of a fault. -/
def Fault.wording (fault : Fault) : Option (String × String × String) :=
  fault.diagnostic?.map fun diagnostic => (diagnostic.code, diagnostic.message, diagnostic.hint)

/-- The runs have ended in the same way and leave the same behind: the same fault but for its place,
the same questions and printed texts in the same order, the same scopes with the same bindings, and
the same lists and functions behind their values. -/
structure Run.Agrees (left right : Run) : Prop where
  fault : left.fault.map (Fault.moved fun _ => .nowhere) =
    right.fault.map (Fault.moved fun _ => .nowhere)
  wording : left.fault.map Fault.wording = right.fault.map Fault.wording
  log : left.machine.log.map Event.unplaced = right.machine.log.map Event.unplaced
  scopes : left.machine.store.scopes = right.machine.store.scopes
  lists : left.machine.store.lists = right.machine.store.lists
  settings : left.machine.store.settings = right.machine.store.settings
  functions : ∀ address, (left.machine.store.functions.get? address).map Function.bare =
    (right.machine.store.functions.get? address).map Function.bare

namespace Likeness

variable {like : Likeness} {pages : like.Pages}

theorem moved_of_faultAlike {fault fault' : Fault} (alike : pages.FaultAlike fault fault') :
    (fault.moved fun _ => .nowhere) = fault'.moved fun _ => .nowhere := by
  cases alike with
  | run cause places => exact congrArg (Fault.run cause) places
  | tooDeep | endless | noAnswer _ | noSuchLine _ _ => rfl

theorem wording_of_faultAlike {fault fault' : Fault} (alike : pages.FaultAlike fault fault') :
    fault.wording = fault'.wording := by
  cases alike with
  | @run cause place place' places =>
    have pointers : place.pointer = place'.pointer := by
      have erased := congrArg Token.pointer places
      exact erased
    cases cause <;>
      simp only [Fault.wording, Fault.diagnostic?, RunCause.diagnostic, Option.map_some, pointers]
  | tooDeep | endless | noAnswer _ | noSuchLine _ _ => rfl

theorem bare_of_functionAlike {function function' : Function}
    (alike : like.FunctionAlike function function') : function.bare = function'.bare := by
  cases alike with
  | printer => rfl
  | listener dialogue _ => rfl
  | declared home names params bodies _ =>
    rw [Function.bare, Function.bare, names, params, bodies]

theorem map_eq_of_rel {α β : Type} {alike : α → α → Prop} (f : α → β)
    (each : ∀ a b, alike a b → f a = f b) {x y : Option α} (both : Option.Rel alike x y) :
    x.map f = y.map f := by
  cases both with
  | none => rfl
  | some same => rw [Option.map_some, Option.map_some, each _ _ same]

theorem unplaced_of_eventAlike {event event' : Event} (alike : pages.EventAlike event event') :
    event.unplaced = event'.unplaced := by
  cases alike <;> rfl

/-- Runs side by side agree. -/
theorem agrees_of_runAlike {left right : Run} (alike : pages.RunAlike left right) :
    left.Agrees right := by
  obtain ⟨faults, stores, _, _, _, logs⟩ := alike
  refine ⟨?_, ?_, ?_, stores.scopes.symm, stores.lists.symm, stores.settings.symm, ?_⟩
  · exact map_eq_of_rel (Fault.moved fun _ => .nowhere) (fun _ _ => moved_of_faultAlike) faults
  · exact map_eq_of_rel Fault.wording (fun _ _ => wording_of_faultAlike) faults
  · rw [← List.forall₂_eq_eq_eq, List.forall₂_map_left_iff, List.forall₂_map_right_iff]
    exact logs.imp fun _ _ => unplaced_of_eventAlike
  · exact fun address =>
      map_eq_of_rel Function.bare (fun _ _ => bare_of_functionAlike) (stores.functions address)

end Likeness

namespace Source

variable {source other : Source} {parsed reparsed : Parsed}

/-- Programs of sources that are equal without places and remarks run to the same end, under any
limits that do not count remarks. -/
theorem agrees_runUnder {limits : Limits} (read : source.parse = .ok parsed)
    (reread : other.parse = .ok reparsed) (same : parsed.program.bare = reparsed.program.bare)
    (quiet : limits.remarks = false) (answers : Option (List String)) :
    (parsed.program.runUnder limits (source.opened answers)).Agrees
      (reparsed.program.runUnder limits (other.opened answers)) := by
  have lefts := rowsAlike_of_parseUnder read (Nat.le_refl _) True
  have rights := rowsAlike_of_parseUnder reread (Nat.le_refl _) True
  have rows : (Likeness.between source.rows other.rows True).RowsAlike parsed.program
      reparsed.program :=
    Likeness.rowsAlike_of_bare (Likeness.forall_stmtAlike_of_rows lefts)
      (Likeness.forall_stmtAlike_of_rows rights) same
  have stores : (Likeness.between source.rows other.rows True).StoreAlike
      (Store.fresh.answering answers).2 (Store.fresh.answering answers).2 := by
    cases answers <;> exact storeAlike_of_functions_eq rfl fun _ => trivial
  have machines : (Likeness.twoPages source.rows other.rows True).MachineAlike
      (source.opened answers) (other.opened answers) :=
    Likeness.Pages.machineAlike_start stores (fun _ => trivial) rfl rfl Store.root
  exact Likeness.agrees_of_runAlike
    (Likeness.Pages.runAlike_runUnder (fun _ => quiet) rows machines)

/-- A run that stops at no limit agrees with the run of the other source under any higher limits
that do not count remarks. -/
theorem agrees_of_ended {limits : Limits} (read : source.parse = .ok parsed)
    (reread : other.parse = .ok reparsed) (same : parsed.program.bare = reparsed.program.bare)
    (answers : Option (List String)) (le : Limits.standard.Le limits)
    (quiet : limits.remarks = false)
    (ended : (parsed.program.run (source.opened answers)).stoppedAtLimit = false) :
    (parsed.program.run (source.opened answers)).Agrees
      (reparsed.program.runUnder limits (other.opened answers)) := by
  rw [Program.run] at ended ⊢
  rcases Program.runUnder_of_le le parsed.program (source.opened answers) with limit | kept
  · rw [limit] at ended
    cases ended
  · rw [kept]
    exact agrees_runUnder read reread same quiet answers

/-- Sources whose programs are equal without places and remarks mean the same. Under any limits that
do not count remarks their runs agree, so both come to no end, or both come to the same. A run of
the machine, which counts remarks, agrees with the other source's run under any such limits that are
higher, and with its run of the machine, unless one of them stops at a limit. -/
theorem run_agrees (read : source.parse = .ok parsed) (reread : other.parse = .ok reparsed)
    (same : parsed.program.bare = reparsed.program.bare) (answers : Option (List String)) :
    (∀ limits : Limits, limits.remarks = false →
      (parsed.program.runUnder limits (source.opened answers)).Agrees
        (reparsed.program.runUnder limits (other.opened answers))) ∧
      ∃ run rerun, source.run answers = .ok (parsed, run) ∧
        other.run answers = .ok (reparsed, rerun) ∧
        (run.stoppedAtLimit = false → ∀ limits : Limits, Limits.standard.Le limits →
          limits.remarks = false →
          run.Agrees (reparsed.program.runUnder limits (other.opened answers))) ∧
        (run.stoppedAtLimit = true ∨ rerun.stoppedAtLimit = true ∨ run.Agrees rerun) := by
  refine ⟨fun _ quiet => agrees_runUnder read reread same quiet answers, _, _,
    run_eq_ok_iff.mpr ⟨read, rfl⟩, run_eq_ok_iff.mpr ⟨reread, rfl⟩,
    fun ended _ le quiet => agrees_of_ended read reread same answers le quiet ended, ?_⟩
  have le : Limits.standard.Le { Limits.standard with remarks := false } :=
    ⟨Nat.le_refl _, Nat.le_refl _, nofun⟩
  cases ended : (parsed.program.run (source.opened answers)).stoppedAtLimit with
  | true => exact .inl rfl
  | false =>
    have agrees := agrees_of_ended read reread same answers le rfl ended
    rcases Program.runUnder_of_le le reparsed.program (other.opened answers) with limit | kept
    · exact .inr (.inl limit)
    · rw [← kept] at agrees
      exact .inr (.inr agrees)

/-- What a source is that can be read and whose run stops at no limit. -/
theorem exists_of_unlimited {answers : Option (List String)}
    (unlimited : ((source.run answers).map (·.2.stoppedAtLimit)).toOption = some false) :
    ∃ parsed, source.parse = .ok parsed ∧
      (parsed.program.run (source.opened answers)).stoppedAtLimit = false := by
  cases ran : source.run answers with
  | error fault =>
    rw [ran] at unlimited
    cases unlimited
  | ok outcome =>
    obtain ⟨parsed, run⟩ := outcome
    obtain ⟨read, rfl⟩ := run_eq_ok_iff.mp ran
    rw [ran] at unlimited
    exact ⟨parsed, read, Option.some.inj unlimited⟩

/-- The body of the function is on lines of its own in one source, and among remarks in the other.
-/
theorem run_agrees_remarked :
    ∃ parsed reparsed run rerun,
      (Source.mk "to f——:\n“a”\n.\nf——" "").run none = .ok (parsed, run) ∧
      (Source.mk "to f——: “a” † b\n† c\n. f——" "").run none = .ok (reparsed, rerun) ∧
      parsed.program.bare = reparsed.program.bare ∧ run.Agrees rerun := by
  have same : (Source.mk "to f——:\n“a”\n.\nf——" "").parse.map (·.program.bare) =
      (Source.mk "to f——: “a” † b\n† c\n. f——" "").parse.map (·.program.bare) := by
    cbv
  obtain ⟨parsed, read, ended⟩ :=
    @exists_of_unlimited ⟨"to f——:\n“a”\n.\nf——", ""⟩ none (by decide +kernel)
  obtain ⟨reparsed, reread, reended⟩ :=
    @exists_of_unlimited ⟨"to f——: “a” † b\n† c\n. f——", ""⟩ none (by decide +kernel)
  rw [read, reread] at same
  have bares : parsed.program.bare = reparsed.program.bare := Except.ok.inj same
  obtain ⟨_, run, rerun, ran, reran, _, agree⟩ := run_agrees read reread bares none
  obtain ⟨_, rfl⟩ := run_eq_ok_iff.mp ran
  obtain ⟨_, rfl⟩ := run_eq_ok_iff.mp reran
  refine ⟨parsed, reparsed, _, _, ran, reran, bares, ?_⟩
  rw [ended, reended] at agree
  rcases agree with stopped | stopped | agrees
  · cases stopped
  · cases stopped
  · exact agrees

end Source

end Marginalia
