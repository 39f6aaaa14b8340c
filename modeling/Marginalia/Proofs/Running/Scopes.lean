import Marginalia.Proofs.Reading.Slices
import Marginalia.Proofs.Running.Names

/-!
# Scopes left as they were

A machine goes into another scope for a block and for the body of a function, and comes back out of
it on every way out: at the end, when a value is given back, and when the run stops
(`Limits.keepsScope_all`). So a run that started at the root ends there, however it ends.

The scopes that were there before hold no other names afterwards. A call and a block write their own
names into a scope that they have made, and what the reader takes for the branch of a condition or
for the body of a loop is never a declaration, wherever in the program the condition or the loop
stands (`Source.keepsSpellings_of_parseUnder`).
-/

namespace Marginalia

namespace Action

variable {α : Type}

/-- The machine is back in its scope, whether the action gives a result or stops. -/
def KeepsScope (action : Action α) : Prop :=
  ∀ machine : Machine, (action.after machine).scope = machine.scope

/-- The scopes that were there are still there and have the spellings that they had, in the same
order, whether the action gives a result or stops. -/
def KeepsSpellings (action : Action α) : Prop :=
  ∀ machine : Machine, ∀ scope < machine.store.scopes.size,
    scope < (action.after machine).store.scopes.size ∧
      (action.after machine).store.spellings scope = machine.store.spellings scope

/-- A block is back in the scope that it was left for, whatever is done in it. -/
theorem keepsScope_within (scope : ScopeId) (action : Action α) :
    (within scope action).KeepsScope := by
  intro machine
  unfold within Action.after
  dsimp only
  cases action { machine with scope } <;> rfl

theorem AddsNothing.keepsSpellings {action : Action α}
    (adds : ∀ machine, action.AddsNothing machine) : action.KeepsSpellings := by
  intro machine scope there
  have kept : machine.store.AddsOnly none (action.after machine).store :=
    Meets.after ((adds machine).mono (fun _ _ kept => kept.2) fun _ _ kept => kept.2)
  exact ⟨Nat.lt_of_lt_of_le there kept.size, kept.unchanged there⟩

end Action

/-! ## The scope of the machine -/

/-- What goes along the steps comes back to the scope of the machine. -/
theorem Limits.Walks.after_scope {limits : Limits} {origin : Moment} {α : Type}
    {action : Action α} {machine : Machine} {focus : α → Focus} {frames : List Frame}
    (walks : limits.Walks origin action machine focus frames) :
    (action.after machine).scope = machine.scope :=
  Action.Meets.after
    (Action.Meets.mono walks (fun _ _ ended => ended.1) fun _ _ stopped => stopped.1)

/-- Statements, blocks in whatever scope, expressions, calls of whatever function and whole programs
leave the machine in the scope that it was in, however they end. A run ends in the scope that it
started in. -/
theorem Limits.keepsScope_all (limits : Limits) (depth : Nat) :
    (∀ statement, (limits.exec depth statement).KeepsScope) ∧
    (∀ scope statements,
      (Action.within scope (firstReturn (limits.exec depth) statements)).KeepsScope) ∧
    (∀ expr, (limits.eval depth expr).KeepsScope) ∧
    (∀ callee arguments function,
      (limits.callFunction (firstReturn (limits.exec depth)) callee arguments
        function).KeepsScope) ∧
    (∀ program, (limits.interpret program).KeepsScope) ∧
    ∀ (program : Program) store scope settings text,
      (program.runUnder limits (.start store scope settings text)).machine.scope = scope := by
  have layer (origin : Moment) := limits.walks_evaluation origin depth
  refine ⟨?_, ?_, ?_, ?_, ?_, ?_⟩
  · intro statement machine
    exact ((layer _).statement statement [] machine .refl).after_scope
  · intro scope statements
    exact Action.keepsScope_within scope _
  · intro expr machine
    exact ((layer _).expr expr [] machine .refl).after_scope
  · intro callee arguments function machine
    have begun : Moment.Reaches limits.depth ⟨.call callee function arguments, [], machine⟩ _ :=
      .refl
    exact (walks_callFunction (layer _).statements begun).after_scope
  · intro program machine
    have begun : (Moment.top program machine).Reaches limits.depth (.top program machine) := .refl
    exact (limits.walks_interpret begun).after_scope
  · intro program store scope settings text
    have begun : (Moment.top program (.start store scope settings text)).Reaches limits.depth _ :=
      .refl
    exact (program.walks_runUnder begun).1

/-! ## The spellings of scopes -/

/-- The statement is a declaration. -/
def Stmt.declares : Stmt → Bool
  | .binding _ _ _ | .function _ _ _ _ | .directive _ _ _ => true
  | .expression _ _ _ | .block _ _ | .condition _ _ _ _ | .loop _ _ _ | .giveBack _ _ _
  | .remark _ _ | .unknown _ _ _ => false

/-- What the grammar derives has no declaration among its branches. -/
theorem Covers.contained {part : List Token} {statement : Stmt} (covers : Covers part statement)
    (nearest : statement.NearestElse) (other : statement.declares = false) :
    statement.Contained := by
  cases covers.derived with
  | remark _ _ => trivial
  | directive _ _ _ | directiveBe _ _ _ _ | function _ _ _ _ _ _ _ _ | binding _ _
  | bindingBe _ _ _ _ => cases other
  | statement derived =>
    -- The counted grammar makes branches of statements only, and declarations are none.
    have counted := (Derivation.restricts_layer statement.nesting).statement.mpr
      ⟨derived, Nat.le_refl _, nearest⟩
    exact Grammar.contained_of_statement counted

namespace Source

variable {limits : Limits} {source : Source} {parsed : Parsed} {statement : Stmt}

theorem contained_of_parseUnder (read : source.parseUnder limits = .ok parsed)
    (has : parsed.program.Has statement) (other : statement.declares = false) :
    statement.Contained := by
  obtain ⟨body, _, _, _, derives, nearest, _⟩ := exists_stands_of_parseUnder read
  obtain ⟨front, part, behind, _, _, covers⟩ := derives.exists_part has
  exact covers.contained (has.nearestElse nearest) other

/-- An expression adds no name to a scope that was there, and neither does a statement of a program,
at whatever depth, that is no declaration. -/
theorem keepsSpellings_of_parseUnder (read : source.parseUnder limits = .ok parsed)
    (running : Limits) (depth : Nat) :
    (∀ expr, (running.eval depth expr).KeepsSpellings) ∧
    ∀ statement, parsed.program.Has statement → statement.declares = false →
      (running.exec depth statement).KeepsSpellings := by
  constructor
  · intro expr
    exact Action.AddsNothing.keepsSpellings (running.addsNothing_eval depth expr)
  · intro statement has other
    have contained := contained_of_parseUnder read has other
    exact Action.AddsNothing.keepsSpellings (running.addsNothing_exec depth contained)

/-- The condition in the function binds a name in the scope of its block, and none at the root. -/
theorem keepsSpellings_of_parseUnder_condition :
    ∃ parsed statement,
      (Source.mk "to f——: if—say— : let b be c.\n." "").parseUnder .standard = .ok parsed ∧
      parsed.program.Has statement ∧ statement.declares = false ∧
      ((Limits.standard.exec 9 statement).after
        (Source.opened ⟨"", ""⟩ none)).store.spellings 1 = ["b"] ∧
      ((Limits.standard.exec 9 statement).after
        (Source.opened ⟨"", ""⟩ none)).store.spellings Store.root =
          (Source.opened ⟨"", ""⟩ none).store.spellings Store.root := by
  have tested : (((Source.mk "to f——: if—say— : let b be c.\n." "").parseUnder .standard).map
      fun parsed => (parsed.program.flatMap Stmt.children).map fun child =>
        (child.declares, ((Limits.standard.exec 9 child).after
          (Source.opened ⟨"", ""⟩ none)).store.spellings 1)).toOption = some [(false, ["b"])] := by
    decide +kernel
  obtain ⟨parsed, statement, read, has, same⟩ := exists_child_of_test tested
  obtain ⟨other, bound⟩ := Prod.mk.inj same
  have keeps := (keepsSpellings_of_parseUnder read .standard 9).2 statement has other
  exact ⟨parsed, statement, read, has, other, bound, (keeps _ Store.root (by decide +kernel)).2⟩

end Source

end Marginalia
