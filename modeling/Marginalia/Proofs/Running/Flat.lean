import Marginalia.Proofs.Running.Echo

/-!
# Runs without palimpsest

Lists are made by writing in palimpsest mode, and by nothing else. So a program that never asks for
this mode has no lists: at every moment of its run the store has made none, no binding is layered,
and all values are flat, whether they are bound, given back, passed or compared
(`Source.moments_flat`). Rendering and comparison have nothing to go down into then.

The invariant is `Moment.Flat`. What may still be carried out, in a frame or in the body of a
function, is a statement of the program (`Moment.StandsIn`), so it does not ask for palimpsest
either.
-/

namespace Marginalia

/-! ## Flat values -/

/-- The value is no list. -/
inductive Value.Flat : Value → Prop
  | nothing : Flat .nothing
  | truth (value : Bool) : Flat (.truth value)
  | text (value : String) : Flat (.text value)
  | function (address : Nat) : Flat (.function address)

theorem Constant.flat_value (constant : Constant) : constant.value.Flat := by
  cases constant with
  | nothing => exact .nothing
  | truth value => exact .truth value
  | text value => exact .text value

namespace Value.Flat

variable {value : Value}

/-- A flat value is rendered without going down. -/
theorem exists_render (flat : value.Flat) (store : Store) :
    ∃ text, ∀ depth, store.render depth value = .ok text := by
  cases flat with
  | nothing => exact ⟨"nothing", fun depth => by rw [Store.render]; rfl⟩
  | truth value => exact ⟨if value then "true" else "false", fun depth => by rw [Store.render]; rfl⟩
  | text value => exact ⟨value, fun depth => by rw [Store.render]; rfl⟩
  | function address => exact ⟨_, fun depth => by rw [Store.render]; rfl⟩

/-- A flat value is compared without going down. -/
theorem equal (flat : value.Flat) (store : Store) (depth : Nat) (other : Value) :
    store.equal depth value other = .ok (decide (value = other)) := by
  cases flat <;> cases depth <;> rfl

end Value.Flat

/-! ## The directives of a program -/

namespace Stmt

mutual

/-- The names and the values of the directives in the statement. -/
def directives : Stmt → List (String × String)
  | .directive _ name value => [(name.lexeme, value.lexeme)]
  | .block _ statements | .function _ _ _ statements => allDirectives statements
  | .condition _ _ yes none => yes.directives
  | .condition _ _ yes (some no) => yes.directives ++ no.directives
  | .loop _ _ body => body.directives
  | .expression _ _ _ | .binding _ _ _ | .giveBack _ _ _ | .remark _ _ | .unknown _ _ _ => []

/-- The names and the values of the directives in some statements. -/
def allDirectives : List Stmt → List (String × String)
  | [] => []
  | statement :: rest => statement.directives ++ allDirectives rest

end

theorem directives_subset_of_mem {statement : Stmt} {statements : List Stmt}
    (mem : statement ∈ statements) : statement.directives ⊆ allDirectives statements := by
  induction mem with
  | head rest => exact List.subset_append_left _ _
  | tail other _ ih => exact List.subset_append_of_subset_right _ ih

theorem directives_child_subset {statement child : Stmt} (mem : child ∈ statement.children) :
    child.directives ⊆ statement.directives := by
  cases statement with
  | block _ statements | function _ _ _ statements => exact directives_subset_of_mem mem
  | condition _ test yes no =>
    cases no with
    | none =>
      obtain rfl := List.mem_singleton.mp mem
      exact List.Subset.refl _
    | some no =>
      obtain rfl | rfl : child = yes ∨ child = no := by simpa [children] using mem
      · exact List.subset_append_left _ _
      · exact List.subset_append_right _ _
  | loop _ test body =>
    obtain rfl := List.mem_singleton.mp mem
    exact List.Subset.refl _
  | _ => cases mem

end Stmt

namespace Program

variable {program : Program}

/-- The names and the values of the directives in the program, at whatever depth. -/
def directives (program : Program) : List (String × String) :=
  Stmt.allDirectives program

theorem Has.directives_subset {statement : Stmt} (has : program.Has statement) :
    statement.directives ⊆ program.directives := by
  induction has with
  | top mem => exact Stmt.directives_subset_of_mem mem
  | inner _ mem ih => exact List.Subset.trans (Stmt.directives_child_subset mem) ih

theorem Has.mem_directives {span : Span} {name value : Token}
    (has : program.Has (.directive span name value)) :
    (name.lexeme, value.lexeme) ∈ program.directives :=
  has.directives_subset List.mem_cons_self

end Program

/-! ## Flat stores -/

/-- The binding is not layered, and its value is flat. -/
structure Binding.Flat (binding : Binding) : Prop where
  layered : binding.layered = false
  value : binding.value.Flat

/-- The store is not in palimpsest mode and has no lists. -/
structure Store.Flat (store : Store) : Prop where
  mode : store.settings.palimpsest = false
  bindings : store.AllBindings Binding.Flat
  lists : store.lists.size = 0

namespace Store.Flat

variable {store : Store} {value : Value}

theorem answering (answers : Option (List String)) :
    ({ (Store.fresh.answering answers).2 with
      settings := (Store.fresh.answering answers).1 } : Store).Flat := by
  cases answers with
  | none => exact ⟨rfl, AllBindings.fresh, rfl⟩
  | some answers => exact ⟨rfl, AllBindings.fresh, rfl⟩

theorem lookup (flat : store.Flat) (scope : ScopeId) (name : String) :
    (store.lookup scope name).Flat := by
  unfold Store.lookup
  split
  next binding found =>
    obtain ⟨slot, _, here⟩ := Option.bind_eq_some_iff.mp found
    exact (AllBindings.of_binding? flat.bindings here).value
  next => exact .text name

theorem child (flat : store.Flat) (scope : ScopeId) : (store.child scope).Flat :=
  ⟨flat.mode, AllBindings.child flat.bindings scope, flat.lists⟩

theorem newFunction (flat : store.Flat) (function : Function) :
    (store.newFunction function).2.Flat :=
  ⟨flat.mode, flat.bindings, flat.lists⟩

theorem takeAnswer (flat : store.Flat) (dialogue : Nat) :
    ({ store with dialogues := store.dialogues.update dialogue List.tail } : Store).Flat :=
  ⟨flat.mode, flat.bindings, flat.lists⟩

theorem overwrite (flat : store.Flat) (slot : Slot) (new : value.Flat) :
    (store.overwrite slot value).Flat := by
  unfold Store.overwrite
  split
  next => exact flat
  next binding here =>
    rw [if_neg (Bool.eq_false_iff.mp flat.mode)]
    exact ⟨flat.mode, AllBindings.setBinding flat.bindings slot ⟨rfl, new⟩, flat.lists⟩

theorem bindNew (flat : store.Flat) (scope : ScopeId) (name : String) (new : value.Flat) :
    (store.bindNew scope name value).Flat := by
  unfold Store.bindNew
  rw [if_neg (Bool.eq_false_iff.mp flat.mode)]
  exact ⟨flat.mode, AllBindings.addBinding flat.bindings scope ⟨rfl, new⟩, flat.lists⟩

theorem define (flat : store.Flat) (scope : ScopeId) (name : String) (new : value.Flat) :
    (store.define scope name value).Flat := by
  unfold Store.define
  split
  next slot _ => exact flat.overwrite slot new
  next => exact flat.bindNew scope name new

theorem assign (flat : store.Flat) (scope : ScopeId) (name : String) (new : value.Flat) :
    (store.assign scope name value).Flat := by
  unfold Store.assign
  split
  next slot _ => exact flat.overwrite slot new
  next => exact flat.bindNew scope name new

end Store.Flat

/-! ## Steps keep a moment flat -/

namespace Moment

/-- The store is flat, and so are the values that are on their way. -/
structure Flat (moment : Moment) : Prop where
  store : moment.machine.store.Flat
  values : ∀ value ∈ moment.values, value.Flat

variable {depth : Nat} {moment next : Moment} {program : Program}

theorem Flat.does (flat : moment.Flat) (stands : moment.StandsIn program)
    (never : ("as", "palimpsest") ∉ program.directives) {deed : Deed} (does : moment.Does deed) :
    (deed.apply moment.machine.store).Flat := by
  have written := does.forall_values Value.Flat flat.values .nothing
  cases does with
  | enterBlock _ | call _ => exact flat.store.child _
  | define _ => exact flat.store.define _ _ (written _ List.mem_cons_self)
  | assign _ => exact flat.store.assign _ _ (written _ List.mem_cons_self)
  | declare _ => exact flat.store.newFunction _
  | palimpsest focus asks =>
    -- This alone changes the mode, and it takes a directive that the program does not have.
    have asked := (stands.exec focus).mem_directives
    rw [asks.1, asks.2] at asked
    exact absurd asked never
  | dialogue dialogue _ => exact flat.store.newFunction (.listener dialogue)
  | answer _ => exact flat.store.takeAnswer _

theorem Flat.brings (flat : moment.Flat) {value : Value} (brings : moment.Brings next value) :
    value.Flat := by
  cases brings with
  | nothing => exact .nothing
  | truth value => exact .truth value
  | @constant _ constant _ => exact constant.flat_value
  | lookup _ => exact flat.store.lookup _ _
  | answer _ => exact .text _
  | function _ => exact .function _
  | directive _ => exact .text _

/-- Each step keeps a moment flat, as no directive of the program asks for palimpsest. -/
theorem Step.flat (never : ("as", "palimpsest") ∉ program.directives)
    (step : Step depth moment next) (stands : moment.StandsIn program) (flat : moment.Flat) :
    next.Flat where
  store := step.store_keeps Store.Flat flat.store fun _ => flat.does stands never
  values := step.forall_values Value.Flat flat.values fun _ => flat.brings

/-- A run that begins at a flat moment comes to flat moments only. -/
theorem Reaches.flat {origin : Moment} (reached : origin.Reaches depth moment)
    (never : ("as", "palimpsest") ∉ program.directives) (stands : origin.StandsIn program)
    (flat : origin.Flat) : moment.Flat := by
  induction reached with
  | refl => exact flat
  | tail before step ih => exact step.flat never (Reaches.standsIn before stands) ih

end Moment

/-! ## Runs of a source -/

namespace Source

variable {limits : Limits} {source : Source} {answers : Option (List String)} {parsed : Parsed}
  {run : Run}

theorem flat_firstMoment (source : Source) (answers : Option (List String)) (program : Program) :
    (source.firstMoment answers program).Flat where
  store := (Store.Flat.answering answers).newFunction .printer
  values := List.forall_mem_singleton.mpr (.function _)

/-- A source without a directive that asks for palimpsest runs without lists. At each moment of its
run the store is not in this mode and has made no list, no binding is layered, and the values that
are bound or on their way are flat; rendering and comparing them does not go down. The evaluator
goes along these moments, and what a run leaves is the machine of one, whether it ends or stops. -/
theorem moments_flat (ran : source.runUnder limits answers = .ok (parsed, run))
    (never : ("as", "palimpsest") ∉ parsed.program.directives) :
    (∀ depth moment, (source.firstMoment answers parsed.program).Reaches depth moment →
      moment.machine.store.settings.palimpsest = false ∧
      moment.machine.store.lists.size = 0 ∧
      (∀ slot binding, moment.machine.store.binding? slot = some binding →
        binding.layered = false ∧ binding.value.Flat) ∧
      (∀ value ∈ moment.values, value.Flat) ∧
      ∀ value, value.Flat →
        (∃ text, ∀ depth, moment.machine.store.render depth value = .ok text) ∧
        ∀ depth other,
          moment.machine.store.equal depth value other = .ok (decide (value = other))) ∧
    (∀ depth, limits.WalksLayer (source.firstMoment answers parsed.program) depth) ∧
    (source.firstMoment answers parsed.program).Leaves limits.depth run.machine ∧
    (run.fault = none → (source.firstMoment answers parsed.program).Reaches limits.depth
      ⟨.ended none, [], run.machine⟩) := by
  obtain ⟨_, rfl⟩ := runUnder_eq_ok_iff.mp ran
  have begins := source.reaches_opened answers parsed.program limits.depth
  refine ⟨fun depth moment reached => ?_, limits.walks_evaluation _,
    Program.leaves_runUnder begins, (Program.walks_runUnder begins).2.1⟩
  have flat := reached.flat never (source.standsIn_firstMoment answers parsed.program)
    (flat_firstMoment source answers parsed.program)
  refine ⟨flat.store.mode, flat.store.lists, fun slot binding here => ?_, flat.values, ?_⟩
  · obtain ⟨layered, value⟩ := Store.AllBindings.of_binding? flat.store.bindings here
    exact ⟨layered, value⟩
  · exact fun value flat => ⟨flat.exists_render _, flat.equal _⟩

/-- The program takes an answer, and prints a comparison, a name that a directive has bound, one
that nothing has bound, and what a function gives back, which is a side of a connective. -/
theorem moments_flat_dialogue :
    ∃ parsed run, (Source.mk
        "#in dialogue\n#as ink\nto f—x—: & x or y.\nlet a be listen——\nsay—a is z, as, z—\nf—a—"
        "").runUnder .standard (some ["Ada"]) = .ok (parsed, run) ∧
      ("as", "palimpsest") ∉ parsed.program.directives ∧
      run.machine.trace = [(5, " false ink z"), (6, " Ada")] ∧ run.machine.store.lists.size = 0 ∧
      ∀ slot binding, run.machine.store.binding? slot = some binding →
        binding.layered = false ∧ binding.value.Flat := by
  have tested : (((Source.mk
      "#in dialogue\n#as ink\nto f—x—: & x or y.\nlet a be listen——\nsay—a is z, as, z—\nf—a—"
      "").runUnder .standard (some ["Ada"])).map fun (parsed, run) =>
        decide (("as", "palimpsest") ∉ parsed.program.directives ∧
          run.machine.trace = [(5, " false ink z"), (6, " Ada")] ∧ run.fault = none)).toOption =
      some true := by
    decide +kernel
  cases ran : (Source.mk
      "#in dialogue\n#as ink\nto f—x—: & x or y.\nlet a be listen——\nsay—a is z, as, z—\nf—a—"
      "").runUnder .standard (some ["Ada"]) with
  | error fault =>
    rw [ran] at tested
    cases tested
  | ok result =>
    obtain ⟨parsed, run⟩ := result
    rw [ran] at tested
    obtain ⟨never, printed, well⟩ := of_decide_eq_true (Option.some.inj tested)
    obtain ⟨each, _, _, ends⟩ := moments_flat ran never
    obtain ⟨_, lists, bindings, _⟩ := each _ _ (ends well)
    exact ⟨parsed, run, rfl, never, printed, lists, bindings⟩

end Source

end Marginalia
