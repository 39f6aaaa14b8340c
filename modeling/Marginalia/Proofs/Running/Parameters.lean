import Mathlib.Data.List.TakeWhile
import Marginalia.Proofs.Running.Limits
import Marginalia.Proofs.Store.Disjoint

/-!
# Parameters

A call of a declared function makes a scope inside the one of the declaration, and binds the
parameters there, one after the other (`Limits.enterCall`). Whatever the parameters are called and
whatever is passed, that happens inside the new scope: no scope that was there changes, and no list
does, even where an argument is a list and the next parameter is bound over it. The lists that grow
are those that the new scope has got for itself (`Store.Opened`).

Parameters that share no name get a binding each, in their order (`Store.bindings_defineAll`). So
without palimpsest each of them, and each plain name that it spells, reads its own argument, and
what the scopes around bind does not matter (`Limits.enterCall_local`).
-/

namespace Marginalia

open Pattern (ofSpelling)

/-! ## Parameters in a store -/

namespace Store

variable {before store : Store} {scope : ScopeId} {name : String} {value : Value}

/-- Binds parameters to arguments in a scope; a parameter without an argument is nothing. -/
def defineAll (store : Store) (scope : ScopeId) : List Token → List Value → Store
  | [], _ => store
  | param :: params, arguments =>
    (store.define scope param.lexeme (arguments.headD .nothing)).defineAll scope params
      arguments.tail

theorem exists_wrote_inside (there : scope < store.scopes.size) (name : String) (value : Value) :
    ∃ slot binding, slot.scope = scope ∧
      Wrote store ⟨slot, name, value, store.settings.palimpsest⟩ binding
        (store.define scope name value) := by
  rw [define]
  cases found : store.find? scope name with
  | none =>
    obtain ⟨binding, wrote⟩ := exists_wrote_bindNew there found value
    exact ⟨_, binding, rfl, wrote⟩
  | some slot =>
    obtain ⟨home, ⟨old, here, _⟩, _⟩ := find?_eq_some_iff.mp found
    obtain ⟨binding, wrote⟩ := exists_wrote_overwrite here name value
    exact ⟨slot, binding, home, wrote⟩

theorem get?_overwrite_of_ne {slot : Slot} {other : ScopeId} (apart : slot.scope ≠ other) :
    (store.overwrite slot value).scopes.get? other = store.scopes.get? other := by
  unfold overwrite
  split
  · rfl
  split
  · split
    · rfl
    · exact (Heap.get?_update _ _ _ _).trans (if_neg apart)
  · exact (Heap.get?_update _ _ _ _).trans (if_neg apart)

/-- A definition leaves the other scopes alone. -/
theorem get?_define_of_ne {other : ScopeId} (apart : scope ≠ other) :
    (store.define scope name value).scopes.get? other = store.scopes.get? other := by
  rw [define]
  cases found : store.find? scope name with
  | none =>
    change (store.bindNew scope name value).scopes.get? other = _
    unfold bindNew
    split
    all_goals exact (Heap.get?_update _ _ _ _).trans (if_neg apart)
  | some slot =>
    obtain ⟨rfl, _, _⟩ := find?_eq_some_iff.mp found
    exact get?_overwrite_of_ne apart

/-- The store is another one with a new scope: the scopes and lists of that one are as they were,
and what is layered in the new scope is layered over lists that are new, too. -/
structure Opened (before : Store) (scope : ScopeId) (store : Store) : Prop where
  there : scope < store.scopes.size
  scopes : ∀ ⦃other⦄, other ≠ scope → store.scopes.get? other = before.scopes.get? other
  size : before.lists.size ≤ store.lists.size
  lists : ∀ ⦃list⦄, list < before.lists.size → store.lists.get? list = before.lists.get? list
  layers : ∀ ⦃index spelling list⦄,
    store.binding? ⟨scope, index⟩ = some ⟨spelling, .layers list, true⟩ → before.lists.size ≤ list

theorem bindings_child (before : Store) (home : ScopeId) :
    (before.child home).bindings before.scopes.size = [] := by
  have made : (before.child home).scopes.get? before.scopes.size = _ :=
    (Heap.get?_alloc _ _ _).trans (if_pos rfl)
  rw [bindings, made]
  rfl

theorem opened_child (before : Store) (home : ScopeId) :
    before.Opened before.scopes.size (before.child home) where
  there := size_lt_child before home
  scopes _ apart := (Heap.get?_alloc _ _ _).trans (if_neg apart)
  size := Nat.le_refl _
  lists _ _ := rfl
  layers index spelling list here := by
    rw [binding?_eq_getElem?, bindings_child] at here
    cases here

/-- Binding a name in the new scope changes nothing that was there before. -/
theorem Opened.define (opened : before.Opened scope store) (name : String) (value : Value) :
    before.Opened scope (store.define scope name value) := by
  obtain ⟨slot, binding, rfl, wrote⟩ := exists_wrote_inside opened.there name value
  have change := wrote.change
  refine ⟨Nat.lt_of_lt_of_le opened.there wrote.grows.scopes, fun other apart => ?_,
    opened.size.trans wrote.grows.lists, fun list old => ?_, fun index spelling list here => ?_⟩
  · rw [get?_define_of_ne (Ne.symm apart)]
    exact opened.scopes apart
  · rw [← opened.lists old]
    generalize (store.define slot.scope name value).lists = lists at change
    cases change with
    | cover _ _ => rfl
    | grow _ layered =>
      have new := opened.layers layered
      rw [Heap.get?_update, if_neg (by omega)]
    | begin _ _ _ =>
      have made := opened.size
      rw [Heap.get?_alloc, if_neg (by omega)]
  · by_cases written : ⟨slot.scope, index⟩ = slot
    · rw [written, wrote.here] at here
      cases here
      generalize (store.define slot.scope name value).lists = lists at change
      generalize same : (⟨spelling, .layers list, true⟩ : Binding) = binding at change
      cases change with
      | cover _ _ => cases (Binding.mk.inj same).2.2
      | grow _ layered =>
        cases same
        exact opened.layers layered
      | begin _ _ _ =>
        cases same
        exact opened.size
    · rw [wrote.elsewhere _ written] at here
      exact opened.layers here

theorem Opened.defineAll (opened : before.Opened scope store) (params : List Token)
    (arguments : List Value) : before.Opened scope (store.defineAll scope params arguments) := by
  induction params generalizing store arguments with
  | nil => exact opened
  | cons param params ih => exact ih (opened.define _ _) _

/-! ## What parameters read -/

/-- The bindings of parameters that share no name. -/
def bound : List Token → List Value → List Binding
  | [], _ => []
  | param :: params, arguments =>
    ⟨param.lexeme, arguments.headD .nothing, false⟩ :: bound params arguments.tail

/-- The parameters share no name with each other. -/
abbrev NoneShared (params : List Token) : Prop :=
  params.Pairwise fun one other => spellingsOverlap one.lexeme other.lexeme = false

theorem find?_eq_none_of_bindings
    (free : ∀ binding ∈ store.bindings scope, spellingsOverlap binding.spelling name = false) :
    store.find? scope name = none := by
  rw [find?_eq_none_iff]
  intro index binding here
  rw [binding?_eq_getElem?] at here
  exact free binding (List.mem_of_getElem? here)

theorem bindings_define_of_free (single : store.settings.palimpsest = false)
    (there : scope < store.scopes.size)
    (free : ∀ binding ∈ store.bindings scope, spellingsOverlap binding.spelling name = false) :
    (store.define scope name value).bindings scope =
      store.bindings scope ++ [⟨name, value, false⟩] := by
  obtain ⟨found, here, _⟩ := exists_get?_of_lt there
  have after := get?_addBinding store scope ⟨name, value, false⟩ scope
  rw [here, Option.map_some, if_pos rfl] at after
  rw [define, find?_eq_none_of_bindings free]
  change (store.bindNew scope name value).bindings scope = _
  rw [bindNew, single, bindings, bindings, here]
  change ((store.addBinding scope ⟨name, value, false⟩).scopes.get? scope).elim [] _ = _
  rw [after]
  rfl

/-- Parameters that share no name with each other or with what the scope binds are bound one after
the other behind it. -/
theorem bindings_defineAll (single : store.settings.palimpsest = false)
    (there : scope < store.scopes.size) {params : List Token} (apart : NoneShared params)
    (free : ∀ binding ∈ store.bindings scope, ∀ param ∈ params,
      spellingsOverlap binding.spelling param.lexeme = false) (arguments : List Value) :
    (store.defineAll scope params arguments).bindings scope =
      store.bindings scope ++ bound params arguments := by
  induction params generalizing store arguments with
  | nil => exact (List.append_nil _).symm
  | cons param params ih =>
    obtain ⟨first, others⟩ := List.pairwise_cons.mp apart
    obtain ⟨_, _, _, wrote⟩ :=
      exists_wrote_inside there param.lexeme (arguments.headD .nothing)
    have added : (store.define scope param.lexeme (arguments.headD .nothing)).bindings scope =
        store.bindings scope ++ [⟨param.lexeme, arguments.headD .nothing, false⟩] :=
      bindings_define_of_free single there fun binding mem =>
        free binding mem param List.mem_cons_self
    rw [defineAll, ih (wrote.settings ▸ single)
      (Nat.lt_of_lt_of_le there wrote.grows.scopes) others, added, bound, List.append_assoc]
    · rfl
    · intro binding mem other inside
      rw [added] at mem
      rcases List.mem_append.mp mem with old | new
      · exact free binding old other (List.mem_cons_of_mem _ inside)
      · rw [List.mem_singleton.mp new]
        exact first other inside

/-- The first parameter that serves a name is bound to the argument in its place. -/
theorem find?_bound {params : List Token} {index : Nat} {param : Token}
    (here : params[index]? = some param) (serves : spellingsOverlap param.lexeme name = true)
    (earlier : ∀ place < index, ∀ other, params[place]? = some other →
      spellingsOverlap other.lexeme name = false) (arguments : List Value) :
    (bound params arguments).find? (fun binding => spellingsOverlap binding.spelling name) =
      some ⟨param.lexeme, arguments.getD index .nothing, false⟩ := by
  induction params generalizing index arguments with
  | nil => cases here
  | cons first params ih =>
    cases index with
    | zero =>
      cases here
      rw [bound, List.find?_cons, serves]
      cases arguments <;> rfl
    | succ index =>
      have skipped := earlier 0 (Nat.succ_pos _) first rfl
      rw [bound, List.find?_cons, skipped]
      dsimp only
      rw [ih here fun place before other there => earlier (place + 1) (by omega) other there]
      cases arguments <;> rfl

theorem lookup_of_serving? {binding : Binding}
    (served : store.serving? scope name = some binding) :
    store.lookup scope name = binding.value := by
  have resolved := bind_resolve? store scope name
  rw [chain, List.findSome?_cons, served] at resolved
  rw [lookup, resolved]

/-- Of parameters that share no name, the one in a place is the only one that serves a name. -/
theorem serves_only {params : List Token} (apart : NoneShared params) {index : Nat} {param : Token}
    (here : params[index]? = some param) {place : Nat} (before : place < index) {other : Token}
    (there : params[place]? = some other) :
    spellingsOverlap other.lexeme param.lexeme = false := by
  obtain ⟨inside, rfl⟩ := List.getElem?_eq_some_iff.mp here
  obtain ⟨insideToo, rfl⟩ := List.getElem?_eq_some_iff.mp there
  exact List.pairwise_iff_getElem.mp apart place index insideToo inside before

/-- In a new scope each parameter reads the argument in its place, and so does each plain name that
it spells. -/
theorem lookup_defineAll (single : before.settings.palimpsest = false) (home : ScopeId)
    {params : List Token} (apart : NoneShared params) (arguments : List Value) {index : Nat}
    {param : Token} (here : params[index]? = some param) :
    let call := (before.child home).defineAll before.scopes.size params arguments
    call.lookup before.scopes.size param.lexeme = arguments.getD index .nothing ∧
      ∀ name, IsPlainName name → (ofSpelling param.lexeme.toList).accepts name.toList = true →
        call.lookup before.scopes.size name = arguments.getD index .nothing := by
  intro call
  have bindings : call.bindings before.scopes.size = bound params arguments := by
    have still : (before.child home).settings.palimpsest = false := single
    have all := bindings_defineAll still (size_lt_child before home) apart
      (by simp [bindings_child]) arguments
    rwa [bindings_child] at all
  have reads (name : String) (serves : spellingsOverlap param.lexeme name = true)
      (earlier : ∀ place < index, ∀ other, params[place]? = some other →
        spellingsOverlap other.lexeme name = false) :
      call.lookup before.scopes.size name = arguments.getD index .nothing := by
    have served := find?_bound here serves earlier arguments
    rw [← bindings] at served
    exact lookup_of_serving? served
  refine ⟨reads param.lexeme (spellingsOverlap_self _) fun place before other there =>
    serves_only apart here before there, fun name plain accepts => ?_⟩
  apply reads name (by rw [spellingsOverlap_of_plain plain, accepts])
  intro place before other there
  rw [spellingsOverlap_of_plain plain, Bool.eq_false_iff]
  intro acceptsToo
  -- Two parameters that accept the name would share it.
  have shared := spellingsOverlap_of_accepts acceptsToo accepts
  rw [serves_only apart here before there] at shared
  cases shared

end Store

/-! ## Entering a call -/

namespace Limits

open Marginalia.Action

variable {limits : Limits}

/-- The groups of the name are nested no deeper than can be read. -/
def admits (limits : Limits) (name : String) : Bool :=
  match Pattern.read limits.depth name.toList with
  | .error .tooDeep => false
  | _ => true

/-- Makes the scope of a call inside that of the declaration, and binds the parameters there. -/
def enterCall (limits : Limits) (home : ScopeId) (params : List Token) (arguments : List Value) :
    Action ScopeId := do
  let scope := (← get).store.scopes.size
  Action.onStore (·.child home)
  limits.bindParams scope params arguments
  return scope

/-- Carries out the body of a function in the scope of a call. -/
def runBody (run : List Stmt → Action (Option Returned)) (body : List Stmt) (scope : ScopeId) :
    Action Value := do
  match ← Action.within scope (run body) with
  | some returned => return returned.value
  | none => return .nothing

/-- A call of a declared function enters its scope, and carries out the body there. -/
theorem callFunction_declared (limits : Limits) (run : List Stmt → Action (Option Returned))
    (callee : Expr) (arguments : List Value) (name : Token) (params : List Token)
    (body : List Stmt) (home : ScopeId) :
    limits.callFunction run callee arguments (.declared name params body home) =
      limits.enterCall home params arguments >>= runBody run body := by
  rw [callFunction, enterCall]
  simp only [bind_assoc, pure_bind]
  rfl

theorem checkName_of_admits {name : String} (admits : limits.admits name = true) :
    limits.checkName name = pure () := by
  unfold Limits.admits at admits
  unfold checkName checkSpelling
  cases read : Pattern.read limits.depth name.toList with
  | ok pattern => rfl
  | error fault =>
    cases fault with
    | tooDeep => simp [read] at admits
    | malformed => rfl

theorem checkName_of_not_admits {name : String} (deep : limits.admits name = false) :
    limits.checkName name = throw .tooDeep := by
  unfold Limits.admits at deep
  unfold checkName checkSpelling
  cases read : Pattern.read limits.depth name.toList with
  | ok pattern => simp [read] at deep
  | error fault =>
    cases fault with
    | tooDeep => rfl
    | malformed => simp [read] at deep

/-- Parameters are bound up to the first one that is nested too deeply to be read. -/
theorem bindParams_eq (limits : Limits) (scope : ScopeId) (params : List Token)
    (arguments : List Value) (machine : Machine) :
    let read := params.takeWhile fun param => limits.admits param.lexeme
    let last := { machine with store := machine.store.defineAll scope read arguments }
    limits.bindParams scope params arguments machine =
      if params.all fun param => limits.admits param.lexeme then .ok () last
      else .error .tooDeep last := by
  induction params generalizing arguments machine with
  | nil => rfl
  | cons param params ih =>
    rw [bindParams, List.takeWhile_cons, List.all_cons]
    cases admitted : limits.admits param.lexeme with
    | false =>
      rw [checkName_of_not_admits admitted]
      rfl
    | true =>
      rw [checkName_of_admits admitted, pure_bind]
      exact ih arguments.tail
        { machine with store := machine.store.define scope param.lexeme (arguments.headD .nothing) }

theorem enterCall_eq (limits : Limits) (home : ScopeId) (params : List Token)
    (arguments : List Value) (machine : Machine) :
    let scope := machine.store.scopes.size
    let read := params.takeWhile fun param => limits.admits param.lexeme
    let store := (machine.store.child home).defineAll scope read arguments
    limits.enterCall home params arguments machine =
      if params.all fun param => limits.admits param.lexeme then .ok scope { machine with store }
      else .error .tooDeep { machine with store } := by
  intro scope read store
  have bound := limits.bindParams_eq scope params arguments
    { machine with store := machine.store.child home }
  change (limits.bindParams scope params arguments >>= fun _ => pure scope)
    { machine with store := machine.store.child home } = _
  cases admitted : params.all fun param => limits.admits param.lexeme with
  | false =>
    rw [admitted] at bound
    exact bind_of_error bound
  | true =>
    rw [admitted] at bound
    exact bind_of_ok bound

/-- A call of a declared function enters a scope of its own before the body is carried out. Binding
the parameters there leaves all scopes and lists that were there as they were, and goes through
unless a parameter is nested too deeply to be read. Without palimpsest each of several parameters
that share no name, and each plain name that it spells, then reads the argument in its place, or
nothing where there are fewer arguments. -/
theorem enterCall_local (limits : Limits) (home : ScopeId) (params : List Token)
    (arguments : List Value) (machine : Machine) :
    let scope := machine.store.scopes.size
    let last := (limits.enterCall home params arguments).after machine
    (∀ run callee name body,
      limits.callFunction run callee arguments (.declared name params body home) =
        limits.enterCall home params arguments >>= runBody run body) ∧
    (∀ other < machine.store.scopes.size,
      last.store.scopes.get? other = machine.store.scopes.get? other) ∧
    (∀ list < machine.store.lists.size,
      last.store.lists.get? list = machine.store.lists.get? list) ∧
    (limits.enterCall home params arguments machine =
      if params.all fun param => limits.admits param.lexeme then .ok scope last
      else .error .tooDeep last) ∧
    ((params.all fun param => limits.admits param.lexeme) = true →
      machine.store.settings.palimpsest = false → Store.NoneShared params →
      ∀ index param, params[index]? = some param →
        last.store.lookup scope param.lexeme = arguments.getD index .nothing ∧
        ∀ name, IsPlainName name → (ofSpelling param.lexeme.toList).accepts name.toList = true →
          last.store.lookup scope name = arguments.getD index .nothing) := by
  intro scope last
  have entered := limits.enterCall_eq home params arguments machine
  have opened := (Store.opened_child machine.store home).defineAll
    (params.takeWhile fun param => limits.admits param.lexeme) arguments
  have lastIs : last = { machine with
      store := (machine.store.child home).defineAll scope
        (params.takeWhile fun param => limits.admits param.lexeme) arguments } := by
    cases admitted : params.all fun param => limits.admits param.lexeme with
    | false =>
      rw [admitted] at entered
      change Action.after _ machine = _
      rw [Action.after, entered]
      rfl
    | true =>
      rw [admitted] at entered
      change Action.after _ machine = _
      rw [Action.after, entered]
      rfl
  refine ⟨fun run callee name body => limits.callFunction_declared run callee arguments name params
    body home, fun other there => ?_, fun list there => ?_, ?_, ?_⟩
  · rw [lastIs]
    exact opened.scopes (Nat.ne_of_lt there)
  · rw [lastIs]
    exact opened.lists there
  · rw [lastIs]
    exact entered
  · intro admitted single apart index param here
    rw [List.takeWhile_eq_self_iff.mpr (List.all_eq_true.mp admitted)] at lastIs
    rw [lastIs]
    exact Store.lookup_defineAll single home apart arguments here

/-- The name is bound around the declaration, one parameter covers it, and the other is not given
an argument. -/
theorem enterCall_local_over_pattern :
    let params : List Token :=
      [⟨.name, "her|him", none, .nowhere⟩, ⟨.name, "them?", none, .nowhere⟩]
    let machine := Machine.start (Store.fresh.define Store.root "him" (.text "Bob"))
      Store.root .plain []
    let last := (Limits.standard.enterCall Store.root params [.text "Ann"]).after machine
    machine.store.lookup Store.root "him" = .text "Bob" ∧ Store.NoneShared params ∧
      last.store.lookup 1 "him" = .text "Ann" ∧ last.store.lookup 1 "the" = .nothing ∧
      last.store.scopes.get? Store.root = machine.store.scopes.get? Store.root := by
  intro params machine last
  obtain ⟨_, scopes, _, _, reads⟩ :=
    Limits.standard.enterCall_local Store.root params [.text "Ann"] machine
  have apart : Store.NoneShared params := by decide +kernel
  have admitted : (params.all fun param => Limits.standard.admits param.lexeme) = true := by
    decide +kernel
  have single : machine.store.settings.palimpsest = false := by decide +kernel
  have first := reads admitted single apart 0 _ rfl
  have second := reads admitted single apart 1 _ rfl
  exact ⟨by decide +kernel, apart, first.2 "him" (by decide) (by decide +kernel),
    second.2 "the" (by decide) (by decide +kernel), scopes Store.root (by decide +kernel)⟩

end Limits

end Marginalia
