import Marginalia.Proofs.Store.Deeds

/-!
# What a store holds

`Heap.All` says of every cell of a heap that it passes, and `Store.AllBindings` says it of every
binding of a store. The lemmas follow the ways in which heaps and bindings come about. Functions
come about by one deed only (`Deed.functions_apply`).
-/

namespace Marginalia

/-! ## Heaps -/

namespace Heap

variable {α : Type} {holds : α → Prop} {heap : Heap α}

/-- Every cell of the heap passes. -/
def All (holds : α → Prop) (heap : Heap α) : Prop :=
  ∀ ⦃address : Nat⦄ ⦃cell : α⦄, heap.get? address = some cell → holds cell

theorem all_empty : All holds empty := by
  intro address cell found
  cases found

theorem All.alloc (all : heap.All holds) {cell : α} (new : holds cell) :
    (heap.alloc cell).All holds := by
  intro address other found
  rw [get?_alloc] at found
  split at found
  · exact Option.some.inj found ▸ new
  · exact all found

theorem All.update (all : heap.All holds) (address : Nat) {change : α → α}
    (kept : ∀ cell, holds cell → holds (change cell)) : (heap.update address change).All holds := by
  intro other cell found
  rw [get?_update] at found
  split at found
  · obtain ⟨old, there, rfl⟩ := Option.map_eq_some_iff.mp found
    exact kept old (all there)
  · exact all found

end Heap

/-! ## Bindings -/

namespace Store

variable {holds : Binding → Prop} {store : Store} {slot : Slot} {binding : Binding}

/-- Every binding of the store passes. -/
abbrev AllBindings (holds : Binding → Prop) (store : Store) : Prop :=
  store.scopes.All fun scope => ∀ binding ∈ scope.bindings, holds binding

namespace AllBindings

theorem fresh : Store.fresh.AllBindings holds :=
  Heap.all_empty.alloc fun _ mem => absurd mem List.not_mem_nil

theorem of_binding? (all : store.AllBindings holds) (here : store.binding? slot = some binding) :
    holds binding := by
  obtain ⟨scope, found, there⟩ := Option.bind_eq_some_iff.mp here
  exact all found binding (List.mem_of_getElem? there)

theorem child (all : store.AllBindings holds) (scope : ScopeId) :
    (store.child scope).AllBindings holds :=
  Heap.All.alloc all fun _ mem => absurd mem List.not_mem_nil

theorem setBinding (all : store.AllBindings holds) (slot : Slot) (new : holds binding) :
    (store.setBinding slot binding).AllBindings holds := by
  refine Heap.All.update all slot.scope fun scope each other mem => ?_
  rcases List.mem_or_eq_of_mem_set mem with old | rfl
  · exact each other old
  · exact new

theorem addBinding (all : store.AllBindings holds) (scope : ScopeId) (new : holds binding) :
    (store.addBinding scope binding).AllBindings holds :=
  Heap.All.update all scope fun _ each =>
    List.forall_mem_append.mpr ⟨each, List.forall_mem_singleton.mpr new⟩

end AllBindings

/-! ## Functions -/

@[simp] theorem functions_overwrite (store : Store) (slot : Slot) (value : Value) :
    (store.overwrite slot value).functions = store.functions := by
  unfold overwrite
  split
  · rfl
  · split
    · split <;> rfl
    · rfl

@[simp] theorem functions_bindNew (store : Store) (scope : ScopeId) (name : String)
    (value : Value) : (store.bindNew scope name value).functions = store.functions := by
  unfold bindNew
  split <;> rfl

@[simp] theorem functions_define (store : Store) (scope : ScopeId) (name : String)
    (value : Value) : (store.define scope name value).functions = store.functions := by
  unfold define
  split <;> simp

@[simp] theorem functions_assign (store : Store) (scope : ScopeId) (name : String)
    (value : Value) : (store.assign scope name value).functions = store.functions := by
  unfold assign
  split <;> simp

@[simp] theorem functions_assignAll (store : Store) (scope : ScopeId) (names : List String)
    (value : Value) : (store.assignAll scope names value).functions = store.functions := by
  unfold assignAll
  induction names generalizing store with
  | nil => rfl
  | cons name names ih => rw [List.foldl_cons, ih, functions_assign]

end Store

/-- Functions come about where one is made. -/
theorem Deed.functions_apply {deed : Deed} (store : Store)
    (other : ∀ function, deed ≠ .makeFunction function) :
    (deed.apply store).functions = store.functions := by
  cases deed with
  | makeFunction function => exact absurd rfl (other function)
  | define scope name value => exact store.functions_define scope name value
  | assign scope name value => exact store.functions_assign scope name value
  | child _ | settle _ | makeList _ | makeDialogue _ | takeAnswer _ => rfl

theorem Deed.all_functions_apply {deed : Deed} {store : Store} {holds : Function → Prop}
    (all : store.functions.All holds)
    (new : ∀ function, deed = .makeFunction function → holds function) :
    (deed.apply store).functions.All holds := by
  by_cases makes : ∃ function, deed = .makeFunction function
  · obtain ⟨function, rfl⟩ := makes
    exact all.alloc (new function rfl)
  · rw [not_exists] at makes
    rwa [functions_apply store makes]

end Marginalia
