import Marginalia.Proofs.Store.Layers

/-!
# Copies of functions

A name that has been written to reads the binding that the write has left (`Wrote.lookup_self`):
the write went to the first binding that serves the name, and no nearer scope has got one.

In palimpsest mode that binding is a list, and the value is its newest layer. A call looks through
one list only. So a function that is written stays callable, but what a layered name reads is a
list already, and its copy is a list whose newest layer is a list: nothing that can be called
(`Wrote.callable?_eq`).
-/

namespace Marginalia

/-! ## What a written name reads -/

section Reads

variable {store after : Store} {write : Write} {binding : Binding} {scope : ScopeId}

/-- A search of the scope that was written to finds the binding, if it did so before or the binding
is new. -/
theorem Wrote.find?_self (wrote : Wrote store write binding after)
    (served : store.find? write.slot.scope write.name = some write.slot ∨
      store.binding? write.slot = none) :
    after.find? write.slot.scope write.name = some write.slot := by
  have elsewhere : ∀ index < write.slot.index,
      after.binding? ⟨write.slot.scope, index⟩ = store.binding? ⟨write.slot.scope, index⟩ := by
    intro index before
    refine wrote.elsewhere _ fun same => ?_
    rw [← same] at before
    exact Nat.lt_irrefl _ before
  rcases served with found | vacant
  · obtain ⟨_, ⟨old, here, shares⟩, earlier⟩ := Store.find?_eq_some_iff.mp found
    have spelling : binding.spelling = old.spelling := by
      rw [wrote.spelling, here, Option.map_some, Option.getD_some]
    refine Store.find?_eq_some_iff.mpr ⟨rfl, ⟨binding, wrote.here, ?_⟩, ?_⟩
    · rw [spelling]
      exact shares
    · intro index before other there
      rw [elsewhere index before] at there
      exact earlier index before other there
  · have spelling : binding.spelling = write.name := by
      rw [wrote.spelling, vacant, Option.map_none, Option.getD_none]
    refine Store.find?_eq_some_iff.mpr ⟨rfl, ⟨binding, wrote.here, ?_⟩, ?_⟩
    · rw [spelling]
      exact spellingsOverlap_self _
    · intro index before other there
      rw [elsewhere index before] at there
      exact Store.find?_eq_none_iff.mp (wrote.free vacant) index other there

/-- A search of another scope finds no more than before. -/
theorem Wrote.find?_eq_none (wrote : Wrote store write binding after)
    (apart : scope ≠ write.slot.scope) {name : String} (absent : store.find? scope name = none) :
    after.find? scope name = none := by
  rw [Store.find?_eq_none_iff] at absent ⊢
  intro index other there
  rw [wrote.elsewhere _ fun same => apart (congrArg Slot.scope same)] at there
  exact absent index other there

theorem Store.resolve?_of_find? {name : String} {slot : Slot}
    (found : store.find? scope name = some slot) : store.resolve? scope name = some slot := by
  rw [Store.resolve?, Store.chain, List.findSome?_cons, found]

/-- Seen from a scope, the name that was written resolves to its binding, if it did so before or
the binding is new in this very scope. -/
theorem Wrote.resolve?_self (wrote : Wrote store write binding after)
    (reaches : store.resolve? scope write.name = some write.slot ∨
      store.binding? write.slot = none ∧ write.slot.scope = scope) :
    after.resolve? scope write.name = some write.slot := by
  rcases reaches with resolved | ⟨vacant, rfl⟩
  · rw [Store.resolve?, List.findSome?_eq_some_iff] at resolved ⊢
    obtain ⟨nearer, around, farther, whole, found, skipped⟩ := resolved
    obtain ⟨rfl, _, _⟩ := Store.find?_eq_some_iff.mp found
    refine ⟨nearer, _, farther, (wrote.chain scope).trans whole, wrote.find?_self (.inl found),
      fun other mem => wrote.find?_eq_none ?_ (skipped other mem)⟩
    rintro rfl
    rw [skipped _ mem] at found
    cases found
  · exact Store.resolve?_of_find? (wrote.find?_self (.inr vacant))

theorem Wrote.lookup_self (wrote : Wrote store write binding after)
    (reaches : store.resolve? scope write.name = some write.slot ∨
      store.binding? write.slot = none ∧ write.slot.scope = scope) :
    after.lookup scope write.name = binding.value :=
  Store.lookup_of_resolve? (wrote.resolve?_self reaches) wrote.here

end Reads

namespace Store

variable {store : Store} {scope : ScopeId} {value : Value}

/-- An assignment writes a binding, and the name reads it. -/
theorem exists_wrote_assign (there : scope < store.scopes.size) (name : String)
    (known : value.Known store) :
    ∃ slot binding, Wrote store ⟨slot, name, value, store.settings.palimpsest⟩ binding
        (store.assign scope name value) ∧
      (store.assign scope name value).lookup scope name = binding.value := by
  have allowed : (Deed.assign scope name value).Allowed store := ⟨there, known⟩
  obtain ⟨binding, wrote⟩ := Deed.exists_wrote allowed rfl
  refine ⟨_, binding, wrote, wrote.lookup_self ?_⟩
  cases resolved : store.resolve? scope name with
  | some slot => exact .inl rfl
  | none => exact .inr ⟨binding?_vacant store scope, rfl⟩

/-- A definition writes a binding, and the name reads it. -/
theorem exists_wrote_define (there : scope < store.scopes.size) (name : String)
    (known : value.Known store) :
    ∃ slot binding, Wrote store ⟨slot, name, value, store.settings.palimpsest⟩ binding
        (store.define scope name value) ∧
      (store.define scope name value).lookup scope name = binding.value := by
  have allowed : (Deed.define scope name value).Allowed store := ⟨there, known⟩
  obtain ⟨binding, wrote⟩ := Deed.exists_wrote allowed rfl
  refine ⟨_, binding, wrote, wrote.lookup_self ?_⟩
  cases found : store.find? scope name with
  | some slot => exact .inl (resolve?_of_find? found)
  | none => exact .inr ⟨binding?_vacant store scope, rfl⟩

end Store

/-! ## What can be called -/

/-- The function that a copy of a value calls, where the value calls the one at the address: in
palimpsest mode a list and its copy are two lists, and that is one too many. -/
def calledCopy (palimpsest : Bool) (value : Value) (address : Nat) : Option Nat :=
  if palimpsest = true ∧ value ≠ .function address then none else some address

section Callable

variable {store after : Store} {write : Write} {binding : Binding} {value : Value}
  {address list : Nat}

/-- A list calls its newest layer, if that is a function itself. -/
theorem Store.callable?_layers_eq_some_iff {older : List Value}
    (made : store.lists.get? list = some (older ++ [value])) :
    store.callable? (.layers list) = some address ↔ value = .function address := by
  rw [callable?, made, Option.bind_some, List.getLast?_concat, Option.getD_some]
  cases value <;> simp

theorem Store.callable?_layers {older : List Value}
    (made : store.lists.get? list = some (older ++ [value]))
    (only : ∀ other, value = .function other → other = address) :
    store.callable? (.layers list) = calledCopy true value address := by
  rw [calledCopy]
  by_cases isFunction : value = .function address
  · rw [if_neg fun layered => layered.2 isFunction]
    exact (callable?_layers_eq_some_iff made).mpr isFunction
  · rw [if_pos ⟨rfl, isFunction⟩, Option.eq_none_iff_forall_ne_some]
    intro other called
    have isOther := (callable?_layers_eq_some_iff made).mp called
    rw [only other isOther] at isOther
    exact isFunction isOther

/-- The function that a call of the binding calls after a write. -/
theorem Wrote.callable?_eq (wrote : Wrote store write binding after) (owning : store.Owning)
    (callable : store.callable? write.value = some address) :
    after.callable? binding.value = calledCopy write.palimpsest write.value address := by
  have only : ∀ other, write.value = .function other → other = address := by
    intro other isFunction
    rw [isFunction] at callable
    exact Option.some.inj callable
  have change := wrote.change
  generalize made : after.lists = lists at change
  cases change with
  | cover _ mode =>
    rw [mode, calledCopy, if_neg fun layered => Bool.false_ne_true layered.1, ← callable]
    unfold Store.callable?
    rw [made]
  | @grow _ list mode here =>
    obtain ⟨older, before⟩ : ∃ older, store.lists.get? list = some older :=
      ⟨_, Array.getElem?_eq_getElem (owning.made ⟨_, here⟩)⟩
    have grown : after.lists.get? list = some (older ++ [write.value]) := by
      rw [made, Heap.get?_update, if_pos rfl, before, Option.map_some]
    rw [mode]
    exact Store.callable?_layers grown only
  | begin _ mode _ =>
    have begun : after.lists.get? store.lists.size =
        some ((store.binding? write.slot).toList.map Binding.value ++ [write.value]) := by
      rw [made, Heap.get?_alloc, if_pos rfl]
    rw [mode]
    exact Store.callable?_layers begun only

end Callable

namespace Store

variable {store : Store} {scope origin home : ScopeId} {value : Value} {address : Nat}

theorem callable?_lookup_assign (owning : store.Owning) (there : scope < store.scopes.size)
    (name : String) (known : value.Known store) (callable : store.callable? value = some address) :
    let after := store.assign scope name value
    after.callable? (after.lookup scope name) =
      calledCopy store.settings.palimpsest value address := by
  intro after
  obtain ⟨slot, binding, wrote, reads⟩ := exists_wrote_assign there name known
  rw [reads]
  exact wrote.callable?_eq owning callable

theorem callable?_lookup_define (owning : store.Owning) (there : scope < store.scopes.size)
    (name : String) (known : value.Known store) (callable : store.callable? value = some address) :
    let after := store.define scope name value
    after.callable? (after.lookup scope name) =
      calledCopy store.settings.palimpsest value address := by
  intro after
  obtain ⟨slot, binding, wrote, reads⟩ := exists_wrote_define there name known
  rw [reads]
  exact wrote.callable?_eq owning callable

/-- If what one name reads can be called, then a copy under another name, by an assignment, by a
definition in any scope or as a parameter in the new scope of a call, calls the same function,
except that in palimpsest mode a copy calls nothing if the name reads a list. -/
theorem Reached.called_of_copy (reached : Reached store) (there : scope < store.scopes.size)
    (declared : home < store.scopes.size) (name copy : String)
    (callable : store.callable? (store.lookup origin name) = some address) :
    let value := store.lookup origin name
    let called := calledCopy store.settings.palimpsest value address
    let assigned := store.assign scope copy value
    let defined := store.define scope copy value
    let call := store.scopes.size
    let passed := (store.child home).define call copy value
    assigned.callable? (assigned.lookup scope copy) = called ∧
      defined.callable? (defined.lookup scope copy) = called ∧
      passed.callable? (passed.lookup call copy) = called := by
  intro value called assigned defined call passed
  have known : value.Known store := reached.sound.lookup origin name
  have opened : Reached (store.child home) := .deed (.child home) reached declared
  have inside : call < (store.child home).scopes.size := size_lt_child store home
  have grows : store.Grows (store.child home) :=
    Deed.grows (show (Deed.child home).Allowed store from declared)
  exact ⟨callable?_lookup_assign reached.owning there copy known callable,
    callable?_lookup_define reached.owning there copy known callable,
    callable?_lookup_define opened.owning inside copy (known.mono grows) callable⟩

/-- In palimpsest mode a copy of a declared function calls nothing, be it assigned or passed. -/
theorem Reached.called_of_copy_layered :
    let deeds :=
      [Deed.makeFunction .printer, .settle ⟨true, none⟩, .assign root "say" (.function 0)]
    let store := deeds.foldl Deed.apply Store.fresh
    Reached store ∧ store.callable? (store.lookup root "say") = some 0 ∧
      (let assigned := store.assign root "tell" (store.lookup root "say")
       assigned.callable? (assigned.lookup root "tell") = none) ∧
      (let passed := (store.child root).define 1 "tell" (store.lookup root "say")
       passed.callable? (passed.lookup 1 "tell") = none) := by
  intro deeds store
  have does : Store.fresh.Does deeds store :=
    .cons (by decide) <| .cons (by decide) <| .cons (by decide +kernel) .nil
  have reached : Reached store := .of_does .fresh does
  have callable : store.callable? (store.lookup root "say") = some 0 := by decide +kernel
  have there : root < store.scopes.size := by decide +kernel
  obtain ⟨assigned, _, passed⟩ := reached.called_of_copy there there "say" "tell" callable
  have nothing : calledCopy store.settings.palimpsest (store.lookup root "say") 0 = none := by
    decide +kernel
  exact ⟨reached, callable, assigned.trans nothing, passed.trans nothing⟩

-- A program that calls a function by another name stops there in palimpsest mode.
example :
    let source := Source.mk "#as palimpsest\nto f——:\n& “hi”\n.\nlet g be f\ng——" ""
    ((source.run none).map fun result =>
      match result.2.fault with
      | some (.run cause _) => some cause
      | _ => none).toOption = some (some (.notAFunction "<f()>")) := by
  decide +kernel

end Store

end Marginalia
