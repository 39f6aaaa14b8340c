import Marginalia.Proofs.Store.Copies

/-!
# The names of the printer and of the listener

A run begins by binding a new printer to its names, one after the other, wherever these names are
found; a listener is bound in the same way. The bindings found may be those of any program before,
of several of the names or of more than these, and one name may come to be bound between two others.

Still each name calls the new function in the end. A write leaves every search as it was, but for
those that now find the binding that was written (`Wrote.resolve?_eq_or`). Whatever called the
function before calls it still when the function itself is written, since no list gets another last
item by that (`Wrote.callable?_of_function`). So no write undoes what an earlier one has done
(`Wrote.calls`), be it in palimpsest mode or not.
-/

namespace Marginalia

/-! ## What a search finds after a write -/

section Searches

variable {store after : Store} {write : Write} {binding : Binding} {name : String}

/-- There are no gaps between the bindings of a scope. -/
theorem Store.exists_binding?_of_lt {scope : ScopeId} {earlier index : Nat}
    (here : store.binding? ⟨scope, index⟩ = some binding) (before : earlier < index) :
    ∃ other, store.binding? ⟨scope, earlier⟩ = some other := by
  rw [binding?_eq_getElem?, List.getElem?_eq_some_iff] at here
  obtain ⟨inside, _⟩ := here
  rw [binding?_eq_getElem?]
  exact ⟨_, List.getElem?_eq_getElem (before.trans inside)⟩

/-- A binding that is written keeps the spelling it had. -/
theorem Wrote.exists_spelling (wrote : Wrote store write binding after) {slot : Slot}
    {old : Binding} (here : store.binding? slot = some old) :
    ∃ new, after.binding? slot = some new ∧ new.spelling = old.spelling := by
  by_cases written : slot = write.slot
  · subst written
    refine ⟨binding, wrote.here, ?_⟩
    rw [wrote.spelling, here, Option.map_some, Option.getD_some]
  · exact ⟨old, (wrote.elsewhere slot written).trans here, rfl⟩

theorem Wrote.find?_of_some (wrote : Wrote store write binding after) {around : ScopeId}
    {slot : Slot} (found : store.find? around name = some slot) :
    after.find? around name = some slot := by
  obtain ⟨rfl, ⟨old, here, shares⟩, earlier⟩ := Store.find?_eq_some_iff.mp found
  obtain ⟨new, there, same⟩ := wrote.exists_spelling here
  refine Store.find?_eq_some_iff.mpr ⟨rfl, ⟨new, there, same ▸ shares⟩, ?_⟩
  intro index before other atIndex
  obtain ⟨older, wasThere⟩ := Store.exists_binding?_of_lt here before
  obtain ⟨newer, isThere, kept⟩ := wrote.exists_spelling wasThere
  obtain rfl := Option.some.inj (isThere.symm.trans atIndex)
  rw [kept]
  exact earlier index before older wasThere

/-- A search of one scope finds what it found before, or the binding that was written. -/
theorem Wrote.find?_eq_or (wrote : Wrote store write binding after) (around : ScopeId)
    (name : String) :
    after.find? around name = store.find? around name ∨
      after.find? around name = some write.slot := by
  cases before : store.find? around name with
  | some slot => exact .inl (wrote.find?_of_some before)
  | none =>
    cases found : after.find? around name with
    | none => exact .inl rfl
    | some slot =>
      obtain ⟨rfl, ⟨new, here, shares⟩, _⟩ := Store.find?_eq_some_iff.mp found
      by_cases written : slot = write.slot
      · exact .inr (congrArg some written)
      · rw [wrote.elsewhere slot written] at here
        rw [Store.find?_eq_none_iff.mp before slot.index new here] at shares
        cases shares

theorem Wrote.resolve?_eq_or (wrote : Wrote store write binding after) (scope : ScopeId)
    (name : String) :
    after.resolve? scope name = store.resolve? scope name ∨
      after.resolve? scope name = some write.slot := by
  rw [Store.resolve?, Store.resolve?, wrote.chain]
  induction store.chain scope with
  | nil => exact .inl rfl
  | cons around rest ih =>
    rw [List.findSome?_cons, List.findSome?_cons]
    rcases wrote.find?_eq_or around name with same | written
    · rw [same]
      cases store.find? around name with
      | some slot => exact .inl rfl
      | none => exact ih
    · rw [written]
      exact .inr rfl

end Searches

/-! ## What calls a function -/

section Calls

variable {store after : Store} {write : Write} {binding : Binding} {address : Nat}

/-- Seen from the scope, the name calls the function at the address. -/
def Store.Calls (store : Store) (scope : ScopeId) (name : String) (address : Nat) : Prop :=
  store.callable? (store.lookup scope name) = some address

/-- A list calls the function that it ends with. -/
theorem Store.callable?_layers_iff {list : Nat} :
    store.callable? (.layers list) = some address ↔
      ∃ older, store.lists.get? list = some (older ++ [.function address]) := by
  cases made : store.lists.get? list with
  | none => simp [callable?, made]
  | some values =>
    induction values using List.reverseRecOn with
    | nil => simp [callable?, made]
    | append_singleton older newest =>
      rw [callable?_layers_eq_some_iff made]
      simp

/-- What calls a function still does so when the function is written anywhere. -/
theorem Wrote.callable?_of_function (wrote : Wrote store write binding after)
    (isFunction : write.value = .function address) {value : Value} (known : value.Known store)
    (calls : store.callable? value = some address) : after.callable? value = some address := by
  cases value with
  | function other => exact calls
  | nothing | truth _ | text _ => cases calls
  | layers list =>
    obtain ⟨older, made⟩ := Store.callable?_layers_iff.mp calls
    refine Store.callable?_layers_iff.mpr ?_
    have change := wrote.change
    generalize after.lists = lists at change
    cases change with
    | cover _ _ => exact ⟨older, made⟩
    | @grow _ grown _ _ =>
      rw [Heap.get?_update, made, isFunction]
      split
      · exact ⟨older ++ [.function address], rfl⟩
      · exact ⟨older, rfl⟩
    | begin _ _ _ =>
      rw [Heap.get?_alloc, if_neg (Nat.ne_of_lt known)]
      exact ⟨older, made⟩

/-- A write of the function does not undo an earlier one. -/
theorem Wrote.calls (wrote : Wrote store write binding after) (sound : store.Sound)
    (owning : store.Owning) (isFunction : write.value = .function address) {scope : ScopeId}
    {name : String} (calls : store.Calls scope name address) : after.Calls scope name address := by
  have written : after.callable? binding.value = some address := by
    have callable : store.callable? write.value = some address := by
      rw [isFunction]
      rfl
    rw [wrote.callable?_eq owning callable, calledCopy, if_neg fun layered => layered.2 isFunction]
  unfold Store.Calls at *
  rcases wrote.resolve?_eq_or scope name with same | found
  · cases resolved : store.resolve? scope name with
    | none =>
      rw [Store.lookup_of_resolve?_none resolved] at calls
      cases calls
    | some slot =>
      obtain ⟨old, here, _⟩ := Store.exists_of_resolve? resolved
      rw [Store.lookup_of_resolve? resolved here] at calls
      rw [resolved] at same
      by_cases isWritten : slot = write.slot
      · rwa [Store.lookup_of_resolve? same (isWritten ▸ wrote.here)]
      · have kept := (wrote.elsewhere slot isWritten).trans here
        rw [Store.lookup_of_resolve? same kept]
        exact wrote.callable?_of_function isFunction (sound.bindings here) calls
  · rwa [Store.lookup_of_resolve? found wrote.here]

end Calls

/-! ## One function for several names -/

namespace Store

variable {store : Store} {scope : ScopeId} {address : Nat}

theorem calls_assign_self (owning : store.Owning) (there : scope < store.scopes.size)
    (name : String) (known : address < store.functions.size) :
    (store.assign scope name (.function address)).Calls scope name address := by
  have isKnown : (Value.function address).Known store := known
  have copied := callable?_lookup_assign owning there name isKnown rfl
  rwa [calledCopy, if_neg fun layered => layered.2 rfl] at copied

/-- A function that is written to several names in turn is what each of them calls in the end, and
other names that called it still do. -/
theorem calls_assignAll (sound : store.Sound) (owning : store.Owning)
    (there : scope < store.scopes.size) (known : address < store.functions.size)
    {names : List String} {name : String}
    (reached : name ∈ names ∨ store.Calls scope name address) :
    (store.assignAll scope names (.function address)).Calls scope name address := by
  induction names generalizing store with
  | nil =>
    rcases reached with mem | calls
    · cases mem
    · exact calls
  | cons first rest ih =>
    have allowed : (Deed.assign scope first (.function address)).Allowed store := ⟨there, known⟩
    have grows := Deed.grows allowed
    obtain ⟨binding, wrote⟩ := Deed.exists_wrote allowed rfl
    apply ih (Deed.sound allowed sound) (Deed.owning allowed owning)
      (Nat.lt_of_lt_of_le there grows.scopes) (Nat.lt_of_lt_of_le known grows.functions)
    rcases reached with mem | calls
    · rcases List.mem_cons.mp mem with rfl | mem
      · exact .inr (calls_assign_self owning there name known)
      · exact .inl mem
    · exact .inr (wrote.calls sound owning rfl calls)

/-- A new function that is bound to some names is what all of them call. -/
theorem calls_install (sound : store.Sound) (owning : store.Owning)
    (there : scope < store.scopes.size) (function : Function) (known : function.Known store)
    {names : List String} {name : String} (mem : name ∈ names) :
    let after := (store.newFunction function).2.assignAll scope names (store.newFunction function).1
    after.Calls scope name store.functions.size ∧
      after.functions.get? store.functions.size = some function := by
  intro after
  have allowed : (Deed.makeFunction function).Allowed store := known
  have made : store.functions.size < (store.newFunction function).2.functions.size :=
    Heap.size_lt_alloc _ _
  constructor
  · exact calls_assignAll (Deed.sound allowed sound) (Deed.owning allowed owning)
      (Nat.lt_of_lt_of_le there (Deed.grows allowed).scopes) made (.inl mem)
  · have kept : after.functions = store.functions.alloc function := functions_assignAll _ _ _ _
    rw [kept, Heap.get?_alloc, if_pos rfl]

/-- Whatever has been done to a store, when a run begins in a scope every name of the printer calls
one new printer there; and after the directive of the dialogue, if there is somebody to ask, every
name of the listener calls one new listener. -/
theorem Reached.builtins_called (reached : Reached store) (there : scope < store.scopes.size) :
    (∀ settings text, ∀ name ∈ printerNames,
      let begun := (Machine.start store scope settings text).store
      begun.callable? (begun.lookup scope name) = some store.functions.size ∧
        begun.functions.get? store.functions.size = some .printer) ∧
    ∀ dialogue, store.settings.dialogue = some dialogue → ∀ name ∈ listenerNames,
      let told := store.direct scope "in" "dialogue"
      told.callable? (told.lookup scope name) = some store.functions.size ∧
        told.functions.get? store.functions.size = some (.listener dialogue) := by
  constructor
  · intro settings text name mem
    have settled : Reached ({ store with settings } : Store) :=
      .deed (.settle settings) reached trivial
    exact calls_install settled.sound (Reached.owning settled) there .printer trivial mem
  · intro dialogue somebody name mem told
    have installed : told = (store.newFunction (.listener dialogue)).2.assignAll scope
        listenerNames (store.newFunction (.listener dialogue)).1 := by
      change store.installListener scope = _
      rw [installListener, somebody]
    rw [installed]
    exact calls_install reached.sound (Reached.owning reached) there (.listener dialogue) trivial
      mem

/-- The pattern of the one binding serves two names of the printer and one of the listener. -/
theorem Reached.builtins_called_under_pattern :
    let deeds :=
      [Deed.makeDialogue ["yes"], .settle ⟨true, some 0⟩,
        .assign root "print|say|learn" (.text "mine"), .child root]
    let store := deeds.foldl Deed.apply Store.fresh
    Reached store ∧ 1 < store.scopes.size ∧ store.lookup 1 "say" = .layers 0 ∧
      (let begun := (Machine.start store 1 .plain []).store
       begun.callable? (begun.lookup 1 "say") = some 0 ∧
         begun.functions.get? 0 = some .printer) ∧
      (let told := store.direct 1 "in" "dialogue"
       told.callable? (told.lookup 1 "learn") = some 0 ∧
         told.functions.get? 0 = some (.listener 0)) := by
  intro deeds store
  have does : Store.fresh.Does deeds store :=
    .cons (by decide) <| .cons (by decide) <| .cons (by decide) <| .cons (by decide +kernel) .nil
  have reached : Reached store := .of_does .fresh does
  have there : 1 < store.scopes.size := by decide +kernel
  obtain ⟨printers, listeners⟩ := reached.builtins_called there
  exact ⟨reached, there, by decide +kernel, printers .plain [] "say" (by decide),
    listeners 0 rfl "learn" (by decide)⟩

end Store

end Marginalia
