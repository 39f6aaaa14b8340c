import Marginalia.Proofs.Store.Finding

/-!
# What an assignment does to the readers of a scope

Without palimpsest an assignment either writes to the one binding that the name
resolves to, or adds a binding at the end of the scope if the whole chain has
none. The first leaves every search as it was, since no spelling changes
(`resolve?_setBinding`). The second gives names to the new binding that resolved
to nothing before, and leaves all others (`resolve?_addBinding`).

`assign_effect` puts this together for every plain name, and says what becomes of
every binding of the store. `assign_spelled` is about the names that the spelling
itself accepts: those that the binding it resolves to does not accept keep their
value, so an alternation reaches all of its names only where the chain is free of
them (`assign_her_or_him`).
-/

namespace Marginalia

open Pattern (ofSpelling)

namespace Store

variable {store : Store} {scope : ScopeId} {name : String} {value : Value} {slot : Slot}
  {found : Scope}

/-! ## Writing to a binding -/

theorem get?_setBinding (store : Store) (slot : Slot) (binding : Binding) (other : ScopeId) :
    (store.setBinding slot binding).scopes.get? other =
      (store.scopes.get? other).map fun found =>
        if slot.scope = other then { found with bindings := found.bindings.set slot.index binding }
        else found := by
  rw [setBinding, Heap.get?_update]
  by_cases same : slot.scope = other
  · simp only [if_pos same]
  · simp only [if_neg same, Option.map_id']

/-- Setting a binding changes the binding of its slot, if there is one, and of no other. -/
theorem binding?_setBinding (store : Store) (slot : Slot) (binding : Binding) (other : Slot) :
    (store.setBinding slot binding).binding? other =
      if other = slot then (store.binding? slot).map fun _ => binding
      else store.binding? other := by
  obtain ⟨home, index⟩ := slot
  obtain ⟨around, place⟩ := other
  have after := get?_setBinding store ⟨home, index⟩ binding around
  by_cases same : home = around
  · subst same
    cases there : store.scopes.get? home with
    | none =>
      rw [there, Option.map_none] at after
      simp only [binding?_of_get?_none there, binding?_of_get?_none after, Option.map_none,
        ite_self]
    | some found =>
      rw [there, Option.map_some, if_pos rfl] at after
      rw [binding?_of_get? after, binding?_of_get? there, binding?_of_get? there,
        List.getElem?_set]
      by_cases here : index = place
      · subst here
        rw [if_pos rfl, if_pos rfl]
        split
        next inside => rw [List.getElem?_eq_getElem inside, Option.map_some]
        next outside => rw [List.getElem?_eq_none (Nat.le_of_not_lt outside), Option.map_none]
      · rw [if_neg here, if_neg fun same => here (Slot.mk.inj same).2.symm]
  · simp only [if_neg same, Option.map_id'] at after
    rw [if_neg fun equal => same (Slot.mk.inj equal).1.symm, binding?, binding?, after]

theorem chain_setBinding (store : Store) (slot : Slot) (binding : Binding) (scope : ScopeId) :
    (store.setBinding slot binding).chain scope = store.chain scope := by
  rw [chain, chain, get?_setBinding]
  cases store.scopes.get? scope with
  | none => rfl
  | some found =>
    change _ :: (if slot.scope = scope then _ else found).outer = _
    split <;> rfl

/-- A write that keeps the spelling leaves every search as it was. -/
theorem resolve?_setBinding {old : Binding} (here : store.binding? slot = some old)
    (new : Binding) (same : new.spelling = old.spelling) (scope : ScopeId) (name : String) :
    (store.setBinding slot new).resolve? scope name = store.resolve? scope name := by
  have kept : ∀ around, (store.setBinding slot new).find? around name =
      store.find? around name := by
    intro around
    cases there : store.scopes.get? around with
    | none =>
      rw [find?_of_get?_none there, find?_of_get?_none]
      rw [get?_setBinding, there]
      rfl
    | some found =>
      have after := get?_setBinding store slot new around
      rw [there, Option.map_some] at after
      rw [find?_of_get? there, find?_of_get? after]
      split
      next home =>
        subst home
        obtain ⟨home, index⟩ := slot
        rw [binding?_of_get? there, List.getElem?_eq_some_iff] at here
        obtain ⟨inside, here⟩ := here
        -- The search reads the spellings only, and these are the same list.
        have spellings : (found.bindings.set index new).map Binding.spelling =
            found.bindings.map Binding.spelling := by
          have inside' : index < (found.bindings.map Binding.spelling).length := by
            rwa [List.length_map]
          rw [List.map_set, same, ← here, ← List.getElem_map Binding.spelling (h := inside'),
            List.set_getElem_self]
        have search : ∀ bindings : List Binding, bindings.findIdx?
            (fun binding => spellingsOverlap binding.spelling name) =
              (bindings.map Binding.spelling).findIdx? (spellingsOverlap · name) := by
          intro bindings
          rw [List.findIdx?_map]
          rfl
        rw [search, search, spellings]
      next => rfl
  rw [resolve?, resolve?, chain_setBinding]
  exact congrArg (fun search => (store.chain scope).findSome? search) (funext kept)

/-! ## Adding a binding -/

theorem get?_addBinding (store : Store) (scope : ScopeId) (binding : Binding) (other : ScopeId) :
    (store.addBinding scope binding).scopes.get? other =
      (store.scopes.get? other).map fun found =>
        if scope = other then { found with bindings := found.bindings ++ [binding] }
        else found := by
  rw [addBinding, Heap.get?_update]
  by_cases same : scope = other
  · simp only [if_pos same]
  · simp only [if_neg same, Option.map_id']

/-- Adding a binding to a scope fills the slot behind its last one. -/
theorem binding?_addBinding (there : store.scopes.get? scope = some found) (binding : Binding)
    (other : Slot) :
    (store.addBinding scope binding).binding? other =
      if other = ⟨scope, found.bindings.length⟩ then some binding else store.binding? other := by
  obtain ⟨around, place⟩ := other
  have after := get?_addBinding store scope binding around
  by_cases same : scope = around
  · subst same
    rw [there, Option.map_some, if_pos rfl] at after
    rw [binding?_of_get? after, binding?_of_get? there]
    by_cases last : place = found.bindings.length
    · subst last
      rw [if_pos rfl, List.getElem?_concat_length]
    · rw [if_neg fun equal => last (Slot.mk.inj equal).2, List.getElem?_append]
      split
      next => rfl
      next outside =>
        rw [List.getElem?_eq_none (Nat.le_of_not_lt outside), List.getElem?_eq_none]
        rw [List.length_singleton]
        omega
  · simp only [if_neg same, Option.map_id'] at after
    rw [if_neg fun equal => same (Slot.mk.inj equal).1.symm, binding?, binding?, after]

theorem chain_addBinding (store : Store) (added : ScopeId) (binding : Binding) (scope : ScopeId) :
    (store.addBinding added binding).chain scope = store.chain scope := by
  rw [chain, chain, get?_addBinding]
  cases store.scopes.get? scope with
  | none => rfl
  | some found =>
    change _ :: (if added = scope then _ else found).outer = _
    split <;> rfl

theorem find?_addBinding (there : store.scopes.get? scope = some found) (binding : Binding)
    (around : ScopeId) (name : String) :
    (store.addBinding scope binding).find? around name =
      (store.find? around name).or
        (if scope = around ∧ spellingsOverlap binding.spelling name = true then
          some ⟨scope, found.bindings.length⟩ else none) := by
  have after := get?_addBinding store scope binding around
  by_cases same : scope = around
  · subst same
    rw [there, Option.map_some, if_pos rfl] at after
    rw [find?_of_get? after, find?_of_get? there, List.findIdx?_append, List.findIdx?_singleton]
    cases found.bindings.findIdx? fun binding => spellingsOverlap binding.spelling name with
    | some index => rfl
    | none => cases spellingsOverlap binding.spelling name <;> simp
  · simp only [if_neg same, Option.map_id'] at after
    rw [if_neg fun both => same both.1, Option.or_none, find?, find?, after]

/-- A new binding is found by the names that share a name with it and resolved to nothing, and by
no other. -/
theorem resolve?_addBinding (there : store.scopes.get? scope = some found) (binding : Binding)
    (name : String) (free : spellingsOverlap binding.spelling name = true →
      store.resolve? scope name = none) :
    (store.addBinding scope binding).resolve? scope name =
      if spellingsOverlap binding.spelling name = true then some ⟨scope, found.bindings.length⟩
      else store.resolve? scope name := by
  rw [resolve?, chain_addBinding]
  split
  next shares =>
    have absent := free shares
    rw [resolve?, List.findSome?_eq_none_iff] at absent
    rw [chain, List.findSome?_cons, find?_addBinding there, absent scope List.mem_cons_self,
      if_pos ⟨rfl, shares⟩]
    rfl
  next apart =>
    have kept : ∀ around, (store.addBinding scope binding).find? around name =
        store.find? around name := by
      intro around
      rw [find?_addBinding there, if_neg fun both => apart both.2, Option.or_none]
    rw [resolve?]
    exact congrArg (fun search => (store.chain scope).findSome? search) (funext kept)

/-! ## Assignments -/

theorem assign_of_resolve? (single : store.settings.palimpsest = false)
    (resolved : store.resolve? scope name = some slot) {binding : Binding}
    (here : store.binding? slot = some binding) :
    store.assign scope name value = store.setBinding slot ⟨binding.spelling, value, false⟩ := by
  rw [assign, resolved]
  change store.overwrite slot value = _
  rw [overwrite, here]
  simp only [single, Bool.false_eq_true, if_false]

theorem assign_of_resolve?_none (single : store.settings.palimpsest = false)
    (unresolved : store.resolve? scope name = none) :
    store.assign scope name value = store.addBinding scope ⟨name, value, false⟩ := by
  rw [assign, unresolved]
  change store.bindNew scope name value = _
  rw [bindNew, single]
  rfl

/-- What a name reads after an assignment to a binding that was there. -/
theorem lookup_assign_of_resolve? (single : store.settings.palimpsest = false)
    (resolved : store.resolve? scope name = some slot) (reader : String) :
    (store.assign scope name value).lookup scope reader =
      if store.resolve? scope reader = some slot then value else store.lookup scope reader := by
  obtain ⟨binding, here, _⟩ := exists_of_resolve? resolved
  rw [assign_of_resolve? single resolved here]
  have search := resolve?_setBinding here ⟨binding.spelling, value, false⟩ rfl scope reader
  cases found : store.resolve? scope reader with
  | none =>
    rw [found] at search
    rw [lookup_of_resolve?_none search, lookup_of_resolve?_none found]
    rfl
  | some other =>
    rw [found] at search
    obtain ⟨old, there, _⟩ := exists_of_resolve? found
    have after := binding?_setBinding store slot ⟨binding.spelling, value, false⟩ other
    by_cases same : other = slot
    · subst same
      rw [if_pos rfl, here, Option.map_some] at after
      rw [lookup_of_resolve? search after, if_pos rfl]
    · rw [if_neg same, there] at after
      rw [lookup_of_resolve? search after, lookup_of_resolve? found there,
        if_neg fun equal => same (Option.some.inj equal)]

/-- What a name reads after an assignment that had to add a binding. -/
theorem lookup_assign_of_resolve?_none (single : store.settings.palimpsest = false)
    (there : store.scopes.get? scope = some found)
    (unresolved : store.resolve? scope name = none) (reader : String)
    (free : spellingsOverlap name reader = true → store.resolve? scope reader = none) :
    (store.assign scope name value).lookup scope reader =
      if spellingsOverlap name reader = true then value else store.lookup scope reader := by
  rw [assign_of_resolve?_none single unresolved]
  have search := resolve?_addBinding there ⟨name, value, false⟩ reader free
  split
  next shares =>
    rw [if_pos shares] at search
    have after := binding?_addBinding there ⟨name, value, false⟩ ⟨scope, found.bindings.length⟩
    rw [if_pos rfl] at after
    exact lookup_of_resolve? search after
  next apart =>
    rw [if_neg apart] at search
    cases resolved : store.resolve? scope reader with
    | none =>
      rw [resolved] at search
      rw [lookup_of_resolve?_none search, lookup_of_resolve?_none resolved]
    | some slot =>
      rw [resolved] at search
      obtain ⟨binding, here, _⟩ := exists_of_resolve? resolved
      have after := binding?_addBinding there ⟨name, value, false⟩ slot
      -- The new place was empty before, so what is there was found elsewhere.
      have elsewhere : slot ≠ ⟨scope, found.bindings.length⟩ := by
        rintro rfl
        rw [binding?_of_get? there, List.getElem?_eq_none (Nat.le_refl _)] at here
        cases here
      rw [if_neg elsewhere, here] at after
      rw [lookup_of_resolve? search after, lookup_of_resolve? resolved here]

/-- A plain name that the spelling accepts resolves to nothing if the spelling does. -/
theorem resolve?_none_of_accepts (unresolved : store.resolve? scope name = none) {reader : String}
    (plain : IsPlainName reader) (shares : spellingsOverlap name reader = true) :
    store.resolve? scope reader = none := by
  rw [spellingsOverlap_of_plain plain] at shares
  exact resolve?_narrower_none (narrower_of_accepts plain shares) unresolved

theorem lookup_assign_self (single : store.settings.palimpsest = false)
    (there : store.scopes.get? scope = some found) (name : String) (value : Value) :
    (store.assign scope name value).lookup scope name = value := by
  cases resolved : store.resolve? scope name with
  | some slot => rw [lookup_assign_of_resolve? single resolved, if_pos resolved]
  | none =>
    rw [lookup_assign_of_resolve?_none single there resolved name fun _ => resolved,
      if_pos (spellingsOverlap_self name)]

/-- The bindings that were there keep their place and spelling, and only the one that the name
resolves to gets the value. -/
theorem binding?_assign_of_some (single : store.settings.palimpsest = false)
    (there : store.scopes.get? scope = some found) (name : String) (value : Value)
    {binding : Binding} (here : store.binding? slot = some binding) :
    (store.assign scope name value).binding? slot =
      some (if store.resolve? scope name = some slot then ⟨binding.spelling, value, false⟩
        else binding) := by
  cases resolved : store.resolve? scope name with
  | some other =>
    obtain ⟨old, oldHere, _⟩ := exists_of_resolve? resolved
    rw [assign_of_resolve? single resolved oldHere, binding?_setBinding]
    by_cases same : slot = other
    · subst same
      obtain rfl : old = binding := Option.some.inj (oldHere.symm.trans here)
      rw [if_pos rfl, if_pos rfl, here, Option.map_some]
    · rw [if_neg same, if_neg fun equal => same (Option.some.inj equal).symm, here]
  | none =>
    have elsewhere : slot ≠ ⟨scope, found.bindings.length⟩ := by
      rintro rfl
      rw [binding?_of_get? there, List.getElem?_eq_none (Nat.le_refl _)] at here
      cases here
    rw [assign_of_resolve?_none single resolved, binding?_addBinding there, if_neg elsewhere, here]
    rfl

/-- The one new place is the end of the scope, and it is taken only if the name resolves to
nothing. -/
theorem binding?_assign_of_none (single : store.settings.palimpsest = false)
    (there : store.scopes.get? scope = some found) (name : String) (value : Value)
    (empty : store.binding? slot = none) :
    (store.assign scope name value).binding? slot =
      if store.resolve? scope name = none ∧ slot = ⟨scope, found.bindings.length⟩ then
        some ⟨name, value, false⟩
      else none := by
  cases resolved : store.resolve? scope name with
  | some other =>
    obtain ⟨old, oldHere, _⟩ := exists_of_resolve? resolved
    have apart : slot ≠ other := by
      rintro rfl
      rw [oldHere] at empty
      cases empty
    rw [assign_of_resolve? single resolved oldHere, binding?_setBinding, if_neg apart, empty]
    rfl
  | none =>
    rw [assign_of_resolve?_none single resolved, binding?_addBinding there, empty]
    simp only [true_and]

/-- Nothing but bindings is changed. -/
theorem assign_frame (single : store.settings.palimpsest = false) (scope : ScopeId) (name : String)
    (value : Value) : { store.assign scope name value with scopes := store.scopes } = store := by
  cases resolved : store.resolve? scope name with
  | some slot =>
    obtain ⟨binding, here, _⟩ := exists_of_resolve? resolved
    rw [assign_of_resolve? single resolved here]
    rfl
  | none =>
    rw [assign_of_resolve?_none single resolved]
    rfl

/-- What an assignment without palimpsest does. The name itself reads the value. A plain name reads
it if it resolved to the binding that the name resolved to, or if the name resolved to nothing and
its spelling accepts the plain name; otherwise it reads what it read before. One binding at most is
written to, and one is added, at the end of the scope, exactly if no binding of the chain shares a
name with the spelling. -/
theorem assign_effect (single : store.settings.palimpsest = false)
    (there : store.scopes.get? scope = some found) (name : String) (value : Value) :
    (store.assign scope name value).lookup scope name = value ∧
    (∀ reader, IsPlainName reader →
      (store.assign scope name value).lookup scope reader =
        if (store.resolve? scope name ≠ none ∧
              store.resolve? scope reader = store.resolve? scope name) ∨
            (store.resolve? scope name = none ∧
              (ofSpelling name.toList).accepts reader.toList = true)
        then value else store.lookup scope reader) ∧
    (∀ slot binding, store.binding? slot = some binding →
      (store.assign scope name value).binding? slot =
        some (if store.resolve? scope name = some slot then ⟨binding.spelling, value, false⟩
          else binding)) ∧
    (∀ slot, store.binding? slot = none →
      (store.assign scope name value).binding? slot =
        if store.resolve? scope name = none ∧ slot = ⟨scope, found.bindings.length⟩ then
          some ⟨name, value, false⟩
        else none) ∧
    (store.resolve? scope name = none ↔ ∀ around ∈ store.chain scope, ∀ index binding,
      store.binding? ⟨around, index⟩ = some binding →
      spellingsOverlap binding.spelling name = false) ∧
    { store.assign scope name value with scopes := store.scopes } = store := by
  refine ⟨lookup_assign_self single there name value, fun reader plain => ?_,
    fun slot binding => binding?_assign_of_some single there name value,
    fun slot => binding?_assign_of_none single there name value, resolve?_eq_none_iff,
    assign_frame single scope name value⟩
  cases resolved : store.resolve? scope name with
  | some slot =>
    rw [lookup_assign_of_resolve? single resolved]
    simp only [ne_eq, reduceCtorEq, not_false_eq_true, true_and, false_and, or_false]
  | none =>
    rw [lookup_assign_of_resolve?_none single there resolved reader
      (resolve?_none_of_accepts resolved plain), spellingsOverlap_of_plain plain]
    simp only [ne_eq, not_true_eq_false, false_and, true_and, false_or]

/-- Writing `him|them` in a scope inside reaches the binding of `her|him` in the scope around it.
Then `her`, which the written spelling does not accept, reads the new value, and `them`, which it
does accept, does not. -/
theorem assign_effect_from_inside :
    let store := (fresh.assign root "her|him" (.text "sun")).child root
    store.settings.palimpsest = false ∧ store.scopes.get? 1 = some ⟨[root], []⟩ ∧
      (store.assign 1 "him|them" (.text "moon")).lookup 1 "her" = .text "moon" ∧
      (store.assign 1 "him|them" (.text "moon")).lookup 1 "them" = .text "them" := by
  refine ⟨rfl, rfl, ?_, ?_⟩
  · rw [(assign_effect rfl rfl _ _).2.1 "her" (by decide)]
    decide +kernel
  · rw [(assign_effect rfl rfl _ _).2.1 "them" (by decide)]
    decide +kernel

/-! ## The names of an alternation -/

/-- A store that writing to names and making scopes leads to. -/
inductive Grown : Store → Prop
  | fresh : Grown .fresh
  | child {store : Store} {scope : ScopeId} :
    Grown store → scope < store.scopes.size → Grown (store.child scope)
  | define {store : Store} {scope : ScopeId} (name : String) (value : Value) :
    Grown store → scope < store.scopes.size → Grown (store.define scope name value)
  | assign {store : Store} {scope : ScopeId} (name : String) (value : Value) :
    Grown store → scope < store.scopes.size → Grown (store.assign scope name value)

/-- An alternation does not bind every name it spells: `her|him` is written to the binding of
`her`, and `him` stays what it was. -/
theorem assign_her_or_him :
    ¬ ∀ store, Grown store → store.settings.palimpsest = false → ∀ scope < store.scopes.size,
      ∀ (name : String) (value : Value) (reader : String), IsPlainName reader →
        (ofSpelling name.toList).accepts reader.toList = true →
        (store.assign scope name value).lookup scope reader = value := by
  intro binds
  have moon := binds (fresh.assign root "her" (.text "sun"))
    (.assign "her" (.text "sun") .fresh (by decide)) rfl root (by decide +kernel) "her|him"
    (.text "moon") "him" (by decide) (by decide)
  exact absurd moon (by decide +kernel)

/-- An assignment reaches a plain name that its spelling accepts if the spelling resolves to nothing
or to a binding that accepts the name, too. All other names that the spelling accepts keep their
value. -/
theorem assign_spelled (single : store.settings.palimpsest = false)
    (there : store.scopes.get? scope = some found) (name : String) (value : Value)
    {reader : String} (plain : IsPlainName reader)
    (accepts : (ofSpelling name.toList).accepts reader.toList = true) :
    (store.assign scope name value).lookup scope reader =
      match (store.resolve? scope name).bind store.binding? with
      | none => value
      | some binding =>
        if (ofSpelling binding.spelling.toList).accepts reader.toList = true then value
        else store.lookup scope reader := by
  cases resolved : store.resolve? scope name with
  | none =>
    have shares : spellingsOverlap name reader = true := by
      rw [spellingsOverlap_of_plain plain]
      exact accepts
    rw [lookup_assign_of_resolve?_none single there resolved reader
      (resolve?_none_of_accepts resolved plain), if_pos shares]
    rfl
  | some slot =>
    obtain ⟨binding, here, _⟩ := exists_of_resolve? resolved
    rw [lookup_assign_of_resolve? single resolved, Option.bind_some, here]
    -- A binding before this one would have served the wider spelling as well.
    have same : store.resolve? scope reader = some slot ↔
        (ofSpelling binding.spelling.toList).accepts reader.toList = true := by
      rw [← spellingsOverlap_of_plain plain]
      constructor
      · intro served
        obtain ⟨other, there, shares⟩ := exists_of_resolve? served
        rwa [Option.some.inj (here.symm.trans there)]
      · exact resolve?_narrower (narrower_of_accepts plain accepts) resolved here
    simp only [same]

/-- Writing `her|him` over a binding of `her`: the one name reads the new value, and the other is
still unbound. -/
theorem assign_spelled_over_her :
    let store := fresh.assign root "her" (.text "sun")
    store.settings.palimpsest = false ∧
      store.scopes.get? root = some ⟨[], [⟨"her", .text "sun", false⟩]⟩ ∧
      (store.assign root "her|him" (.text "moon")).lookup root "her" = .text "moon" ∧
      (store.assign root "her|him" (.text "moon")).lookup root "him" = .text "him" := by
  refine ⟨rfl, rfl, ?_, ?_⟩
  · rw [assign_spelled rfl rfl "her|him" (.text "moon") (by decide) (by decide)]
    decide +kernel
  · rw [assign_spelled rfl rfl "her|him" (.text "moon") (by decide) (by decide)]
    decide +kernel

end Store

end Marginalia
