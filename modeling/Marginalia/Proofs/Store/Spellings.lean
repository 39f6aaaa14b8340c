import Marginalia.Proofs.Store.Deeds

/-!
# The spellings of a scope

A write to a binding that is there changes no spelling, and a new binding adds one at the end of a
single scope. So what can become of the spellings of all scopes is said by naming that scope:
`store.AddsOnly place after` holds when the scopes that were there have kept their spellings, but
for the one at `place`, to which some may have been added.

Seen from a scope without scopes around it, a write adds its name exactly if no spelling of the
scope shares a name with it (`Alone.spellings_assign`).
-/

namespace Marginalia

/-- The spellings with one more at the end, unless one of them shares a name with it. -/
def addSpelling (spellings : List String) (name : String) : List String :=
  if spellings.any (spellingsOverlap · name) then spellings else spellings ++ [name]

theorem prefix_addSpelling (spellings : List String) (name : String) :
    spellings <+: addSpelling spellings name := by
  unfold addSpelling
  split
  · exact List.prefix_rfl
  · exact List.prefix_append _ _

theorem prefix_foldl_addSpelling (names spellings : List String) :
    spellings <+: names.foldl addSpelling spellings := by
  induction names generalizing spellings with
  | nil => exact List.prefix_rfl
  | cons name names ih => exact (prefix_addSpelling spellings name).trans (ih _)

namespace Store

variable {store middle after : Store} {scope : ScopeId} {place : Option ScopeId}

/-- The spellings of the bindings of a scope, oldest first. -/
def spellings (store : Store) (scope : ScopeId) : List String :=
  (store.bindings scope).map Binding.spelling

theorem spellings_of_get? {found : Scope} (there : store.scopes.get? scope = some found) :
    store.spellings scope = found.bindings.map Binding.spelling := by
  rw [spellings, bindings, there]
  rfl

theorem isSome_find? (store : Store) (scope : ScopeId) (name : String) :
    (store.find? scope name).isSome = (store.spellings scope).any (spellingsOverlap · name) := by
  cases there : store.scopes.get? scope with
  | none => simp [find?_of_get?_none there, spellings, bindings, there]
  | some found =>
    rw [find?_of_get? there, spellings_of_get? there, Option.isSome_map, List.any_map,
      List.findIdx?_isSome]
    rfl

/-! ## What becomes of the spellings -/

/-- The scopes that the store has made stand where they stood and have the same spellings, but for
the one at `place`; and nobody else is asked. -/
structure AddsOnly (place : Option ScopeId) (store after : Store) : Prop where
  size : store.scopes.size ≤ after.scopes.size
  chain : ∀ scope < store.scopes.size, after.chain scope = store.chain scope
  spellings : ∀ scope < store.scopes.size, place ≠ some scope →
    after.spellings scope = store.spellings scope
  dialogue : after.settings.dialogue = store.settings.dialogue

namespace AddsOnly

theorem refl (place : Option ScopeId) (store : Store) : store.AddsOnly place store :=
  ⟨Nat.le_refl _, fun _ _ => rfl, fun _ _ _ => rfl, rfl⟩

theorem trans (first : store.AddsOnly place middle) (second : middle.AddsOnly place after) :
    store.AddsOnly place after where
  size := first.size.trans second.size
  chain scope there := by
    rw [second.chain scope (Nat.lt_of_lt_of_le there first.size), first.chain scope there]
  spellings scope there elsewhere := by
    rw [second.spellings scope (Nat.lt_of_lt_of_le there first.size) elsewhere,
      first.spellings scope there elsewhere]
  dialogue := by rw [second.dialogue, first.dialogue]

theorem unchanged (adds : store.AddsOnly none after) (there : scope < store.scopes.size) :
    after.spellings scope = store.spellings scope :=
  adds.spellings scope there (Option.some_ne_none scope).symm

theorem anywhere (adds : store.AddsOnly none after) : store.AddsOnly place after :=
  ⟨adds.size, adds.chain, fun _ there _ => adds.unchanged there, adds.dialogue⟩

/-- What is added to a scope with a later number is added to none of those that were there. -/
theorem of_new (adds : store.AddsOnly (some scope) after) (new : store.scopes.size ≤ scope) :
    store.AddsOnly none after := by
  refine ⟨adds.size, adds.chain, fun other there _ => adds.spellings other there ?_, adds.dialogue⟩
  rintro ⟨⟩
  exact absurd there (Nat.not_lt_of_le new)

/-- What is added to a scope that was not there before is added to none of those that were. -/
theorem of_child {home : ScopeId}
    (inside : (store.child home).AddsOnly (some store.scopes.size) after) :
    store.AddsOnly none after := by
  have size : (store.child home).scopes.size = store.scopes.size + 1 := Heap.size_alloc _ _
  have old : ∀ scope < store.scopes.size,
      (store.child home).scopes.get? scope = store.scopes.get? scope := by
    intro scope there
    have made : (store.child home).scopes.get? scope = _ := Heap.get?_alloc _ _ scope
    rwa [if_neg (Nat.ne_of_lt there)] at made
  refine ⟨?_, fun scope there => ?_, fun scope there _ => ?_, inside.dialogue⟩
  · have grown := inside.size
    omega
  · rw [inside.chain scope (by omega), Store.chain, Store.chain, old scope there]
  · have apart : some store.scopes.size ≠ some scope := by
      simp only [ne_eq, Option.some.injEq]
      omega
    rw [inside.spellings scope (by omega) apart, Store.spellings, Store.spellings, bindings,
      bindings, old scope there]

end AddsOnly

/-! ## Writes -/

/-- Setting a binding that keeps its spelling keeps the spellings of every scope. -/
theorem spellings_setBinding {slot : Slot} {old binding : Binding}
    (here : store.binding? slot = some old) (same : binding.spelling = old.spelling)
    (scope : ScopeId) :
    (store.setBinding slot binding).spellings scope = store.spellings scope := by
  have made := get?_setBinding store slot binding scope
  cases there : store.scopes.get? scope with
  | none =>
    rw [there] at made
    rw [spellings, spellings, bindings, bindings, there, made]
    rfl
  | some found =>
    rw [there, Option.map_some] at made
    rw [spellings_of_get? made, spellings_of_get? there]
    split
    next home =>
      obtain ⟨home, index⟩ := slot
      subst home
      rw [binding?_of_get? there] at here
      obtain ⟨inside, rfl⟩ := List.getElem?_eq_some_iff.mp here
      apply List.ext_getElem?
      intro place
      rw [List.getElem?_map, List.getElem?_map, List.getElem?_set]
      split
      next hit => simp [← hit, inside, same]
      next => rfl
    next => rfl

theorem addsOnly_setBinding {slot : Slot} {old binding : Binding}
    (here : store.binding? slot = some old) (same : binding.spelling = old.spelling) :
    store.AddsOnly none (store.setBinding slot binding) where
  size := Nat.le_of_eq (Heap.size_update _ _ _).symm
  chain scope _ := chain_setBinding store slot binding scope
  spellings scope _ _ := spellings_setBinding here same scope
  dialogue := rfl

theorem addsOnly_newList (store : Store) (values : List Value) :
    store.AddsOnly place (store.newList values).2 :=
  ⟨Nat.le_refl _, fun _ _ => rfl, fun _ _ _ => rfl, rfl⟩

/-- A write to a binding that is there adds nothing. -/
theorem addsOnly_overwrite (store : Store) (slot : Slot) (value : Value) :
    store.AddsOnly none (store.overwrite slot value) := by
  unfold overwrite
  cases here : store.binding? slot with
  | none => exact .refl none store
  | some old =>
    dsimp only
    split
    · split
      · exact ⟨Nat.le_refl _, fun _ _ => rfl, fun _ _ _ => rfl, rfl⟩
      · have same : (store.newList [old.value, value]).2.binding? slot = some old := here
        exact (addsOnly_newList store _).trans (addsOnly_setBinding same rfl)
    · exact addsOnly_setBinding here rfl

theorem spellings_addBinding (there : scope < store.scopes.size) (binding : Binding) :
    (store.addBinding scope binding).spellings scope =
      store.spellings scope ++ [binding.spelling] := by
  obtain ⟨found, here, _⟩ := exists_get?_of_lt there
  have made := get?_addBinding store scope binding scope
  rw [here, Option.map_some, if_pos rfl] at made
  rw [spellings_of_get? made, spellings_of_get? here, List.map_append]
  rfl

theorem addsOnly_addBinding (store : Store) (scope : ScopeId) (binding : Binding) :
    store.AddsOnly (some scope) (store.addBinding scope binding) where
  size := Nat.le_of_eq (Heap.size_update _ _ _).symm
  chain other _ := chain_addBinding store scope binding other
  spellings other _ apart := by
    have made := get?_addBinding store scope binding other
    simp only [if_neg fun same : scope = other => apart (congrArg some same),
      Option.map_id'] at made
    rw [Store.spellings, Store.spellings, bindings, bindings, made]
  dialogue := rfl

theorem addsOnly_bindNew (store : Store) (scope : ScopeId) (name : String) (value : Value) :
    store.AddsOnly (some scope) (store.bindNew scope name value) := by
  unfold bindNew
  split
  · exact (addsOnly_newList store [value]).trans (addsOnly_addBinding _ scope _)
  · exact addsOnly_addBinding store scope _

theorem spellings_bindNew (there : scope < store.scopes.size) (name : String) (value : Value) :
    (store.bindNew scope name value).spellings scope = store.spellings scope ++ [name] := by
  unfold bindNew
  split
  · have made : scope < (store.newList [value]).2.scopes.size := there
    exact spellings_addBinding made _
  · exact spellings_addBinding there _

theorem addsOnly_define (store : Store) (scope : ScopeId) (name : String) (value : Value) :
    store.AddsOnly (some scope) (store.define scope name value) := by
  unfold define
  split
  · exact (addsOnly_overwrite store _ value).anywhere
  · exact addsOnly_bindNew store scope name value

theorem addsOnly_assign (store : Store) (scope : ScopeId) (name : String) (value : Value) :
    store.AddsOnly (some scope) (store.assign scope name value) := by
  unfold assign
  split
  · exact (addsOnly_overwrite store _ value).anywhere
  · exact addsOnly_bindNew store scope name value

theorem addsOnly_assignAll (store : Store) (scope : ScopeId) (names : List String)
    (value : Value) : store.AddsOnly (some scope) (store.assignAll scope names value) := by
  unfold assignAll
  induction names generalizing store with
  | nil => exact .refl _ store
  | cons name names ih => exact (addsOnly_assign store scope name value).trans (ih _)

theorem addsOnly_newFunction (store : Store) (function : Function) :
    store.AddsOnly place (store.newFunction function).2 :=
  ⟨Nat.le_refl _, fun _ _ => rfl, fun _ _ _ => rfl, rfl⟩

theorem addsOnly_installListener (store : Store) (scope : ScopeId) :
    store.AddsOnly (some scope) (store.installListener scope) := by
  unfold installListener
  split
  · exact .refl _ store
  · exact (addsOnly_newFunction store _).trans (addsOnly_assignAll _ scope listenerNames _)

theorem addsOnly_direct (store : Store) (scope : ScopeId) (name value : String) :
    store.AddsOnly (some scope) (store.direct scope name value) := by
  unfold direct
  split
  · exact ⟨Nat.le_refl _, fun _ _ => rfl, fun _ _ _ => rfl, rfl⟩
  split
  · exact addsOnly_installListener store scope
  · exact addsOnly_assign store scope name _

/-! ## Writes at the top -/

/-- The scope has been made, and there are no scopes around it. -/
structure Alone (store : Store) (scope : ScopeId) : Prop where
  there : scope < store.scopes.size
  chain : store.chain scope = [scope]

theorem Alone.of_addsOnly (alone : store.Alone scope) (adds : store.AddsOnly place after) :
    after.Alone scope :=
  ⟨Nat.lt_of_lt_of_le alone.there adds.size, by rw [adds.chain scope alone.there, alone.chain]⟩

/-- A scope alone takes a name that none of its spellings shares a name with. -/
theorem Alone.spellings_assign (alone : store.Alone scope) (name : String) (value : Value) :
    (store.assign scope name value).spellings scope =
      addSpelling (store.spellings scope) name := by
  have found : store.resolve? scope name = store.find? scope name := by
    rw [resolve?, alone.chain, List.findSome?_singleton]
  have shares := isSome_find? store scope name
  unfold assign addSpelling
  rw [found, ← shares]
  cases store.find? scope name with
  | none => exact spellings_bindNew alone.there name value
  | some slot => exact (addsOnly_overwrite store slot value).unchanged alone.there

theorem Alone.spellings_assignAll (alone : store.Alone scope) (names : List String)
    (value : Value) :
    (store.assignAll scope names value).spellings scope =
      names.foldl addSpelling (store.spellings scope) := by
  unfold assignAll
  induction names generalizing store with
  | nil => rfl
  | cons name names ih =>
    have next := alone.of_addsOnly (addsOnly_assign store scope name value)
    rw [List.foldl_cons, List.foldl_cons, ih next, alone.spellings_assign]

end Store

end Marginalia
