import Marginalia.Store.View
import Marginalia.Proofs.Store.Assign

/-!
# Deeds

A store changes by a few deeds only, and `Deed` lists them. `Store.Does` does them one after the
other; each has to be allowed where it is done, that is, to speak of scopes, lists and functions
that the store has made. Then nothing in the store ever speaks of anything else (`Store.Sound`).

Two of the deeds write to a binding. `Wrote` says all that a write does, seen through the bindings
and the lists: the binding it reaches, whose list is made or grows, and that nothing else changes.
All other deeds leave the bindings alone and change no list that is there
(`Deed.binding?_apply_of_quiet`, `Deed.lists_apply_of_quiet`).
-/

namespace Marginalia

/-- One thing that can be done to a store. -/
inductive Deed where
  | child (scope : ScopeId)
  | define (scope : ScopeId) (name : String) (value : Value)
  | assign (scope : ScopeId) (name : String) (value : Value)
  | settle (settings : Settings)
  | makeList (values : List Value)
  | makeFunction (function : Function)
  | makeDialogue (answers : List String)
  | takeAnswer (dialogue : Nat)
deriving Repr

/-- The store has made what the value speaks of. -/
def Value.Known (store : Store) : Value → Prop
  | .layers list => list < store.lists.size
  | .function address => address < store.functions.size
  | .nothing | .truth _ | .text _ => True

instance (store : Store) : (value : Value) → Decidable (value.Known store)
  | .layers list => inferInstanceAs (Decidable (list < store.lists.size))
  | .function address => inferInstanceAs (Decidable (address < store.functions.size))
  | .nothing | .truth _ | .text _ => inferInstanceAs (Decidable True)

/-- The store has made the scope that the function was declared in. -/
def Function.Known (store : Store) : Function → Prop
  | .declared _ _ _ home => home < store.scopes.size
  | .printer | .listener _ => True

instance (store : Store) : (function : Function) → Decidable (function.Known store)
  | .declared _ _ _ home => inferInstanceAs (Decidable (home < store.scopes.size))
  | .printer | .listener _ => inferInstanceAs (Decidable True)

/-- A value that is written to a name: to which binding, and whether in palimpsest mode. -/
structure Write where
  slot : Slot
  name : String
  value : Value
  palimpsest : Bool
deriving DecidableEq, Repr

/-- The place of the next binding of a scope. -/
def Store.vacant (store : Store) (scope : ScopeId) : Slot :=
  ⟨scope, (store.bindings scope).length⟩

namespace Deed

/-- The store after a deed. -/
def apply (store : Store) : Deed → Store
  | .child scope => store.child scope
  | .define scope name value => store.define scope name value
  | .assign scope name value => store.assign scope name value
  | .settle settings => { store with settings }
  | .makeList values => (store.newList values).2
  | .makeFunction function => (store.newFunction function).2
  | .makeDialogue answers => (store.newDialogue answers).2
  | .takeAnswer dialogue =>
    { store with dialogues := store.dialogues.update dialogue List.tail }

/-- The deed speaks only of what the store has made. -/
def Allowed (store : Store) : Deed → Prop
  | .child scope => scope < store.scopes.size
  | .define scope _ value | .assign scope _ value => scope < store.scopes.size ∧ value.Known store
  | .makeList values => ∀ value ∈ values, value.Known store
  | .makeFunction function => function.Known store
  | .settle _ | .makeDialogue _ | .takeAnswer _ => True

instance (store : Store) : (deed : Deed) → Decidable (deed.Allowed store)
  | .child scope => inferInstanceAs (Decidable (scope < store.scopes.size))
  | .define scope _ value | .assign scope _ value =>
    inferInstanceAs (Decidable (scope < store.scopes.size ∧ value.Known store))
  | .makeList values => inferInstanceAs (Decidable (∀ value ∈ values, value.Known store))
  | .makeFunction function => inferInstanceAs (Decidable (function.Known store))
  | .settle _ | .makeDialogue _ | .takeAnswer _ => inferInstanceAs (Decidable True)

/-- What the deed writes, if it writes. -/
def write? (store : Store) : Deed → Option Write
  | .define scope name value =>
    some ⟨(store.find? scope name).getD (store.vacant scope), name, value,
      store.settings.palimpsest⟩
  | .assign scope name value =>
    some ⟨(store.resolve? scope name).getD (store.vacant scope), name, value,
      store.settings.palimpsest⟩
  | _ => none

end Deed

namespace Store

/-- The store does the deeds, one after the other, and becomes another. -/
inductive Does : Store → List Deed → Store → Prop
  | nil {store : Store} : Does store [] store
  | cons {store after : Store} {deed : Deed} {deeds : List Deed} :
    deed.Allowed store → Does (deed.apply store) deeds after → Does store (deed :: deeds) after

/-- What the deeds write, one after the other. -/
def writes : Store → List Deed → List Write
  | _, [] => []
  | store, deed :: deeds => (deed.write? store).toList ++ writes (deed.apply store) deeds

variable {store middle after : Store} {deed : Deed} {deeds more : List Deed}

theorem Does.single (deed : Deed) (allowed : deed.Allowed store) :
    store.Does [deed] (deed.apply store) :=
  .cons allowed .nil

theorem Does.append (first : store.Does deeds middle) (second : middle.Does more after) :
    store.Does (deeds ++ more) after := by
  induction first with
  | nil => exact second
  | cons allowed _ ih => exact .cons allowed (ih second)

/-- What every allowed deed keeps, deeds one after the other keep. -/
theorem Does.of_keeps {holds : Store → Prop} (does : store.Does deeds after) (begins : holds store)
    (keeps : ∀ (store : Store) (deed : Deed), deed.Allowed store → holds store →
      holds (deed.apply store)) :
    holds after := by
  induction does with
  | nil => exact begins
  | cons allowed _ ih => exact ih (keeps _ _ allowed begins)

theorem Does.concat (first : store.Does deeds middle) (allowed : deed.Allowed middle) :
    store.Does (deeds ++ [deed]) (deed.apply middle) :=
  first.append (.single deed allowed)

/-! ## Searches read spellings only -/

variable {scope : ScopeId} {name : String} {slot : Slot} {binding : Binding} {value : Value}

theorem binding?_eq_getElem? (store : Store) (scope : ScopeId) (index : Nat) :
    store.binding? ⟨scope, index⟩ = (store.bindings scope)[index]? := by
  cases there : store.scopes.get? scope with
  | none => simp [binding?_of_get?_none there, bindings, there]
  | some found => simp [binding?_of_get? there, bindings, there]

theorem binding?_vacant (store : Store) (scope : ScopeId) :
    store.binding? (store.vacant scope) = none := by
  rw [vacant, binding?_eq_getElem?, List.getElem?_eq_none (Nat.le_refl _)]

theorem size_lt_child (store : Store) (scope : ScopeId) :
    store.scopes.size < (store.child scope).scopes.size :=
  Heap.size_lt_alloc _ _

theorem exists_get?_of_lt (there : scope < store.scopes.size) :
    ∃ found, store.scopes.get? scope = some found ∧
      store.vacant scope = ⟨scope, found.bindings.length⟩ := by
  have found : store.scopes.get? scope = some _ := Array.getElem?_eq_getElem there
  refine ⟨_, found, ?_⟩
  rw [vacant, bindings, found]
  rfl

end Store

/-! ## What a write does -/

/-- What becomes of the binding that a write reaches, and of the lists. -/
inductive Write.Change (store : Store) (write : Write) : Binding → Heap (List Value) → Prop
  /-- Without palimpsest the value covers what was there. -/
  | cover (spelling : String) : write.palimpsest = false →
    Change store write ⟨spelling, write.value, false⟩ store.lists
  /-- The list of a layered binding grows. -/
  | grow {spelling : String} {list : Nat} : write.palimpsest = true →
    store.binding? write.slot = some ⟨spelling, .layers list, true⟩ →
    Change store write ⟨spelling, .layers list, true⟩
      (store.lists.update list (· ++ [write.value]))
  /-- A binding that has no list yet gets one, which begins with the value it had. -/
  | begin (spelling : String) : write.palimpsest = true →
    (∀ spelling list, store.binding? write.slot ≠ some ⟨spelling, .layers list, true⟩) →
    Change store write ⟨spelling, .layers store.lists.size, true⟩
      (store.lists.alloc ((store.binding? write.slot).toList.map Binding.value ++ [write.value]))

/-- All that a write does: it leaves this binding in its place. -/
structure Wrote (store : Store) (write : Write) (binding : Binding) (after : Store) : Prop where
  here : after.binding? write.slot = some binding
  elsewhere : ∀ other, other ≠ write.slot → after.binding? other = store.binding? other
  spelling : binding.spelling = ((store.binding? write.slot).map Binding.spelling).getD write.name
  free : store.binding? write.slot = none → store.find? write.slot.scope write.name = none
  change : write.Change store binding after.lists
  chain : ∀ scope, after.chain scope = store.chain scope
  scopes : after.scopes.size = store.scopes.size
  functions : after.functions = store.functions
  settings : after.settings = store.settings

namespace Store

variable {store : Store} {scope : ScopeId} {slot : Slot} {old : Binding}

/-- Setting a binding that keeps its spelling is a write to its slot. -/
theorem wrote_setBinding (here : store.binding? slot = some old) (name : String) {value : Value}
    {palimpsest : Bool} {binding : Binding} {lists : Heap (List Value)}
    (spelling : binding.spelling = old.spelling)
    (change : Write.Change store ⟨slot, name, value, palimpsest⟩ binding lists) :
    Wrote store ⟨slot, name, value, palimpsest⟩ binding
      ({ store with lists }.setBinding slot binding) where
  here := by
    have kept : ({ store with lists } : Store).binding? slot = some old := here
    rw [binding?_setBinding, if_pos rfl, kept, Option.map_some]
  elsewhere other apart := by
    rw [binding?_setBinding, if_neg apart]
    rfl
  spelling := by rw [spelling, here, Option.map_some, Option.getD_some]
  free none := by
    rw [here] at none
    cases none
  change := change
  chain := chain_setBinding _ _ _
  scopes := Heap.size_update _ _ _
  functions := rfl
  settings := rfl

/-- Adding a binding for a name that overlaps none in the scope is a write to the vacant slot. -/
theorem wrote_addBinding (there : scope < store.scopes.size) {name : String}
    (free : store.find? scope name = none) {value content : Value} {palimpsest layered : Bool}
    {lists : Heap (List Value)}
    (change : Write.Change store ⟨store.vacant scope, name, value, palimpsest⟩
      ⟨name, content, layered⟩ lists) :
    Wrote store ⟨store.vacant scope, name, value, palimpsest⟩ ⟨name, content, layered⟩
      ({ store with lists }.addBinding scope ⟨name, content, layered⟩) := by
  obtain ⟨found, there, place⟩ := exists_get?_of_lt there
  have kept : ({ store with lists } : Store).scopes.get? scope = some found := there
  have after := binding?_addBinding kept ⟨name, content, layered⟩
  have empty := binding?_vacant store scope
  rw [← place] at after
  refine { here := ?_, elsewhere := ?_, spelling := ?_, free := fun _ => free, change := change
           chain := chain_addBinding _ _ _, scopes := Heap.size_update _ _ _
           functions := rfl, settings := rfl }
  · rw [after, if_pos rfl]
  · intro other apart
    rw [after, if_neg apart]
    rfl
  · rw [empty]
    rfl

/-- Overwriting a binding writes to its slot: in palimpsest mode its list grows or a new one is
made, and else it takes the value. -/
theorem exists_wrote_overwrite (here : store.binding? slot = some old) (name : String)
    (value : Value) :
    ∃ binding, Wrote store ⟨slot, name, value, store.settings.palimpsest⟩ binding
      (store.overwrite slot value) := by
  rw [overwrite, here]
  cases mode : store.settings.palimpsest with
  | false => exact ⟨_, wrote_setBinding here name rfl (.cover old.spelling rfl)⟩
  | true =>
    simp only [if_true]
    split
    next list layered isList =>
      have whole : old = ⟨old.spelling, .layers list, true⟩ := by rw [← layered, ← isList]
      rw [whole] at here
      exact ⟨_, { here := here, elsewhere := fun _ _ => rfl
                  spelling := by rw [here]; rfl
                  free := fun none => by rw [here] at none; cases none
                  change := .grow rfl here, chain := fun _ => rfl, scopes := rfl
                  functions := rfl, settings := rfl }⟩
    next unlayered =>
      refine ⟨⟨old.spelling, .layers store.lists.size, true⟩, wrote_setBinding here name rfl ?_⟩
      have values : (store.binding? slot).toList.map Binding.value ++ [value] =
          [old.value, value] := by
        rw [here]
        rfl
      have begun : Write.Change store ⟨slot, name, value, true⟩ _ _ :=
        .begin old.spelling rfl fun spelling list same => by
          obtain rfl : old = _ := Option.some.inj (here.symm.trans same)
          exact unlayered list rfl rfl
      rwa [values] at begun

theorem exists_wrote_bindNew (there : scope < store.scopes.size) {name : String}
    (free : store.find? scope name = none) (value : Value) :
    ∃ binding, Wrote store ⟨store.vacant scope, name, value, store.settings.palimpsest⟩ binding
      (store.bindNew scope name value) := by
  have empty := binding?_vacant store scope
  rw [bindNew]
  cases mode : store.settings.palimpsest with
  | false => exact ⟨_, wrote_addBinding there free (.cover name rfl)⟩
  | true =>
    refine ⟨⟨name, .layers store.lists.size, true⟩, wrote_addBinding there free ?_⟩
    have begun : Write.Change store ⟨store.vacant scope, name, value, true⟩ _ _ :=
      .begin name rfl fun spelling list same => by
        rw [empty] at same
        cases same
    rwa [empty] at begun

end Store

namespace Deed

variable {store : Store} {deed : Deed} {write : Write}

/-- A deed that writes does what a write does. -/
theorem exists_wrote (allowed : deed.Allowed store) (writes : deed.write? store = some write) :
    ∃ binding, Wrote store write binding (deed.apply store) := by
  cases deed with
  | define scope name value =>
    cases writes
    rw [apply, Store.define]
    cases found : store.find? scope name with
    | none => exact Store.exists_wrote_bindNew allowed.1 found value
    | some slot =>
      obtain ⟨_, ⟨old, here, _⟩, _⟩ := Store.find?_eq_some_iff.mp found
      exact Store.exists_wrote_overwrite here name value
  | assign scope name value =>
    cases writes
    rw [apply, Store.assign]
    cases found : store.resolve? scope name with
    | none =>
      have absent := found
      rw [Store.resolve?, List.findSome?_eq_none_iff] at absent
      exact Store.exists_wrote_bindNew allowed.1 (absent scope List.mem_cons_self) value
    | some slot =>
      obtain ⟨old, here, _⟩ := Store.exists_of_resolve? found
      exact Store.exists_wrote_overwrite here name value
  | child _ | settle _ | makeList _ | makeFunction _ | makeDialogue _ | takeAnswer _ => cases writes

theorem binding?_child (store : Store) (scope : ScopeId) (slot : Slot) :
    (store.child scope).binding? slot = store.binding? slot := by
  obtain ⟨around, index⟩ := slot
  have after : (store.child scope).scopes.get? around = _ := Heap.get?_alloc _ _ around
  by_cases new : around = store.scopes.size
  · have absent : store.scopes.get? around = none :=
      Array.getElem?_eq_none (Nat.le_of_eq new.symm)
    rw [if_pos new] at after
    rw [Store.binding?_of_get? after, Store.binding?_of_get?_none absent]
    rfl
  · rw [if_neg new] at after
    rw [Store.binding?, Store.binding?, after]

/-- A deed that does not write leaves the bindings alone. -/
theorem binding?_apply_of_quiet (quiet : deed.write? store = none) (slot : Slot) :
    (deed.apply store).binding? slot = store.binding? slot := by
  cases deed with
  | child scope => exact binding?_child store scope slot
  | define _ _ _ | assign _ _ _ => cases quiet
  | settle _ | makeList _ | makeFunction _ | makeDialogue _ | takeAnswer _ => rfl

/-- A deed that does not write makes a list at most. -/
theorem lists_apply_of_quiet (allowed : deed.Allowed store) (quiet : deed.write? store = none) :
    (deed.apply store).lists = store.lists ∨
      ∃ values, (∀ value ∈ values, value.Known store) ∧
        (deed.apply store).lists = store.lists.alloc values := by
  cases deed with
  | makeList values => exact .inr ⟨values, allowed, rfl⟩
  | define _ _ _ | assign _ _ _ => cases quiet
  | child _ | settle _ | makeFunction _ | makeDialogue _ | takeAnswer _ => exact .inl rfl

end Deed

/-! ## What a store has made -/

namespace Store

/-- The store has all that another has made. -/
structure Grows (store after : Store) : Prop where
  scopes : store.scopes.size ≤ after.scopes.size
  lists : store.lists.size ≤ after.lists.size
  functions : store.functions.size ≤ after.functions.size

/-- Nothing in the store speaks of what it has not made. -/
structure Sound (store : Store) : Prop where
  functions : ∀ ⦃address function⦄, store.functions.get? address = some function →
    function.Known store
  bindings : ∀ ⦃slot binding⦄, store.binding? slot = some binding → binding.value.Known store
  lists : ∀ ⦃list values⦄, store.lists.get? list = some values →
    ∀ value ∈ values, value.Known store

end Store

theorem Store.Grows.refl (store : Store) : store.Grows store :=
  ⟨Nat.le_refl _, Nat.le_refl _, Nat.le_refl _⟩

theorem Store.Grows.trans {store middle after : Store} (first : store.Grows middle)
    (second : middle.Grows after) : store.Grows after :=
  ⟨first.scopes.trans second.scopes, first.lists.trans second.lists,
    first.functions.trans second.functions⟩

theorem Value.Known.mono {store after : Store} {value : Value} (known : value.Known store)
    (grows : store.Grows after) : value.Known after := by
  cases value with
  | layers list => exact Nat.lt_of_lt_of_le known grows.lists
  | function address => exact Nat.lt_of_lt_of_le known grows.functions
  | nothing | truth _ | text _ => trivial

theorem Function.Known.mono {store after : Store} {function : Function}
    (known : function.Known store) (grows : store.Grows after) : function.Known after := by
  cases function with
  | declared name params body home => exact Nat.lt_of_lt_of_le known grows.scopes
  | printer | listener _ => trivial

theorem Wrote.grows {store after : Store} {write : Write} {binding : Binding}
    (wrote : Wrote store write binding after) : store.Grows after := by
  refine ⟨Nat.le_of_eq wrote.scopes.symm, ?_, Nat.le_of_eq (by rw [wrote.functions])⟩
  generalize found : after.lists = lists
  have change := wrote.change
  rw [found] at change
  cases change with
  | cover _ _ => exact Nat.le_refl _
  | grow _ _ => exact Nat.le_of_eq (Heap.size_update _ _ _).symm
  | begin _ _ _ =>
    rw [Heap.size_alloc]
    exact Nat.le_succ _

theorem Deed.grows {store : Store} {deed : Deed} (allowed : deed.Allowed store) :
    store.Grows (deed.apply store) := by
  cases written : deed.write? store with
  | some write =>
    obtain ⟨binding, wrote⟩ := exists_wrote allowed written
    exact wrote.grows
  | none =>
    cases deed with
    | child scope => exact ⟨Nat.le_of_lt (Store.size_lt_child store scope), le_rfl, le_rfl⟩
    | makeList values =>
      exact ⟨le_rfl, by rw [apply, Store.newList, Heap.size_alloc]; omega, le_rfl⟩
    | makeFunction function =>
      exact ⟨le_rfl, le_rfl, by rw [apply, Store.newFunction, Heap.size_alloc]; omega⟩
    | define _ _ _ | assign _ _ _ => cases written
    | settle _ | makeDialogue _ | takeAnswer _ => exact ⟨le_rfl, le_rfl, le_rfl⟩

theorem Deed.known_of_write? {store : Store} {deed : Deed} {write : Write}
    (allowed : deed.Allowed store) (written : deed.write? store = some write) :
    write.value.Known store := by
  cases deed with
  | define _ _ _ | assign _ _ _ =>
    cases written
    exact allowed.2
  | child _ | settle _ | makeList _ | makeFunction _ | makeDialogue _ | takeAnswer _ =>
    cases written

/-- All that a list of a binding begins with is known. -/
theorem Store.Sound.known_begun {store : Store} {slot : Slot} {value : Value}
    (sound : store.Sound) (known : value.Known store) :
    ∀ item ∈ (store.binding? slot).toList.map Binding.value ++ [value], item.Known store := by
  intro item mem
  rcases List.mem_append.mp mem with mem | mem
  · obtain ⟨old, there, rfl⟩ := List.mem_map.mp mem
    exact sound.bindings (Option.mem_toList.mp there)
  · rw [List.mem_singleton.mp mem]
    exact known

theorem Write.Change.known {store after : Store} {write : Write} {binding : Binding}
    (change : write.Change store binding after.lists) (sound : store.Sound)
    (grows : store.Grows after) (known : write.value.Known store) :
    binding.value.Known after := by
  generalize found : after.lists = lists at change
  cases change with
  | cover _ _ => exact known.mono grows
  | grow _ here => exact (sound.bindings here).mono grows
  | begin _ _ _ =>
    change store.lists.size < after.lists.size
    rw [found]
    exact Heap.size_lt_alloc _ _

/-- The lists after a write hold only what the store has made, as the new items are the value that
was written and the one that was there. -/
theorem Write.Change.known_items {store after : Store} {write : Write} {binding : Binding}
    (change : write.Change store binding after.lists) (sound : store.Sound)
    (grows : store.Grows after) (known : write.value.Known store) {list : Nat}
    {values : List Value} (made : after.lists.get? list = some values) :
    ∀ value ∈ values, value.Known after := by
  generalize after.lists = lists at change made
  cases change with
  | cover _ _ => exact fun value mem => (sound.lists made value mem).mono grows
  | grow _ _ =>
    rw [Heap.get?_update] at made
    split at made
    · obtain ⟨olds, there, rfl⟩ := Option.map_eq_some_iff.mp made
      intro value mem
      rcases List.mem_append.mp mem with mem | mem
      · exact (sound.lists there value mem).mono grows
      · rw [List.mem_singleton.mp mem]
        exact known.mono grows
    · exact fun value mem => (sound.lists made value mem).mono grows
  | begin _ _ _ =>
    rw [Heap.get?_alloc] at made
    split at made
    · cases made
      exact fun value mem => (sound.known_begun known value mem).mono grows
    · exact fun value mem => (sound.lists made value mem).mono grows

theorem Wrote.sound {store after : Store} {write : Write} {binding : Binding}
    (wrote : Wrote store write binding after) (sound : store.Sound)
    (known : write.value.Known store) : after.Sound where
  functions address function made := by
    rw [wrote.functions] at made
    exact (sound.functions made).mono wrote.grows
  bindings slot found here := by
    by_cases same : slot = write.slot
    · rw [same, wrote.here] at here
      cases here
      exact wrote.change.known sound wrote.grows known
    · rw [wrote.elsewhere slot same] at here
      exact (sound.bindings here).mono wrote.grows
  lists list values made := wrote.change.known_items sound wrote.grows known made

/-- An allowed deed leaves a store sound. -/
theorem Deed.sound {store : Store} {deed : Deed} (allowed : deed.Allowed store)
    (sound : store.Sound) : (deed.apply store).Sound := by
  have grows := deed.grows allowed
  cases written : deed.write? store with
  | some write =>
    obtain ⟨binding, wrote⟩ := exists_wrote allowed written
    exact wrote.sound sound (known_of_write? allowed written)
  | none =>
    refine ⟨fun address function made => ?_, fun slot binding here => ?_,
      fun list values made => ?_⟩
    · cases deed with
      | makeFunction new =>
        change (store.functions.alloc new).get? address = some function at made
        rw [Heap.get?_alloc] at made
        split at made
        · cases made
          exact Function.Known.mono allowed grows
        · exact (sound.functions made).mono grows
      | define _ _ _ | assign _ _ _ => cases written
      | child _ | settle _ | makeList _ | makeDialogue _ | takeAnswer _ =>
        exact (sound.functions made).mono grows
    · rw [binding?_apply_of_quiet written] at here
      exact (sound.bindings here).mono grows
    · rcases lists_apply_of_quiet allowed written with same | ⟨news, known, made'⟩
      · rw [same] at made
        exact fun value mem => (sound.lists made value mem).mono grows
      · rw [made', Heap.get?_alloc] at made
        split at made
        · cases made
          exact fun value mem => (known value mem).mono grows
        · exact fun value mem => (sound.lists made value mem).mono grows

namespace Store

variable {store after : Store} {deeds : List Deed}

theorem binding?_fresh (slot : Slot) : fresh.binding? slot = none := by
  obtain ⟨scope, index⟩ := slot
  cases scope <;> rfl

theorem sound_fresh : fresh.Sound where
  functions address function made := by cases made
  bindings slot binding here := by
    rw [binding?_fresh] at here
    cases here
  lists list values made := by cases made

theorem Does.grows (does : store.Does deeds after) : store.Grows after := by
  induction does with
  | nil => exact .refl _
  | cons allowed _ ih => exact (Deed.grows allowed).trans ih

theorem Does.sound (does : store.Does deeds after) (sound : store.Sound) : after.Sound :=
  does.of_keeps sound fun _ _ => Deed.sound

end Store

end Marginalia
