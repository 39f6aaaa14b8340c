import Marginalia.Proofs.Running.Deeds

/-!
# The bindings of a scope share no name

A binding is added to a scope only where a search of that scope has found nothing, so its spelling
shares no name with those that are there; and no write changes a spelling. Hence the bindings of
one scope stay apart (`Wrote.apart`, `Deed.apart`), whatever is done to a store.

Of bindings that are apart at most one accepts a plain name. So a search gives the same binding in
whatever order they were added (`lookup_of_reordered`).
-/

namespace Marginalia

open Pattern (ofSpelling)

theorem spellingsOverlap_comm (left right : String) :
    spellingsOverlap left right = spellingsOverlap right left := by
  rw [Bool.eq_iff_iff, spellingsOverlap_eq, spellingsOverlap_eq, Pattern.overlaps_iff,
    Pattern.overlaps_iff]
  constructor
  · rintro ⟨name, first, second⟩
    exact ⟨name, second, first⟩
  · rintro ⟨name, first, second⟩
    exact ⟨name, second, first⟩

/-- No two bindings of one scope share a name. -/
def Store.Apart (store : Store) : Prop :=
  ∀ ⦃scope first second one other⦄, first ≠ second →
    store.binding? ⟨scope, first⟩ = some one → store.binding? ⟨scope, second⟩ = some other →
    spellingsOverlap one.spelling other.spelling = false

/-! ## What is done to a store keeps bindings apart -/

section Apart

variable {store after : Store} {write : Write} {binding : Binding} {deed : Deed}

/-- What a write leaves in its place shares no name with the bindings beside it. -/
theorem Wrote.apart_from (wrote : Wrote store write binding after) (apart : store.Apart)
    (index : Nat) {other : Binding} (elsewhere : index ≠ write.slot.index)
    (there : store.binding? ⟨write.slot.scope, index⟩ = some other) :
    spellingsOverlap other.spelling binding.spelling = false := by
  rw [wrote.spelling]
  cases before : store.binding? write.slot with
  | none => exact Store.find?_eq_none_iff.mp (wrote.free before) index other there
  | some old => exact apart elsewhere there before

/-- A write keeps the spellings of each scope apart: it adds one only where none overlaps it. -/
theorem Wrote.apart (wrote : Wrote store write binding after) (apart : store.Apart) :
    after.Apart := by
  intro scope first second one other different here there
  by_cases isFirst : ⟨scope, first⟩ = write.slot
  · have second_ne : ⟨scope, second⟩ ≠ write.slot := by
      rw [← isFirst]
      exact fun same => different (Slot.mk.inj same).2.symm
    rw [isFirst, wrote.here] at here
    rw [wrote.elsewhere _ second_ne] at there
    cases here
    rw [spellingsOverlap_comm]
    refine wrote.apart_from apart second ?_ ?_
    all_goals rw [← isFirst]
    · exact different.symm
    · exact there
  · rw [wrote.elsewhere _ isFirst] at here
    by_cases isSecond : ⟨scope, second⟩ = write.slot
    · rw [isSecond, wrote.here] at there
      cases there
      refine wrote.apart_from apart first ?_ ?_
      all_goals rw [← isSecond]
      · exact different
      · exact here
    · rw [wrote.elsewhere _ isSecond] at there
      exact apart different here there

theorem Deed.apart (allowed : deed.Allowed store) (apart : store.Apart) :
    (deed.apply store).Apart := by
  cases written : deed.write? store with
  | some write =>
    obtain ⟨binding, wrote⟩ := exists_wrote allowed written
    exact wrote.apart apart
  | none =>
    intro scope first second one other different here there
    rw [binding?_apply_of_quiet written] at here there
    exact apart different here there

end Apart

namespace Store

variable {store other : Store} {scope : ScopeId} {name : String}

theorem Reached.apart (reached : Reached store) : store.Apart := by
  refine reached.of_keeps (fun scope first second one other _ here => ?_) fun _ _ => Deed.apart
  rw [binding?_fresh] at here
  cases here

/-! ## The order of bindings -/

/-- The other store has the same scopes with the same bindings, which may have been added in
another order. -/
structure Reordered (store other : Store) : Prop where
  chain : ∀ scope, other.chain scope = store.chain scope
  bindings : ∀ scope, (other.bindings scope).Perm (store.bindings scope)

/-- The binding of a scope that serves a name. -/
def serving? (store : Store) (scope : ScopeId) (name : String) : Option Binding :=
  (store.bindings scope).find? fun binding => spellingsOverlap binding.spelling name

theorem bind_find? (store : Store) (scope : ScopeId) (name : String) :
    (store.find? scope name).bind store.binding? = store.serving? scope name := by
  rw [serving?, List.find?_eq_bind_findIdx?_getElem?]
  cases there : store.scopes.get? scope with
  | none =>
    rw [find?_of_get?_none there, bindings, there]
    rfl
  | some found =>
    have same : store.bindings scope = found.bindings := by
      rw [bindings, there]
      rfl
    rw [find?_of_get? there, same]
    cases found.bindings.findIdx? fun binding => spellingsOverlap binding.spelling name with
    | none => rfl
    | some index => exact binding?_of_get? there index

theorem bind_resolve? (store : Store) (scope : ScopeId) (name : String) :
    (store.resolve? scope name).bind store.binding? =
      (store.chain scope).findSome? (store.serving? · name) := by
  rw [resolve?]
  induction store.chain scope with
  | nil => rfl
  | cons around rest ih =>
    have here := bind_find? store around name
    rw [List.findSome?_cons, List.findSome?_cons, ← here]
    cases found : store.find? around name with
    | none => exact ih
    | some slot =>
      obtain ⟨_, ⟨binding, there, _⟩, _⟩ := find?_eq_some_iff.mp found
      rw [Option.bind_some, there]

/-- At most one binding of a scope accepts a plain name. -/
theorem Apart.eq_of_accepts (apart : store.Apart) {one two : Binding} {name : List Char}
    (first : one ∈ store.bindings scope) (second : two ∈ store.bindings scope)
    (accepts : (ofSpelling one.spelling.toList).accepts name = true)
    (accepts' : (ofSpelling two.spelling.toList).accepts name = true) : one = two := by
  obtain ⟨index, here⟩ := List.getElem?_of_mem first
  obtain ⟨place, there⟩ := List.getElem?_of_mem second
  by_cases same : index = place
  · subst same
    exact Option.some.inj (here.symm.trans there)
  · have overlap := spellingsOverlap_of_accepts accepts accepts'
    rw [← binding?_eq_getElem?] at here there
    rw [apart same here there] at overlap
    cases overlap

/-- Of spellings that are apart one at most accepts a plain name, so their order does not matter. -/
theorem serving?_of_reordered (apart : store.Apart) (reordered : store.Reordered other)
    (plain : IsPlainName name) (scope : ScopeId) :
    other.serving? scope name = store.serving? scope name := by
  have perm := reordered.bindings scope
  unfold serving?
  simp only [spellingsOverlap_of_plain plain]
  cases found : (store.bindings scope).find? fun binding =>
      (ofSpelling binding.spelling.toList).accepts name.toList with
  | none =>
    rw [List.find?_eq_none] at found ⊢
    exact fun binding mem => found binding (perm.subset mem)
  | some binding =>
    have mem := List.mem_of_find?_eq_some found
    have accepts := List.find?_some found
    cases again : (other.bindings scope).find? fun binding =>
        (ofSpelling binding.spelling.toList).accepts name.toList with
    | none => exact absurd accepts (List.find?_eq_none.mp again binding (perm.symm.subset mem))
    | some another =>
      have mem' := perm.subset (List.mem_of_find?_eq_some again)
      have accepts' := List.find?_some again
      rw [apart.eq_of_accepts mem mem' accepts accepts']

theorem lookup_of_reordered (apart : store.Apart) (reordered : store.Reordered other)
    (plain : IsPlainName name) (scope : ScopeId) :
    other.lookup scope name = store.lookup scope name := by
  have served : (other.serving? · name) = (store.serving? · name) :=
    funext (serving?_of_reordered apart reordered plain)
  rw [lookup, lookup, bind_resolve?, bind_resolve?, reordered.chain, served]

/-- Whatever has been done to a store, no name is accepted by two bindings of one scope, and what a
plain name reads does not depend on the order of the bindings of any scope. -/
theorem Reached.accepts_apart (reached : Reached store) :
    (∀ scope first second one two, first ≠ second →
      store.binding? ⟨scope, first⟩ = some one → store.binding? ⟨scope, second⟩ = some two →
      ∀ name, ¬ ((ofSpelling one.spelling.toList).accepts name = true ∧
        (ofSpelling two.spelling.toList).accepts name = true)) ∧
    ∀ other, store.Reordered other → ∀ scope name, IsPlainName name →
      other.lookup scope name = store.lookup scope name := by
  have apart := reached.apart
  refine ⟨fun scope first second one two different here there name both => ?_,
    fun other reordered scope name plain => lookup_of_reordered apart reordered plain scope⟩
  have overlap := spellingsOverlap_of_accepts both.1 both.2
  rw [apart different here there] at overlap
  cases overlap

/-- Two bindings that are made in one order and in the other. The scope lists them differently, and
a name reads the same. -/
theorem Reached.accepts_apart_both_orders :
    let store :=
      (Store.fresh.assign root "h(er|im)" (.text "sun")).assign root "them" (.text "moon")
    let other :=
      (Store.fresh.assign root "them" (.text "moon")).assign root "h(er|im)" (.text "sun")
    Reached store ∧ store.Reordered other ∧ store.bindings root ≠ other.bindings root ∧
      other.lookup root "him" = store.lookup root "him" := by
  intro store other
  have sun : Reached (Store.fresh.assign root "h(er|im)" (.text "sun")) :=
    .deed (.assign root "h(er|im)" (.text "sun")) .fresh ⟨by decide, trivial⟩
  have reached : Reached store :=
    .deed (.assign root "them" (.text "moon")) sun ⟨by decide +kernel, trivial⟩
  have reordered : store.Reordered other := by
    refine ⟨fun scope => ?_, fun scope => ?_⟩
    · cases scope <;> rfl
    · cases scope with
      | zero => decide +kernel
      | succ scope => exact .nil
  exact ⟨reached, reordered, by decide +kernel,
    reached.accepts_apart.2 other reordered root "him" (by decide)⟩

end Store

end Marginalia
