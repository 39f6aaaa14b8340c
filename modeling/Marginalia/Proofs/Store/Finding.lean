import Marginalia.Store
import Marginalia.Proofs.Pattern.Lockstep

/-!
# Finding names

A binding serves a name when the two share a plain name. Sharing is not
transitive, so what `Store.find?` and `Store.resolve?` give depends on the order
in which bindings are tried. The lemmas below say what was tried before:
`find?_eq_some_iff`, `resolve?_eq_none_iff`.

A plain name (`IsPlainName`) shares a name with a spelling only by being one of
its names. So it is narrower than every spelling that accepts it, and searching
for a narrower name skips whatever the wider search skips (`resolve?_narrower`).
-/

namespace Marginalia

open Pattern (Spells ofSpelling)

/-! ## Plain names -/

/-- No character of the name means anything but itself in a spelling. -/
def IsPlainName (name : String) : Prop :=
  ∀ c ∈ name.toList, c ∉ ['(', ')', '[', ']', '|', '?']

instance (name : String) : Decidable (IsPlainName name) :=
  List.decidableBAll (· ∉ ['(', ')', '[', ']', '|', '?']) name.toList

/-- The letters of a name as pieces that stand for themselves. -/
def Chain.ofLetters (letters : List Char) : Chain :=
  letters.foldl (fun front c => .snoc front (.char c) false) .nil

theorem Chain.ofLetters_concat (letters : List Char) (c : Char) :
    Chain.ofLetters (letters ++ [c]) = .snoc (Chain.ofLetters letters) (.char c) false := by
  rw [Chain.ofLetters, List.foldl_append]
  rfl

theorem Chain.text_ofLetters (letters : List Char) : (Chain.ofLetters letters).text = letters := by
  induction letters using List.reverseRecOn with
  | nil => rfl
  | append_singleton letters c ih =>
    rw [Chain.ofLetters_concat, Chain.text, ih]
    rfl

theorem Chain.names_ofLetters (letters : List Char) :
    (Chain.ofLetters letters).names = [letters] := by
  induction letters using List.reverseRecOn with
  | nil => rfl
  | append_singleton letters c ih =>
    rw [Chain.ofLetters_concat, Chain.names, ih]
    rfl

theorem Chain.proper_ofLetters {letters : List Char}
    (plain : ∀ c ∈ letters, c ∉ ['(', ')', '[', ']', '|', '?']) :
    (Chain.ofLetters letters).Proper := by
  induction letters using List.reverseRecOn with
  | nil => trivial
  | append_singleton letters c ih =>
    rw [Chain.ofLetters_concat]
    have here := plain c (List.mem_append_right _ List.mem_cons_self)
    refine ⟨ih fun other mem => plain other (List.mem_append_left _ mem), ?_, ?_⟩
    · intro mem
      exact here (List.mem_append_left ['?'] mem)
    · intro marked
      rw [Piece.char.inj marked] at here
      exact absurd (by decide) here

/-- A plain name spells itself only. -/
theorem Pattern.spells_ofSpelling_of_plain {name : String} (plain : IsPlainName name)
    {other : List Char} : Spells (ofSpelling name.toList) other ↔ other = name.toList := by
  have reads : (Choice.one (Chain.ofLetters name.toList)).IsReading name.toList :=
    ⟨Chain.proper_ofLetters plain, Chain.text_ofLetters _⟩
  rw [Pattern.ofSpelling_of_isReading reads, Choice.spells_pattern_iff, Choice.names,
    Chain.names_ofLetters, List.mem_singleton]

/-! ## Overlap -/

theorem spellingsOverlap_self (name : String) : spellingsOverlap name name = true := by
  rw [spellingsOverlap, beq_self_eq_true, Bool.true_or]

theorem spellingsOverlap_of_accepts {left right : String} {name : List Char}
    (first : (ofSpelling left.toList).accepts name = true)
    (second : (ofSpelling right.toList).accepts name = true) :
    spellingsOverlap left right = true := by
  rw [spellingsOverlap_eq, Pattern.overlaps_iff]
  exact ⟨name, (Pattern.accepts_iff _ _).mp first, (Pattern.accepts_iff _ _).mp second⟩

/-- A spelling shares a name with a plain name exactly if it accepts that name. -/
theorem spellingsOverlap_of_plain {name : String} (plain : IsPlainName name) (spelling : String) :
    spellingsOverlap spelling name = (ofSpelling spelling.toList).accepts name.toList := by
  rw [Bool.eq_iff_iff, spellingsOverlap_eq, Pattern.overlaps_iff, Pattern.accepts_iff]
  constructor
  · intro shared
    obtain ⟨other, spelled, same⟩ := shared
    rwa [(Pattern.spells_ofSpelling_of_plain plain).mp same] at spelled
  · intro spelled
    exact ⟨_, spelled, (Pattern.spells_ofSpelling_of_plain plain).mpr rfl⟩

/-- Whatever shares a name with the first spelling shares one with the second. -/
def Narrower (narrow wide : String) : Prop :=
  ∀ spelling, spellingsOverlap spelling narrow = true → spellingsOverlap spelling wide = true

theorem narrower_of_accepts {name spelling : String} (plain : IsPlainName name)
    (accepts : (ofSpelling spelling.toList).accepts name.toList = true) :
    Narrower name spelling := by
  intro other shares
  rw [spellingsOverlap_of_plain plain] at shares
  exact spellingsOverlap_of_accepts shares accepts

/-! ## Searching -/

namespace Store

variable {store : Store} {scope : ScopeId} {name : String} {slot : Slot}

theorem binding?_of_get? {found : Scope} (there : store.scopes.get? scope = some found)
    (index : Nat) : store.binding? ⟨scope, index⟩ = found.bindings[index]? := by
  rw [binding?, there]
  rfl

theorem binding?_of_get?_none (absent : store.scopes.get? scope = none) (index : Nat) :
    store.binding? ⟨scope, index⟩ = none := by
  rw [binding?, absent]
  rfl

theorem find?_of_get? {found : Scope} (there : store.scopes.get? scope = some found) :
    store.find? scope name =
      (found.bindings.findIdx? fun binding => spellingsOverlap binding.spelling name).map
        (Slot.mk scope) := by
  rw [find?, there]
  change (found.bindings.findIdx? _).bind _ = _
  cases found.bindings.findIdx? fun binding => spellingsOverlap binding.spelling name <;> rfl

theorem find?_of_get?_none (absent : store.scopes.get? scope = none) :
    store.find? scope name = none := by
  rw [find?, absent]
  rfl

theorem find?_eq_none_iff :
    store.find? scope name = none ↔ ∀ index binding, store.binding? ⟨scope, index⟩ = some binding →
      spellingsOverlap binding.spelling name = false := by
  cases there : store.scopes.get? scope with
  | none => simp [find?_of_get?_none there, binding?_of_get?_none there]
  | some found =>
    simp only [find?_of_get? there, binding?_of_get? there, Option.map_eq_none_iff,
      List.findIdx?_eq_none_iff]
    constructor
    · intro none index binding here
      exact none binding (List.mem_of_getElem? here)
    · intro none binding mem
      obtain ⟨index, here⟩ := List.getElem?_of_mem mem
      exact none index binding here

/-- The slot that is found is the first one of the scope whose spelling overlaps the name. -/
theorem find?_eq_some_iff :
    store.find? scope name = some slot ↔
      slot.scope = scope ∧
      (∃ binding, store.binding? slot = some binding ∧
        spellingsOverlap binding.spelling name = true) ∧
      ∀ index < slot.index, ∀ binding, store.binding? ⟨scope, index⟩ = some binding →
        spellingsOverlap binding.spelling name = false := by
  obtain ⟨home, place⟩ := slot
  cases there : store.scopes.get? scope with
  | none =>
    constructor
    · intro found
      rw [find?_of_get?_none there] at found
      cases found
    · rintro ⟨rfl, ⟨binding, here, _⟩, _⟩
      rw [binding?_of_get?_none there] at here
      cases here
  | some found =>
    rw [find?_of_get? there, Option.map_eq_some_iff]
    constructor
    · rintro ⟨index, first, same⟩
      cases same
      obtain ⟨inside, holds, earlier⟩ := List.findIdx?_eq_some_iff_getElem.mp first
      refine ⟨rfl, ⟨found.bindings[place], ?_, holds⟩, ?_⟩
      · rw [binding?_of_get? there, List.getElem?_eq_getElem inside]
      · intro other before binding here
        rw [binding?_of_get? there, List.getElem?_eq_some_iff] at here
        obtain ⟨_, rfl⟩ := here
        simpa using earlier other before
    · rintro ⟨rfl, ⟨binding, here, holds⟩, earlier⟩
      rw [binding?_of_get? there, List.getElem?_eq_some_iff] at here
      obtain ⟨inside, rfl⟩ := here
      refine ⟨place, List.findIdx?_eq_some_iff_getElem.mpr ⟨inside, holds, ?_⟩, rfl⟩
      intro other before
      have free := earlier other before found.bindings[other] (by
        rw [binding?_of_get? there, List.getElem?_eq_getElem])
      rw [free]
      exact Bool.false_ne_true

/-- Nothing is resolved exactly if no binding of the whole chain shares a name. -/
theorem resolve?_eq_none_iff :
    store.resolve? scope name = none ↔ ∀ around ∈ store.chain scope, ∀ index binding,
      store.binding? ⟨around, index⟩ = some binding →
      spellingsOverlap binding.spelling name = false := by
  rw [resolve?, List.findSome?_eq_none_iff]
  exact forall₂_congr fun _ _ => find?_eq_none_iff

theorem exists_of_resolve? (resolved : store.resolve? scope name = some slot) :
    ∃ binding, store.binding? slot = some binding ∧
      spellingsOverlap binding.spelling name = true := by
  obtain ⟨around, _, found⟩ := List.exists_of_findSome?_eq_some resolved
  exact (find?_eq_some_iff.mp found).2.1

theorem lookup_of_resolve? (resolved : store.resolve? scope name = some slot) {binding : Binding}
    (here : store.binding? slot = some binding) : store.lookup scope name = binding.value := by
  rw [lookup, resolved, Option.bind_some, here]

theorem lookup_of_resolve?_none (unresolved : store.resolve? scope name = none) :
    store.lookup scope name = .text name := by
  rw [lookup, unresolved]
  rfl

section Narrower

variable {narrow : String} (narrower : Narrower narrow name)

include narrower

theorem find?_narrower_none (found : store.find? scope name = none) :
    store.find? scope narrow = none := by
  rw [find?_eq_none_iff] at found ⊢
  intro index binding here
  cases shares : spellingsOverlap binding.spelling narrow with
  | false => rfl
  | true => exact absurd (narrower _ shares) (by rw [found index binding here]; decide)

theorem resolve?_narrower_none (unresolved : store.resolve? scope name = none) :
    store.resolve? scope narrow = none := by
  rw [resolve?, List.findSome?_eq_none_iff] at unresolved ⊢
  exact fun around mem => find?_narrower_none narrower (unresolved around mem)

/-- The binding of a wider name is also that of a narrower name that it shares a name with: every
binding that was tried in vain for the one is tried in vain for the other. -/
theorem resolve?_narrower (resolved : store.resolve? scope name = some slot) {binding : Binding}
    (here : store.binding? slot = some binding)
    (shares : spellingsOverlap binding.spelling narrow = true) :
    store.resolve? scope narrow = some slot := by
  rw [resolve?, List.findSome?_eq_some_iff] at resolved ⊢
  obtain ⟨nearer, around, farther, whole, found, skipped⟩ := resolved
  refine ⟨nearer, around, farther, whole, ?_, fun other mem =>
    find?_narrower_none narrower (skipped other mem)⟩
  obtain ⟨home, _, earlier⟩ := find?_eq_some_iff.mp found
  refine find?_eq_some_iff.mpr ⟨home, ⟨binding, here, shares⟩, fun index before other there => ?_⟩
  cases holds : spellingsOverlap other.spelling narrow with
  | false => rfl
  | true => exact absurd (narrower _ holds) (by rw [earlier index before other there]; decide)

end Narrower

end Store

end Marginalia
