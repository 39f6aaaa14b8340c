import Marginalia.Proofs.Running.Deeds
import Mathlib.Data.List.DropRight

/-!
# What layered bindings remember

Lists are held by their address, so the list of a binding can be the value of other bindings, or
stand in their lists. Still it grows by writes to its own binding only: a layered binding owns its
list, and no two own one (`Store.Owning`). A list that is made for a binding is a new one, and the
list that a write makes longer is the one that its binding owns (`Wrote.owns_cases`,
`Wrote.get?_of_owns`).

So the writes to a binding tell its value (`Binding.Shows`): without palimpsest the last one
covers all before it, and with palimpsest it is laid over what was there (`layersOf`).
-/

namespace Marginalia

/-! ## Histories of writes -/

/-- The writes to one binding, oldest first. -/
def writesTo (slot : Slot) (writes : List Write) : List Write :=
  writes.filter (·.slot = slot)

theorem writesTo_append (slot : Slot) (first second : List Write) :
    writesTo slot (first ++ second) = writesTo slot first ++ writesTo slot second :=
  List.filter_append ..

theorem writesTo_self (write : Write) : writesTo write.slot [write] = [write] := by
  simp [writesTo]

theorem writesTo_of_ne {slot : Slot} {write : Write} (apart : slot ≠ write.slot) :
    writesTo slot [write] = [] := by
  simp [writesTo, Ne.symm apart]

/-- What shows after some writes in palimpsest mode: the last value that was written without it, if
there is one, and all values that were written since. -/
def layersOf (writes : List Write) : List Value :=
  ((writes.rdropWhile (·.palimpsest)).getLast?.toList ++
    writes.rtakeWhile (·.palimpsest)).map Write.value

theorem layersOf_concat (writes : List Write) (write : Write) :
    layersOf (writes ++ [write]) =
      if write.palimpsest then layersOf writes ++ [write.value] else [write.value] := by
  unfold layersOf
  cases mode : write.palimpsest with
  | true =>
    rw [List.rdropWhile_concat_pos _ _ _ mode, List.rtakeWhile_concat_pos _ _ _ mode]
    simp
  | false =>
    have plain : ¬ write.palimpsest = true := by simp [mode]
    rw [List.rdropWhile_concat_neg _ _ _ plain, List.rtakeWhile_concat_neg _ _ _ plain]
    simp

/-- A write without palimpsest covers all before it. -/
theorem layersOf_of_plain {writes : List Write} {last : Write}
    (latest : writes.getLast? = some last) (plain : last.palimpsest = false) :
    layersOf writes = [last.value] := by
  obtain ⟨earlier, rfl⟩ := List.getLast?_eq_some_iff.mp latest
  rw [layersOf_concat, plain]
  rfl

/-! ## Ownership of lists -/

namespace Store

/-- The binding at the place is layered over the list. -/
def Owns (store : Store) (slot : Slot) (list : Nat) : Prop :=
  ∃ spelling, store.binding? slot = some ⟨spelling, .layers list, true⟩

theorem owns_of_layered {store : Store} {slot : Slot} {binding : Binding} {list : Nat}
    (here : store.binding? slot = some binding) (layered : binding.layered = true)
    (isList : binding.value = .layers list) : store.Owns slot list := by
  refine ⟨binding.spelling, ?_⟩
  rw [here, ← layered, ← isList]

/-- Layered bindings have lists of their own. -/
structure Owning (store : Store) : Prop where
  listed : ∀ ⦃slot binding⦄, store.binding? slot = some binding → binding.layered = true →
    ∃ list, binding.value = .layers list
  made : ∀ ⦃slot list⦄, store.Owns slot list → list < store.lists.size
  alone : ∀ ⦃slot other list⦄, store.Owns slot list → store.Owns other list → slot = other

end Store

section Owning

variable {store after : Store} {write : Write} {binding : Binding} {slot : Slot} {list : Nat}
  {deed : Deed}

/-- A list that is owned after a write was owned by the same binding before, or is a new one that
was made for the binding that was written to. -/
theorem Wrote.owns_cases (wrote : Wrote store write binding after) (owns : after.Owns slot list) :
    store.Owns slot list ∨
      slot = write.slot ∧ list = store.lists.size ∧ list < after.lists.size := by
  obtain ⟨spelling, here⟩ := owns
  by_cases same : slot = write.slot
  · subst same
    have same := Option.some.inj (wrote.here.symm.trans here)
    have change := wrote.change
    generalize after.lists = lists at change
    cases change with
    | cover _ _ => cases (Binding.mk.inj same).2.2
    | grow _ before =>
      rw [same] at before
      exact .inl ⟨spelling, before⟩
    | begin _ _ _ =>
      cases same
      refine .inr ⟨rfl, rfl, ?_⟩
      exact Heap.size_lt_alloc _ _
  · rw [wrote.elsewhere slot same] at here
    exact .inl ⟨spelling, here⟩

/-- A write keeps lists with their owners: a list that it makes belongs to the slot that it writes
to. -/
theorem Wrote.owning (wrote : Wrote store write binding after) (owning : store.Owning) :
    after.Owning := by
  refine ⟨fun slot found here layered => ?_, fun slot list owns => ?_,
    fun slot other list first second => ?_⟩
  · by_cases same : slot = write.slot
    · rw [same, wrote.here] at here
      cases here
      have change := wrote.change
      generalize after.lists = lists at change
      cases change with
      | cover _ _ => cases layered
      | grow _ _ | begin _ _ _ => exact ⟨_, rfl⟩
    · rw [wrote.elsewhere slot same] at here
      exact owning.listed here layered
  · rcases wrote.owns_cases owns with before | ⟨_, _, made⟩
    · exact Nat.lt_of_lt_of_le (owning.made before) wrote.grows.lists
    · exact made
  · rcases wrote.owns_cases first with before | ⟨rfl, rfl, _⟩
    · rcases wrote.owns_cases second with before' | ⟨rfl, rfl, _⟩
      · exact owning.alone before before'
      · exact absurd (owning.made before) (Nat.lt_irrefl _)
    · rcases wrote.owns_cases second with before' | ⟨rfl, _, _⟩
      · exact absurd (owning.made before') (Nat.lt_irrefl _)
      · rfl

/-- A write to another binding does not touch the list that a binding owns. -/
theorem Wrote.get?_of_owns (wrote : Wrote store write binding after) (owning : store.Owning)
    (owns : store.Owns slot list) (apart : slot ≠ write.slot) :
    after.lists.get? list = store.lists.get? list := by
  have change := wrote.change
  generalize after.lists = lists at change
  cases change with
  | cover _ _ => rfl
  | grow _ here =>
    rw [Heap.get?_update]
    refine if_neg fun same => apart ?_
    subst same
    exact owning.alone owns ⟨_, here⟩
  | begin _ _ _ =>
    rw [Heap.get?_alloc]
    exact if_neg (Nat.ne_of_lt (owning.made owns))

theorem Deed.get?_of_quiet (allowed : deed.Allowed store) (quiet : deed.write? store = none)
    (made : list < store.lists.size) :
    (deed.apply store).lists.get? list = store.lists.get? list := by
  rcases lists_apply_of_quiet allowed quiet with same | ⟨values, _, new⟩
  · rw [same]
  · rw [new, Heap.get?_alloc]
    exact if_neg (Nat.ne_of_lt made)

theorem Deed.owning (allowed : deed.Allowed store) (owning : store.Owning) :
    (deed.apply store).Owning := by
  cases written : deed.write? store with
  | some write =>
    obtain ⟨binding, wrote⟩ := exists_wrote allowed written
    exact wrote.owning owning
  | none =>
    have kept := binding?_apply_of_quiet written
    refine ⟨fun slot binding here => ?_, ?_, ?_⟩
    · rw [kept] at here
      exact owning.listed here
    · rintro slot list ⟨spelling, here⟩
      rw [kept] at here
      exact Nat.lt_of_lt_of_le (owning.made ⟨spelling, here⟩) (grows allowed).lists
    · rintro slot other list ⟨spelling, here⟩ ⟨another, there⟩
      rw [kept] at here there
      exact owning.alone ⟨spelling, here⟩ ⟨another, there⟩

/-- Deeds that do not write to a binding leave it and the list it owns as they are. -/
theorem Store.Does.get?_of_owns {more : List Deed} (does : store.Does more after)
    (owning : store.Owning) {spelling : String}
    (here : store.binding? slot = some ⟨spelling, .layers list, true⟩)
    (apart : ∀ write ∈ store.writes more, write.slot ≠ slot) :
    after.binding? slot = some ⟨spelling, .layers list, true⟩ ∧
      after.lists.get? list = store.lists.get? list := by
  induction does with
  | nil => exact ⟨here, rfl⟩
  | @cons store after deed deeds allowed _ ih =>
    rw [writes] at apart
    have later : ∀ write ∈ (deed.apply store).writes deeds, write.slot ≠ slot :=
      fun write mem => apart write (List.mem_append_right _ mem)
    -- The first deed leaves the binding and its list as they are, and the others follow.
    have first : (deed.apply store).binding? slot = some ⟨spelling, .layers list, true⟩ ∧
        (deed.apply store).lists.get? list = store.lists.get? list := by
      cases written : deed.write? store with
      | none =>
        rw [Deed.binding?_apply_of_quiet written]
        exact ⟨here, Deed.get?_of_quiet allowed written (owning.made ⟨spelling, here⟩)⟩
      | some write =>
        obtain ⟨binding, wrote⟩ := Deed.exists_wrote allowed written
        have elsewhere : slot ≠ write.slot := by
          refine (apart write ?_).symm
          rw [written]
          exact List.mem_append_left _ List.mem_cons_self
        rw [wrote.elsewhere slot elsewhere]
        exact ⟨here, wrote.get?_of_owns owning ⟨spelling, here⟩ elsewhere⟩
    obtain ⟨kept, same⟩ := ih (Deed.owning allowed owning) first.1 later
    exact ⟨kept, same.trans first.2⟩

end Owning

/-! ## Writes tell values -/

/-- The binding is what the writes to it have made of it. -/
structure Binding.Shows (store : Store) (binding : Binding) (writes : List Write) : Prop where
  latest : ∃ last, writes.getLast? = some last ∧ binding.layered = last.palimpsest ∧
    (binding.layered = false → binding.value = last.value)
  layers : binding.layered = true →
    ∃ list, binding.value = .layers list ∧ store.lists.get? list = some (layersOf writes)

/-- The history has all writes to the bindings of the store. -/
structure Store.Remembers (store : Store) (history : List Write) : Prop where
  unwritten : ∀ ⦃slot⦄, store.binding? slot = none → writesTo slot history = []
  shows : ∀ ⦃slot binding⦄, store.binding? slot = some binding →
    binding.Shows store (writesTo slot history)

section Remembers

variable {store after : Store} {write : Write} {binding : Binding} {deed : Deed}
  {history : List Write}

/-- Before a write begins a list, the values that it lays it over are those that show. -/
theorem Store.Remembers.layersOf_eq (remembers : store.Remembers history) {slot : Slot}
    (owning : store.Owning)
    (unlayered : ∀ spelling list, store.binding? slot ≠ some ⟨spelling, .layers list, true⟩) :
    layersOf (writesTo slot history) = (store.binding? slot).toList.map Binding.value := by
  cases here : store.binding? slot with
  | none =>
    rw [remembers.unwritten here]
    rfl
  | some old =>
    obtain ⟨last, latest, mode, value⟩ := (remembers.shows here).latest
    have plain : old.layered = false := by
      cases layered : old.layered with
      | false => rfl
      | true =>
        obtain ⟨list, isList⟩ := owning.listed here layered
        obtain ⟨spelling, owned⟩ := Store.owns_of_layered here layered isList
        exact absurd owned (unlayered spelling list)
    rw [layersOf_of_plain latest (mode ▸ plain), ← value plain]
    rfl

/-- A write shows. -/
theorem Wrote.shows (wrote : Wrote store write binding after) (owning : store.Owning)
    (remembers : store.Remembers history) :
    binding.Shows after (writesTo write.slot history ++ [write]) := by
  have change := wrote.change
  generalize made : after.lists = lists at change
  cases change with
  | cover spelling mode =>
    refine ⟨⟨write, List.getLast?_concat, mode.symm, fun _ => rfl⟩, ?_⟩
    intro layered
    cases layered
  | @grow spelling list mode here =>
    refine ⟨⟨write, List.getLast?_concat, mode.symm, ?_⟩, fun _ => ⟨list, rfl, ?_⟩⟩
    · intro plain
      cases plain
    · obtain ⟨_, isList, before⟩ := (remembers.shows here).layers rfl
      cases isList
      rw [made, Heap.get?_update, if_pos rfl, before, layersOf_concat, mode]
      rfl
  | begin spelling mode unlayered =>
    refine ⟨⟨write, List.getLast?_concat, mode.symm, ?_⟩, fun _ => ⟨_, rfl, ?_⟩⟩
    · intro plain
      cases plain
    · rw [made, Heap.get?_alloc, if_pos rfl, layersOf_concat, mode,
        remembers.layersOf_eq owning unlayered]
      rfl

/-- A write is remembered, as the last one of the slot that it goes to. -/
theorem Wrote.remembers (wrote : Wrote store write binding after) (owning : store.Owning)
    (remembers : store.Remembers history) : after.Remembers (history ++ [write]) := by
  refine ⟨fun slot empty => ?_, fun slot found here => ?_⟩
  · have apart : slot ≠ write.slot := by
      rintro rfl
      rw [wrote.here] at empty
      cases empty
    rw [wrote.elsewhere slot apart] at empty
    rw [writesTo_append, remembers.unwritten empty, writesTo_of_ne apart]
    rfl
  · rw [writesTo_append]
    by_cases same : slot = write.slot
    · rw [same, wrote.here] at here
      cases here
      rw [same, writesTo_self]
      exact wrote.shows owning remembers
    · rw [wrote.elsewhere slot same] at here
      rw [writesTo_of_ne same, List.append_nil]
      obtain ⟨latest, layers⟩ := remembers.shows here
      refine ⟨latest, fun layered => ?_⟩
      obtain ⟨list, isList, values⟩ := layers layered
      have owns := Store.owns_of_layered here layered isList
      exact ⟨list, isList, by rw [wrote.get?_of_owns owning owns same, values]⟩

theorem Deed.remembers (allowed : deed.Allowed store) (owning : store.Owning)
    (remembers : store.Remembers history) :
    (deed.apply store).Remembers (history ++ (deed.write? store).toList) := by
  cases written : deed.write? store with
  | some write =>
    obtain ⟨binding, wrote⟩ := exists_wrote allowed written
    exact wrote.remembers owning remembers
  | none =>
    have kept := binding?_apply_of_quiet written
    simp only [Option.toList_none, List.append_nil]
    refine ⟨fun slot empty => ?_, fun slot binding here => ?_⟩
    · rw [kept] at empty
      exact remembers.unwritten empty
    · rw [kept] at here
      obtain ⟨latest, layers⟩ := remembers.shows here
      refine ⟨latest, fun layered => ?_⟩
      obtain ⟨list, isList, values⟩ := layers layered
      have made := owning.made (Store.owns_of_layered here layered isList)
      exact ⟨list, isList, by rw [get?_of_quiet allowed written made, values]⟩

end Remembers

namespace Store

variable {store after : Store} {deeds : List Deed} {history : List Write}

theorem Does.remembers (does : store.Does deeds after) (owning : store.Owning)
    (remembers : store.Remembers history) :
    after.Remembers (history ++ store.writes deeds) := by
  induction does generalizing history with
  | nil => rwa [writes, List.append_nil]
  | cons allowed _ ih =>
    rw [writes, ← List.append_assoc]
    exact ih (Deed.owning allowed owning) (Deed.remembers allowed owning remembers)

theorem owning_fresh : fresh.Owning where
  listed slot binding here := by
    rw [binding?_fresh] at here
    cases here
  made := by
    rintro slot list ⟨spelling, here⟩
    rw [binding?_fresh] at here
    cases here
  alone := by
    rintro slot other list ⟨spelling, here⟩
    rw [binding?_fresh] at here
    cases here

theorem remembers_fresh : fresh.Remembers [] where
  unwritten _ _ := rfl
  shows slot binding here := by
    rw [binding?_fresh] at here
    cases here

theorem Reached.owning (reached : Reached store) : store.Owning :=
  reached.of_keeps owning_fresh fun _ _ => Deed.owning

/-- Deeds lead to every store that is reached, and whichever deeds do, their writes tell every
binding. It is layered exactly if the last write to it was in palimpsest mode. If it is not, its
value is the one last written. If it is, its value is a list of its own, with the last value that
was written without palimpsest, if there is one, and all that were written since; and the list
stays as it is until something is written to this very binding. -/
theorem Reached.layers_of_writes (reached : Reached store) :
    (∃ deeds, Store.fresh.Does deeds store) ∧
    ∀ deeds, Store.fresh.Does deeds store → ∀ slot binding, store.binding? slot = some binding →
      (∃ last, (writesTo slot (Store.fresh.writes deeds)).getLast? = some last ∧
        (binding.layered = true ↔ last.palimpsest = true) ∧
        (binding.layered = false → binding.value = last.value)) ∧
      (binding.layered = true → ∃ list, binding.value = .layers list ∧
        store.lists.get? list = some (layersOf (writesTo slot (Store.fresh.writes deeds))) ∧
        ∀ more after, store.Does more after →
          (∀ write ∈ store.writes more, write.slot ≠ slot) →
          after.binding? slot = some binding ∧
          after.lists.get? list = some (layersOf (writesTo slot (Store.fresh.writes deeds)))) := by
  refine ⟨reached.exists_does, fun deeds does slot binding here => ?_⟩
  obtain ⟨⟨last, latest, mode, value⟩, layers⟩ :=
    (does.remembers owning_fresh remembers_fresh).shows here
  refine ⟨⟨last, latest, by rw [mode], value⟩, fun layered => ?_⟩
  obtain ⟨list, isList, values⟩ := layers layered
  refine ⟨list, isList, values, fun more after later apart => ?_⟩
  have whole : binding = ⟨binding.spelling, .layers list, true⟩ := by rw [← layered, ← isList]
  rw [whole] at here ⊢
  obtain ⟨kept, same⟩ := later.get?_of_owns reached.owning here apart
  exact ⟨kept, same.trans values⟩

/-- The list of one binding stands in the list of another, which grows by itself. -/
theorem Reached.layers_of_writes_shared :
    let deeds := [Deed.assign root "day" (.text "dawn"), .settle ⟨true, none⟩,
      .assign root "day" (.text "noon"), .assign root "night" (.layers 0),
      .assign root "night" (.text "dusk")]
    let store := deeds.foldl Deed.apply Store.fresh
    Reached store ∧ store.lists.get? 1 = some [.layers 0, .text "dusk"] ∧
      store.binding? ⟨root, 0⟩ = some ⟨"day", .layers 0, true⟩ ∧
      store.lists.get? 0 = some [.text "dawn", .text "noon"] := by
  intro deeds store
  have does : Store.fresh.Does deeds store :=
    .cons (by decide) <| .cons (by decide) <| .cons (by decide +kernel) <|
      .cons (by decide +kernel) <| .cons (by decide +kernel) .nil
  have reached : Reached store := .of_does .fresh does
  have here : store.binding? ⟨root, 0⟩ = some ⟨"day", .layers 0, true⟩ := by decide +kernel
  obtain ⟨list, isList, values, _⟩ :=
    (reached.layers_of_writes.2 deeds does ⟨root, 0⟩ _ here).2 rfl
  cases isList
  have shown : layersOf (writesTo ⟨root, 0⟩ (Store.fresh.writes deeds)) =
      [.text "dawn", .text "noon"] := by decide +kernel
  exact ⟨reached, by decide +kernel, here, values.trans (congrArg some shown)⟩

end Store

end Marginalia
