import Marginalia.Proofs.Store.Layers
import Mathlib.Data.Finset.Card
import Mathlib.Data.Finset.Range
import Mathlib.Logic.Relation

/-!
# Lists that hold themselves

A value is written as it is, and the list of a layered binding grows in place. So a list comes to
hold itself where a name is given, in palimpsest mode, a value that leads to the name's own list.
There is no other way: a list that is made can hold only what was there before it
(`loopless_alloc`), and a list that grows by a value closes a loop exactly if the value leads to it
(`loopless_update_iff`). Hence the deeds that were done tell whether there is a loop
(`Store.Does.loopless_iff`).

A value has a text exactly if its lists nest to some depth (`exists_render_iff`), and then it can be
compared. Where a value leads to no loop, no list is entered twice on the way down, so that as many
levels as there are lists are enough (`shallow_of_not_endless`); where it does, no depth is.
-/

namespace Marginalia

open Relation (TransGen ReflTransGen)

namespace Store

/-- One list has another among its items. -/
def Holds (store : Store) (outer inner : Nat) : Prop :=
  Value.layers inner ∈ store.items outer

/-- No list holds itself, be it directly or through other lists. -/
def Loopless (store : Store) : Prop :=
  ∀ list, ¬ TransGen store.Holds list list

/-- The value is the list, or holds it, be it directly or through other lists. -/
def Leads (store : Store) (value : Value) (list : Nat) : Prop :=
  ∃ first, value = .layers first ∧ ReflTransGen store.Holds first list

/-- The value leads to a list that holds itself. -/
def Endless (store : Store) (value : Value) : Prop :=
  ∃ list, store.Leads value list ∧ TransGen store.Holds list list

variable {store after : Store} {value : Value} {list outer inner : Nat}

theorem leads_self (store : Store) (list : Nat) : store.Leads (.layers list) list :=
  ⟨list, rfl, .refl⟩

theorem Leads.trans (leads : store.Leads value outer)
    (rest : ReflTransGen store.Holds outer inner) : store.Leads value inner := by
  obtain ⟨first, isList, path⟩ := leads
  exact ⟨first, isList, path.trans rest⟩

/-- What an item of a list leads to, the list leads to. -/
theorem transGen_of_leads (mem : value ∈ store.items outer) (leads : store.Leads value inner) :
    TransGen store.Holds outer inner := by
  obtain ⟨first, rfl, path⟩ := leads
  exact .head' mem path

/-! ## Lists of a sound store -/

theorem items_of_size_le (outside : store.lists.size ≤ list) : store.items list = [] := by
  have absent : store.lists.get? list = none := Array.getElem?_eq_none outside
  rw [items, absent]
  rfl

theorem lt_of_mem_items (mem : value ∈ store.items list) : list < store.lists.size := by
  by_contra outside
  rw [items_of_size_le (Nat.le_of_not_lt outside)] at mem
  cases mem

theorem Sound.known_of_mem_items (sound : store.Sound) (mem : value ∈ store.items list) :
    value.Known store := by
  cases made : store.lists.get? list with
  | none =>
    rw [items, made] at mem
    cases mem
  | some values =>
    rw [items, made] at mem
    exact sound.lists made value mem

theorem Sound.lt_of_leads (sound : store.Sound) (known : value.Known store)
    (leads : store.Leads value list) : list < store.lists.size := by
  obtain ⟨first, rfl, path⟩ := leads
  cases path with
  | refl => exact known
  | tail _ last => exact sound.known_of_mem_items last

/-! ## How loops come about -/

theorem loopless_of_lists_eq (same : after.lists = store.lists) :
    after.Loopless ↔ store.Loopless := by
  have holds : after.Holds = store.Holds := by
    unfold Holds items
    rw [same]
  rw [Loopless, Loopless, holds]

theorem loopless_of_holds (holds : ∀ outer inner, store.Holds outer inner → after.Holds outer inner)
    (loopless : after.Loopless) : store.Loopless :=
  fun list loop => loopless list (TransGen.mono holds _ _ loop)

theorem items_alloc {values : List Value} (made : after.lists = store.lists.alloc values) :
    after.items list = if list = store.lists.size then values else store.items list := by
  rw [items, made, Heap.get?_alloc]
  split <;> rfl

theorem holds_alloc_iff {values : List Value} (made : after.lists = store.lists.alloc values)
    (there : outer < store.lists.size) : after.Holds outer inner ↔ store.Holds outer inner := by
  rw [Holds, Holds, items_alloc made, if_neg (Nat.ne_of_lt there)]

section Alloc

variable {values : List Value} (sound : store.Sound)
  (known : ∀ value ∈ values, value.Known store) (made : after.lists = store.lists.alloc values)

include sound known made

/-- Nothing holds the list that was made last. -/
theorem lt_of_holds_alloc (holds : after.Holds outer inner) : inner < store.lists.size := by
  rw [Holds, items_alloc made] at holds
  split at holds
  · exact known _ holds
  · exact sound.known_of_mem_items holds

theorem transGen_of_alloc (path : TransGen after.Holds outer inner)
    (there : outer < store.lists.size) : TransGen store.Holds outer inner := by
  induction path with
  | single holds => exact .single ((holds_alloc_iff made there).mp holds)
  | tail path holds ih =>
    obtain ⟨_, _, last⟩ := TransGen.tail'_iff.mp path
    have old := lt_of_holds_alloc sound known made last
    exact ih.tail ((holds_alloc_iff made old).mp holds)

/-- A list that is made of values that are there closes no loop. -/
theorem loopless_alloc : after.Loopless ↔ store.Loopless := by
  constructor
  · refine loopless_of_holds fun outer inner holds => ?_
    exact (holds_alloc_iff made (lt_of_mem_items holds)).mpr holds
  · intro loopless list loop
    -- The list is held, so it is an old one, and so are all lists of the loop.
    obtain ⟨_, _, last⟩ := TransGen.tail'_iff.mp loop
    have old := lt_of_holds_alloc sound known made last
    exact loopless list (transGen_of_alloc sound known made loop old)

end Alloc

theorem holds_update_iff (there : list < store.lists.size)
    (grown : after.lists = store.lists.update list (· ++ [value])) :
    after.Holds outer inner ↔ store.Holds outer inner ∨ outer = list ∧ value = .layers inner := by
  rw [Holds, Holds, items, items, grown, Heap.get?_update]
  by_cases same : list = outer
  · subst same
    have made : store.lists.get? list = some _ := Array.getElem?_eq_getElem there
    rw [if_pos rfl, made]
    simp [eq_comm]
  · rw [if_neg same]
    simp [Ne.symm same]

/-- If the value does not lead back to the list that has grown by it, a path takes the new step at
most once. -/
theorem transGen_of_update (there : list < store.lists.size)
    (grown : after.lists = store.lists.update list (· ++ [value]))
    (apart : ¬ store.Leads value list) (path : TransGen after.Holds outer inner) :
    TransGen store.Holds outer inner ∨
      ReflTransGen store.Holds outer list ∧ store.Leads value inner := by
  induction path with
  | single holds =>
    rcases (holds_update_iff there grown).mp holds with old | ⟨rfl, rfl⟩
    · exact .inl (.single old)
    · exact .inr ⟨.refl, leads_self _ _⟩
  | tail _ holds ih =>
    rcases (holds_update_iff there grown).mp holds with old | ⟨rfl, rfl⟩
    · rcases ih with path | ⟨path, leads⟩
      · exact .inl (path.tail old)
      · exact .inr ⟨path, leads.trans (.single old)⟩
    · rcases ih with path | ⟨_, leads⟩
      · exact .inr ⟨path.to_reflTransGen, leads_self _ _⟩
      · exact absurd leads apart

/-- A list that grows by a value comes to hold itself exactly if the value leads to it. -/
theorem loopless_update_iff (there : list < store.lists.size)
    (grown : after.lists = store.lists.update list (· ++ [value])) :
    after.Loopless ↔ store.Loopless ∧ ¬ store.Leads value list := by
  constructor
  · intro loopless
    have kept : ∀ outer inner, store.Holds outer inner → after.Holds outer inner :=
      fun outer inner holds => (holds_update_iff there grown).mpr (.inl holds)
    refine ⟨loopless_of_holds kept loopless, ?_⟩
    rintro ⟨first, isList, path⟩
    have new : after.Holds list first := (holds_update_iff there grown).mpr (.inr ⟨rfl, isList⟩)
    exact loopless list (.head' new (ReflTransGen.mono kept _ _ path))
  · rintro ⟨loopless, apart⟩ start loop
    rcases transGen_of_update there grown apart loop with old | ⟨path, leads⟩
    · exact loopless start old
    · exact apart (leads.trans path)

end Store

/-- The deed writes, in palimpsest mode, a value that leads to the list that the binding owns. -/
def Deed.ClosesLoop (store : Store) (deed : Deed) : Prop :=
  ∃ write list, deed.write? store = some write ∧ write.palimpsest = true ∧
    store.Owns write.slot list ∧ store.Leads write.value list

/-- One of the deeds closes a loop. -/
def Store.Closes : Store → List Deed → Prop
  | _, [] => False
  | store, deed :: deeds => deed.ClosesLoop store ∨ Closes (deed.apply store) deeds

/-- A deed leaves no list that holds itself exactly if there was none and it does not close a loop.
-/
theorem Deed.loopless_apply_iff {store : Store} {deed : Deed} (allowed : deed.Allowed store)
    (sound : store.Sound) (owning : store.Owning) :
    (deed.apply store).Loopless ↔ store.Loopless ∧ ¬ deed.ClosesLoop store := by
  cases written : deed.write? store with
  | none =>
    have quiet : ¬ deed.ClosesLoop store := by
      rintro ⟨write, _, writes, _⟩
      rw [written] at writes
      cases writes
    rw [and_iff_left quiet]
    rcases lists_apply_of_quiet allowed written with same | ⟨values, known, made⟩
    · exact Store.loopless_of_lists_eq same
    · exact Store.loopless_alloc sound known made
  | some write =>
    obtain ⟨binding, wrote⟩ := exists_wrote allowed written
    have closes_iff : deed.ClosesLoop store ↔ ∃ list, write.palimpsest = true ∧
        store.Owns write.slot list ∧ store.Leads write.value list := by
      simp [ClosesLoop, written]
    rw [closes_iff]
    have change := wrote.change
    generalize made : (deed.apply store).lists = lists at change
    cases change with
    | cover _ mode =>
      rw [Store.loopless_of_lists_eq made]
      simp [mode]
    | @grow spelling list mode here =>
      rw [Store.loopless_update_iff (owning.made ⟨spelling, here⟩) made]
      have owns_iff : ∀ other, store.Owns write.slot other ↔ other = list := by
        intro other
        constructor
        · rintro ⟨_, again⟩
          cases here.symm.trans again
          rfl
        · rintro rfl
          exact ⟨spelling, here⟩
      simp [mode, owns_iff]
    | begin spelling mode unlayered =>
      have nobody : ∀ list, ¬ store.Owns write.slot list := by
        rintro list ⟨spelling, here⟩
        exact unlayered spelling list here
      have known := known_of_write? allowed written
      rw [Store.loopless_alloc sound (sound.known_begun known) made]
      simp [nobody]

namespace Store

variable {store after : Store} {value : Value} {list : Nat} {depth : Nat}

/-- Deeds leave a loop exactly if there was one or one of them closes one. -/
theorem Does.loopless_iff {deeds : List Deed} (does : store.Does deeds after)
    (sound : store.Sound) (owning : store.Owning) :
    after.Loopless ↔ store.Loopless ∧ ¬ store.Closes deeds := by
  induction does with
  | nil => simp [Closes]
  | cons allowed _ ih =>
    rw [ih (Deed.sound allowed sound) (Deed.owning allowed owning),
      Deed.loopless_apply_iff allowed sound owning, Closes, not_or, and_assoc]

theorem loopless_fresh : fresh.Loopless := by
  intro list loop
  obtain ⟨_, holds, _⟩ := TransGen.head'_iff.mp loop
  exact absurd (lt_of_mem_items holds) (Nat.not_lt_zero list)

/-! ## Texts and comparisons -/

/-- The lists of the value nest no deeper than so many levels. -/
def Shallow (store : Store) : Nat → Value → Prop
  | 0, .layers _ => False
  | depth + 1, .layers list => ∀ item ∈ store.items list, store.Shallow depth item
  | _, _ => True

/-- All results are there exactly if there is one for each item. -/
theorem exists_mapM_ok_iff {α β : Type} {f : α → Except Fault β} {items : List α} :
    (∃ results, items.mapM f = .ok results) ↔ ∀ item ∈ items, ∃ result, f item = .ok result := by
  induction items with
  | nil => exact ⟨fun _ _ => nofun, fun _ => ⟨[], rfl⟩⟩
  | cons item items ih =>
    rw [List.forall_mem_cons, ← ih, List.mapM_cons]
    cases f item with
    | error fault =>
      constructor
      · rintro ⟨results, ran⟩
        cases ran
      · rintro ⟨⟨result, ran⟩, _⟩
        cases ran
    | ok result =>
      cases items.mapM f with
      | error fault =>
        constructor
        · rintro ⟨results, ran⟩
          cases ran
        · rintro ⟨_, results, ran⟩
          cases ran
      | ok results => exact ⟨fun _ => ⟨⟨_, rfl⟩, _, rfl⟩, fun _ => ⟨_, rfl⟩⟩

/-- A value has a text within a depth exactly if its lists nest no deeper. -/
theorem exists_render_iff :
    (∃ text, store.render depth value = .ok text) ↔ store.Shallow depth value := by
  induction depth generalizing value with
  | zero =>
    cases value with
    | layers list =>
      constructor
      · rintro ⟨text, ran⟩
        cases ran
      · intro shallow
        cases shallow
    | nothing | truth _ | text _ | function _ => exact ⟨fun _ => trivial, fun _ => ⟨_, rfl⟩⟩
  | succ depth ih =>
    cases value with
    | layers list =>
      rw [Shallow, ← forall₂_congr fun item _ => ih, ← exists_mapM_ok_iff, render]
      cases (store.items list).mapM (store.render depth) with
      | error fault =>
        constructor
        all_goals
          rintro ⟨_, ran⟩
          cases ran
      | ok texts => exact ⟨fun _ => ⟨_, rfl⟩, fun _ => ⟨_, rfl⟩⟩
    | nothing | truth _ | text _ | function _ => exact ⟨fun _ => trivial, fun _ => ⟨_, rfl⟩⟩

theorem exists_allPairs {test : Value → Value → Except Fault Bool} {lefts : List Value}
    (each : ∀ left ∈ lefts, ∀ right, ∃ same, test left right = .ok same) (rights : List Value) :
    ∃ same, allPairs test lefts rights = .ok same := by
  induction lefts generalizing rights with
  | nil => exact ⟨true, rfl⟩
  | cons left lefts ih =>
    cases rights with
    | nil => exact ⟨true, rfl⟩
    | cons right rights =>
      obtain ⟨same, ran⟩ := each left List.mem_cons_self right
      rw [allPairs, ran]
      cases same with
      | false => exact ⟨false, rfl⟩
      | true => exact ih (fun left mem => each left (List.mem_cons_of_mem _ mem)) rights

/-- A value whose lists nest no deeper can be compared with any other. -/
theorem exists_equal_of_shallow (shallow : store.Shallow depth value) (other : Value) :
    ∃ same, store.equal depth value other = .ok same := by
  induction depth generalizing value other with
  | zero =>
    cases value with
    | layers list => cases shallow
    | nothing | truth _ | text _ | function _ => exact ⟨_, rfl⟩
  | succ depth ih =>
    cases value with
    | layers list =>
      cases other with
      | layers another =>
        rw [equal]
        split
        · refine exists_allPairs (fun left mem right => ?_) _
          split
          · exact ⟨true, rfl⟩
          · exact ih (shallow left mem) right
        · exact ⟨false, rfl⟩
      | nothing | truth _ | text _ | function _ => exact ⟨_, rfl⟩
    | nothing | truth _ | text _ | function _ => exact ⟨_, rfl⟩

/-- On the way down from a value that leads to no loop no list is entered twice, so the lists that
it leads to bound how deep they nest. -/
theorem shallow_of_leads (lists : Finset Nat)
    (inside : ∀ list, store.Leads value list → list ∈ lists)
    (ends : ¬ store.Endless value) (enough : lists.card ≤ depth) : store.Shallow depth value := by
  induction depth generalizing value lists with
  | zero =>
    cases value with
    | layers list =>
      have empty : lists = ∅ := Finset.card_eq_zero.mp (Nat.le_zero.mp enough)
      have mem := inside list (leads_self _ _)
      rw [empty] at mem
      cases mem
    | nothing | truth _ | text _ | function _ => trivial
  | succ depth ih =>
    cases value with
    | layers list =>
      intro item mem
      refine ih (lists.erase list) (fun below leads => ?_) (fun endless => ends ?_) ?_
      · have path := transGen_of_leads mem leads
        refine Finset.mem_erase.mpr ⟨?_, inside below ⟨list, rfl, path.to_reflTransGen⟩⟩
        rintro rfl
        exact ends ⟨_, leads_self _ _, path⟩
      · obtain ⟨below, leads, loop⟩ := endless
        exact ⟨below, ⟨list, rfl, (transGen_of_leads mem leads).to_reflTransGen⟩, loop⟩
      · rw [Finset.card_erase_of_mem (inside list (leads_self _ _))]
        exact Nat.sub_le_of_le_add enough
    | nothing | truth _ | text _ | function _ => trivial

theorem shallow_of_not_endless (sound : store.Sound) (known : value.Known store)
    (ends : ¬ store.Endless value) (enough : store.lists.size ≤ depth) :
    store.Shallow depth value := by
  refine shallow_of_leads (Finset.range store.lists.size) (fun list leads => ?_) ends ?_
  · exact Finset.mem_range.mpr (sound.lt_of_leads known leads)
  · rwa [Finset.card_range]

/-- A list on the way to a loop has an item on the way to it. -/
theorem Endless.exists_item (endless : store.Endless (.layers list)) :
    ∃ item ∈ store.items list, store.Endless item := by
  obtain ⟨last, ⟨first, isList, path⟩, loop⟩ := endless
  cases isList
  -- One step towards the loop, or round it.
  have onward : TransGen store.Holds list last := TransGen.trans_right path loop
  obtain ⟨next, holds, rest⟩ := TransGen.head'_iff.mp onward
  exact ⟨.layers next, holds, last, ⟨next, rfl, rest⟩, loop⟩

theorem not_shallow_of_endless (endless : store.Endless value) : ¬ store.Shallow depth value := by
  have isList : ∃ list, value = .layers list := by
    obtain ⟨_, ⟨first, isList, _⟩, _⟩ := endless
    exact ⟨first, isList⟩
  obtain ⟨list, rfl⟩ := isList
  induction depth generalizing list with
  | zero => exact id
  | succ depth ih =>
    intro shallow
    obtain ⟨item, mem, endless⟩ := endless.exists_item
    have leads := endless
    obtain ⟨_, ⟨next, rfl, _⟩, _⟩ := leads
    exact ih next endless (shallow _ mem)

end Store

namespace Source

variable {limits : Limits} {source : Source} {answers : Option (List String)} {parsed : Parsed}
  {run : Run}

/-- At every moment of a run there is a list that holds itself exactly if the run has, until then,
written in palimpsest mode a value that leads to the list of the name it was written to. A value
that leads to such a list has no text at any depth; every other value has one, and can be compared
with all values, as soon as the depth is that of all lists. -/
theorem run_loopless_iff (ran : source.runUnder limits answers = .ok (parsed, run)) :
    (∃ deeds, Store.fresh.Does deeds run.machine.store) ∧
    ∀ before moment rest, Store.fresh.Does before moment → moment.Does rest run.machine.store →
      (moment.Loopless ↔ ¬ Store.fresh.Closes before) ∧
      ∀ value, value.Known moment →
        (moment.Endless value → ∀ depth text, moment.render depth value ≠ .ok text) ∧
        (¬ moment.Endless value → ∀ depth, moment.lists.size ≤ depth →
          (∃ text, moment.render depth value = .ok text) ∧
          ∀ other, ∃ same, moment.equal depth value other = .ok same) := by
  refine ⟨Store.exists_does_runIn Store.sound_fresh (by decide) ran,
    fun before moment rest does _ => ⟨?_, fun value known => ⟨?_, ?_⟩⟩⟩
  · rw [does.loopless_iff Store.sound_fresh Store.owning_fresh, and_iff_right Store.loopless_fresh]
  · intro endless depth text rendered
    exact Store.not_shallow_of_endless endless (Store.exists_render_iff.mp ⟨text, rendered⟩)
  · intro ends depth enough
    have shallow := Store.shallow_of_not_endless (does.sound Store.sound_fresh) known ends enough
    exact ⟨Store.exists_render_iff.mpr shallow, Store.exists_equal_of_shallow shallow⟩

/-- A name that is given itself gets a list that holds itself, and no text. -/
theorem run_loopless_iff_own_list :
    ∃ parsed run,
      (Source.mk "#as palimpsest\nlet x be a\nlet x be x" "").runUnder .standard none =
        .ok (parsed, run) ∧
      run.fault = none ∧ run.machine.store.lookup Store.root "x" = .layers 0 ∧
      run.machine.store.items 0 = [.text "a", .layers 0] ∧ ¬ run.machine.store.Loopless ∧
      (∃ deeds, Store.fresh.Does deeds run.machine.store ∧ Store.fresh.Closes deeds) ∧
      ∀ depth text, run.machine.store.render depth (.layers 0) ≠ .ok text := by
  have facts : (((Source.mk "#as palimpsest\nlet x be a\nlet x be x" "").runUnder .standard
      none).map fun result =>
      (result.2.fault.isNone, result.2.machine.store.lookup Store.root "x",
        result.2.machine.store.items 0)).toOption =
        some (true, .layers 0, [.text "a", .layers 0]) := by
    decide +kernel
  cases ran : (Source.mk "#as palimpsest\nlet x be a\nlet x be x" "").runUnder .standard none with
  | error fault =>
    rw [ran] at facts
    cases facts
  | ok result =>
    obtain ⟨parsed, run⟩ := result
    rw [ran] at facts
    obtain ⟨succeeds, read⟩ := Prod.mk.inj (Option.some.inj facts)
    obtain ⟨reads, items⟩ := Prod.mk.inj read
    have holds : run.machine.store.Holds 0 0 := by
      change Value.layers 0 ∈ run.machine.store.items 0
      rw [items]
      decide
    have looped : ¬ run.machine.store.Loopless := fun loopless => loopless 0 (.single holds)
    have endless : run.machine.store.Endless (.layers 0) :=
      ⟨0, Store.leads_self _ 0, .single holds⟩
    obtain ⟨⟨deeds, does⟩, moments⟩ := run_loopless_iff ran
    obtain ⟨loopless_iff, values⟩ := moments deeds _ [] does .nil
    refine ⟨parsed, run, rfl, Option.isNone_iff_eq_none.mp succeeds, reads, items, looped,
      ⟨deeds, does, not_not.mp fun closes => looped (loopless_iff.mpr closes)⟩, ?_⟩
    exact (values (.layers 0) (Store.lt_of_mem_items holds)).1 endless

end Source

end Marginalia
