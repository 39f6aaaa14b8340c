import Marginalia.Store.Render

/-!
# Limits of reading, rendering and comparing

Names are read, and values rendered and compared, down to a depth. Nothing can go wrong in that but
that the depth is too small (`GivesUpOnly`), and a result that comes out at one depth comes out at
every greater one (`SameUnless`).
-/

namespace Marginalia

/-! ## Results under a higher limit -/

/-- The second result is the first one, unless it is the error `gone`. -/
def SameUnless {ε α : Type} (gone : ε) (x y : Except ε α) : Prop :=
  y = .error gone ∨ y = x

section SameUnless

variable {ε α β : Type} {gone : ε}

theorem sameUnless_refl (x : Except ε α) : SameUnless gone x x :=
  .inr rfl

theorem sameUnless_bind {x y : Except ε α} {f g : α → Except ε β} (first : SameUnless gone x y)
    (next : ∀ a, SameUnless gone (f a) (g a)) : SameUnless gone (x >>= f) (y >>= g) := by
  rcases first with rfl | rfl
  · exact .inl rfl
  · cases y with
    | error fault => exact .inr rfl
    | ok a => exact next a

theorem sameUnless_mapM {f g : α → Except ε β} (each : ∀ a, SameUnless gone (f a) (g a))
    (items : List α) : SameUnless gone (items.mapM f) (items.mapM g) := by
  induction items with
  | nil => exact sameUnless_refl _
  | cons item items ih =>
    rw [List.mapM_cons, List.mapM_cons]
    exact sameUnless_bind (each item) fun _ => sameUnless_bind ih fun _ => sameUnless_refl _

theorem sameUnless_foldlM {f g : β → α → Except ε β} (each : ∀ b a, SameUnless gone (f b a) (g b a))
    (items : List α) (start : β) :
    SameUnless gone (items.foldlM f start) (items.foldlM g start) := by
  induction items generalizing start with
  | nil => exact sameUnless_refl _
  | cons item items ih =>
    rw [List.foldlM_cons, List.foldlM_cons]
    exact sameUnless_bind (each start item) ih

end SameUnless

theorem Reading.sameUnless_step {room more : Nat} (le : room ≤ more) (reading : Reading)
    (c : Char) : SameUnless .tooDeep (reading.step more c) (reading.step room c) := by
  cases letters : reading.letters with
  | some letters =>
    simp only [step, letters]
    exact sameUnless_refl _
  | none =>
    by_cases opens : c = '('
    · subst opens
      simp only [step, letters]
      by_cases fits : reading.outer.length < room
      · rw [if_pos fits, if_pos (Nat.lt_of_lt_of_le fits le)]
        exact sameUnless_refl _
      · rw [if_neg fits]
        exact .inl rfl
    · refine .inr ?_
      simp only [step, letters]
      split
      · exact absurd rfl opens
      all_goals rfl

theorem Pattern.sameUnless_read {room more : Nat} (le : room ≤ more) (spelling : List Char) :
    SameUnless .tooDeep (read more spelling) (read room spelling) :=
  sameUnless_bind (sameUnless_foldlM (Reading.sameUnless_step le) spelling _) fun _ =>
    sameUnless_refl _

namespace Store

variable {depth more : Nat}

theorem sameUnless_render (store : Store) (le : depth ≤ more) (value : Value) :
    SameUnless .tooDeep (store.render more value) (store.render depth value) := by
  induction depth generalizing more value with
  | zero =>
    cases value with
    | layers list => exact .inl rfl
    | _ => cases more <;> exact sameUnless_refl _
  | succ depth ih =>
    obtain ⟨more, rfl⟩ : ∃ less, more = less + 1 := ⟨more - 1, by omega⟩
    cases value with
    | layers list =>
      rw [render, render]
      exact sameUnless_bind (sameUnless_mapM (ih (Nat.le_of_succ_le_succ le)) _) fun _ =>
        sameUnless_refl _
    | _ => exact sameUnless_refl _

theorem sameUnless_renderAll (store : Store) (le : depth ≤ more) (values : List Value) :
    SameUnless .tooDeep (store.renderAll more values) (store.renderAll depth values) :=
  sameUnless_bind (sameUnless_mapM (store.sameUnless_render le) values) fun _ => sameUnless_refl _

theorem sameUnless_allPairs {test test' : Value → Value → Except Fault Bool}
    (each : ∀ left right, SameUnless .tooDeep (test left right) (test' left right))
    (lefts rights : List Value) :
    SameUnless .tooDeep (allPairs test lefts rights) (allPairs test' lefts rights) := by
  induction lefts generalizing rights with
  | nil => exact sameUnless_refl _
  | cons left lefts ih =>
    cases rights with
    | nil => exact sameUnless_refl _
    | cons right rights =>
      refine sameUnless_bind (each left right) fun holds => ?_
      cases holds with
      | false => exact sameUnless_refl _
      | true => exact ih rights

/-- Comparing down to a greater depth says the same, unless the smaller one was not enough. -/
theorem sameUnless_equal (store : Store) (le : depth ≤ more) (left right : Value) :
    SameUnless .tooDeep (store.equal more left right) (store.equal depth left right) := by
  induction depth generalizing more left right with
  | zero =>
    cases left with
    | layers lefts =>
      cases right with
      | layers rights => exact .inl rfl
      | _ => cases more <;> exact sameUnless_refl _
    | _ => cases more <;> exact sameUnless_refl _
  | succ depth ih =>
    obtain ⟨more, rfl⟩ : ∃ less, more = less + 1 := ⟨more - 1, by omega⟩
    cases left with
    | layers lefts =>
      cases right with
      | layers rights =>
        rw [equal, equal]
        split
        · refine sameUnless_allPairs (fun x y => ?_) _ _
          split
          · exact sameUnless_refl _
          · exact ih (Nat.le_of_succ_le_succ le) x y
        · exact sameUnless_refl _
      | _ => exact sameUnless_refl _
    | _ => exact sameUnless_refl _

end Store

/-! ## Nothing else goes wrong -/

/-- The result is no error but that of the limit. -/
def GivesUpOnly {α : Type} (result : Except Fault α) : Prop :=
  ∀ ⦃fault : Fault⦄, result = .error fault → fault = .tooDeep

section GivesUpOnly

variable {α β : Type}

theorem givesUpOnly_ok (a : α) : GivesUpOnly (.ok a) := by
  intro fault same
  cases same

theorem givesUpOnly_tooDeep : GivesUpOnly (.error .tooDeep : Except Fault α) :=
  fun _ same => (Except.error.inj same).symm

theorem givesUpOnly_bind {x : Except Fault α} {f : α → Except Fault β} (first : GivesUpOnly x)
    (next : ∀ a, GivesUpOnly (f a)) : GivesUpOnly (x >>= f) := by
  cases x with
  | error fault =>
    obtain rfl := first rfl
    exact givesUpOnly_tooDeep
  | ok a => exact next a

theorem givesUpOnly_mapM {f : α → Except Fault β} (each : ∀ a, GivesUpOnly (f a))
    (items : List α) : GivesUpOnly (items.mapM f) := by
  induction items with
  | nil => exact givesUpOnly_ok []
  | cons item items ih =>
    rw [List.mapM_cons]
    exact givesUpOnly_bind (each item) fun _ => givesUpOnly_bind ih fun _ => givesUpOnly_ok _

end GivesUpOnly

namespace Store

theorem givesUpOnly_render (store : Store) (depth : Nat) (value : Value) :
    GivesUpOnly (store.render depth value) := by
  induction depth generalizing value with
  | zero =>
    cases value with
    | layers list => exact givesUpOnly_tooDeep
    | _ => exact givesUpOnly_ok _
  | succ depth ih =>
    cases value with
    | layers list =>
      rw [render]
      exact givesUpOnly_bind (givesUpOnly_mapM ih _) fun _ => givesUpOnly_ok _
    | _ => exact givesUpOnly_ok _

theorem givesUpOnly_renderAll (store : Store) (depth : Nat) (values : List Value) :
    GivesUpOnly (store.renderAll depth values) :=
  givesUpOnly_bind (givesUpOnly_mapM (store.givesUpOnly_render depth) values) fun _ =>
    givesUpOnly_ok _

theorem givesUpOnly_allPairs {test : Value → Value → Except Fault Bool}
    (each : ∀ left right, GivesUpOnly (test left right)) (lefts rights : List Value) :
    GivesUpOnly (allPairs test lefts rights) := by
  induction lefts generalizing rights with
  | nil => exact givesUpOnly_ok true
  | cons left lefts ih =>
    cases rights with
    | nil => exact givesUpOnly_ok true
    | cons right rights =>
      refine givesUpOnly_bind (each left right) fun holds => ?_
      cases holds with
      | false => exact givesUpOnly_ok false
      | true => exact ih rights

/-- Comparing values fails only where they are too deep. -/
theorem givesUpOnly_equal (store : Store) (depth : Nat) (left right : Value) :
    GivesUpOnly (store.equal depth left right) := by
  induction depth generalizing left right with
  | zero =>
    cases left with
    | layers list =>
      cases right with
      | layers list' => exact givesUpOnly_tooDeep
      | _ => exact givesUpOnly_ok _
    | _ => exact givesUpOnly_ok _
  | succ depth ih =>
    cases left with
    | layers list =>
      cases right with
      | layers list' =>
        rw [equal]
        split
        · refine givesUpOnly_allPairs (fun x y => ?_) _ _
          split
          · exact givesUpOnly_ok true
          · exact ih x y
        · exact givesUpOnly_ok false
      | _ => exact givesUpOnly_ok _
    | _ => exact givesUpOnly_ok _

end Store

end Marginalia
