import Mathlib.Data.List.Forall2
import Mathlib.Data.List.Nodup
import Marginalia.Document

/-!
# Documents that say the same

Who receives a document may not see all of it: the members of an object come in any order, and a
truth value may not be told from the number that stands for it. Documents are alike
(`Document.Alike`) if they cannot be told apart even so. Documents that are not alike differ under
every finer comparison, too.

Alike objects with the same names, each once, have alike members in each place (`Alike.values`). In
particular spans are alike only if they are equal.
-/

namespace Marginalia

namespace Document

/-- Documents that say the same, but for the order of members, and for truth values that are
numbers in one of them. -/
inductive Alike : Document → Document → Prop
  | null : Alike .null .null
  | bool (value : Bool) : Alike (.bool value) (.bool value)
  | number (value : Int) : Alike (.number value) (.number value)
  | text (value : String) : Alike (.text value) (.text value)
  | counted (value : Bool) : Alike (.bool value) (.number value.toInt)
  | judged (value : Bool) : Alike (.number value.toInt) (.bool value)
  | list {items items' : List Document} :
    List.Forall₂ Alike items items' → Alike (.list items) (.list items')
  | object {members members' : List (String × Document)} :
    (∀ name, Option.Rel Alike (members.lookup name) (members'.lookup name)) →
    Alike (.object members) (.object members')

theorem lookup_eq_none {name : String} {members : List (String × Document)}
    (free : name ∉ members.map Prod.fst) : members.lookup name = none := by
  rw [List.lookup_eq_none_iff]
  intro member mem
  exact bne_iff_ne.mpr fun same => free (same ▸ List.mem_map_of_mem mem)

mutual

theorem alike_refl (document : Document) : document.Alike document := by
  cases document with
  | null => exact .null
  | bool value => exact .bool value
  | number value => exact .number value
  | text value => exact .text value
  | list items => exact .list (alike_items items)
  | object members => exact .object (alike_members members)

theorem alike_items (items : List Document) : List.Forall₂ Alike items items := by
  cases items with
  | nil => exact .nil
  | cons item rest => exact .cons (alike_refl item) (alike_items rest)

theorem alike_members (members : List (String × Document)) (name : String) :
    Option.Rel Alike (members.lookup name) (members.lookup name) := by
  cases members with
  | nil => exact .none
  | cons member rest =>
    obtain ⟨here, document⟩ := member
    rw [List.lookup_cons]
    split
    · exact .some (alike_refl document)
    · exact alike_members rest name

end

namespace Alike

theorem eq_null {document : Document} (alike : document.Alike .null) : document = .null := by
  cases alike
  rfl

theorem null_eq {document : Document} (alike : Document.null.Alike document) :
    document = .null := by
  cases alike
  rfl

theorem eq_of_text {left right : String} (alike : (Document.text left).Alike (.text right)) :
    left = right := by
  cases alike
  rfl

theorem eq_of_number {left right : Int} (alike : (Document.number left).Alike (.number right)) :
    left = right := by
  cases alike
  rfl

theorem eq_of_bool {left right : Bool} (alike : (Document.bool left).Alike (.bool right)) :
    left = right := by
  cases alike
  rfl

theorem items {items items' : List Document} (alike : (Document.list items).Alike (.list items')) :
    List.Forall₂ Alike items items' := by
  cases alike with
  | list same => exact same

/-- Alike objects that begin with a member of the same name are alike in it. -/
theorem first {name : String} {left right : Document} {members members' : List (String × Document)}
    (alike : (Document.object ((name, left) :: members)).Alike
      (.object ((name, right) :: members'))) : left.Alike right := by
  cases alike with
  | object same =>
    have both := same name
    rw [List.lookup_cons_self, List.lookup_cons_self] at both
    cases both with
    | some found => exact found

/-- What is behind the first member is alike, too, if its name does not come again. -/
theorem rest {name : String} {left right : Document} {members members' : List (String × Document)}
    (alike : (Document.object ((name, left) :: members)).Alike
      (.object ((name, right) :: members')))
    (once : name ∉ members.map Prod.fst) (once' : name ∉ members'.map Prod.fst) :
    (Document.object members).Alike (.object members') := by
  cases alike with
  | object same =>
    refine .object fun other => ?_
    by_cases again : other = name
    · rw [again, lookup_eq_none once, lookup_eq_none once']
      exact .none
    · have both := same other
      rw [List.lookup_cons, List.lookup_cons, beq_false_of_ne again] at both
      exact both

/-- Alike objects with the same names, each once, have alike members in each place. -/
theorem values {members members' : List (String × Document)}
    (alike : (Document.object members).Alike (.object members')) (names : List String)
    (left : members.map Prod.fst = names) (right : members'.map Prod.fst = names)
    (once : names.Nodup) :
    List.Forall₂ Alike (members.map Prod.snd) (members'.map Prod.snd) := by
  induction members generalizing members' names with
  | nil =>
    cases members' with
    | nil => exact .nil
    | cons _ _ => cases left.trans right.symm
  | cons member members ih =>
    cases members' with
    | nil => cases left.trans right.symm
    | cons member' members' =>
      obtain ⟨name, document⟩ := member
      obtain ⟨name', document'⟩ := member'
      subst left
      obtain ⟨same, others⟩ := List.cons.inj right
      change name' = name at same
      subst same
      obtain ⟨first, later⟩ := List.nodup_cons.mp once
      exact .cons alike.first (ih (alike.rest first (others ▸ first)) _ rfl others later)

end Alike

/-- Optional parts with alike documents are both absent, or both there with alike documents. A part
whose document is null would not be told from an absent one. -/
theorem rel_of_ofOption {α : Type} {describe : α → Document} {left right : Option α}
    (alike : (ofOption describe left).Alike (ofOption describe right))
    (lefts : ∀ part ∈ left, describe part ≠ .null)
    (rights : ∀ part ∈ right, describe part ≠ .null) :
    Option.Rel (fun one other => (describe one).Alike (describe other)) left right := by
  cases left with
  | none =>
    cases right with
    | none => exact .none
    | some other => exact absurd alike.null_eq (rights other rfl)
  | some one =>
    cases right with
    | none => exact absurd alike.eq_null (lefts one rfl)
    | some other => exact .some alike

end Document

/-! ## Places -/

theorem Position.eq_of_alike {left right : Position}
    (alike : left.document.Alike right.document) : left = right := by
  obtain _ | ⟨index, _ | ⟨line, _ | ⟨column, _⟩⟩⟩ :=
    alike.values ["index", "line", "column"] rfl rfl (by decide)
  cases left
  cases right
  congr 1
  · exact index.eq_of_number
  · exact line.eq_of_number
  · exact column.eq_of_number

theorem Span.eq_of_alike {left right : Span} (alike : left.document.Alike right.document) :
    left = right := by
  obtain _ | ⟨file, _ | ⟨start, _ | ⟨stop, _⟩⟩⟩ :=
    alike.values ["file", "start", "end"] rfl rfl (by decide)
  cases left
  cases right
  congr 1
  · exact file.eq_of_text
  · exact Position.eq_of_alike start
  · exact Position.eq_of_alike stop

end Marginalia
