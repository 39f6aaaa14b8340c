/-!
# Patterns of names

A `Pattern` stands for finitely many names: the empty name, one character out of several, one
pattern after another, one or the other, or a pattern that may be left out. `Spells` says which.
There is no repetition, so no name of a pattern is longer than the pattern.
-/

namespace Marginalia

/-- A finite set of names. -/
inductive Pattern where
  /-- The empty name. -/
  | blank
  /-- One character, any of these. -/
  | oneOf (letters : List Char)
  | seq (first second : Pattern)
  | alt (left right : Pattern)
  | opt (inner : Pattern)
deriving DecidableEq, Repr, Inhabited

namespace Pattern

/-- The names a pattern stands for. -/
inductive Spells : Pattern → List Char → Prop where
  | blank : Spells .blank []
  | oneOf {letters : List Char} {c : Char} : c ∈ letters → Spells (.oneOf letters) [c]
  | seq {first second : Pattern} {front back : List Char} :
      Spells first front → Spells second back → Spells (.seq first second) (front ++ back)
  | left {left right : Pattern} {name : List Char} :
      Spells left name → Spells (.alt left right) name
  | right {left right : Pattern} {name : List Char} :
      Spells right name → Spells (.alt left right) name
  | absent {inner : Pattern} : Spells (.opt inner) []
  | present {inner : Pattern} {name : List Char} : Spells inner name → Spells (.opt inner) name

/-- A pattern for one name only. -/
def literal : List Char → Pattern
  | [] => .blank
  | c :: rest => .seq (.oneOf [c]) (literal rest)

theorem spells_literal_iff {word name : List Char} : Spells (literal word) name ↔ name = word := by
  induction word generalizing name with
  | nil =>
    constructor
    · rintro ⟨⟩; rfl
    · rintro rfl; exact .blank
  | cons c rest ih =>
    constructor
    · intro spelled
      cases spelled with
      | seq front back =>
        cases front with
        | oneOf mem =>
          rw [ih.mp back, List.mem_singleton.mp mem]
          rfl
    · rintro rfl
      exact .seq (.oneOf List.mem_cons_self) (ih.mpr rfl)

end Pattern

end Marginalia
