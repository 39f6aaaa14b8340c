import Marginalia.Pattern.Overlap

/-!
# What fronts stand for

A front over a pattern stands for the ways in which a name of the pattern can go
on (`Front.Continues`). Reading a character takes that character off
(`Front.continues_read`), merging is union (`Front.continues_merge`), and moving a
front over a whole pattern takes off any name of that pattern
(`Pattern.continues_advance`).

So a pattern accepts exactly the names it spells (`Pattern.accepts_iff`), and two
patterns overlap exactly if they spell a name in common (`Pattern.overlaps_iff`).
-/

namespace Marginalia

namespace Pattern

variable {first second left right inner : Pattern} {letters name : List Char}

theorem spells_blank_iff : Spells .blank name ↔ name = [] := by
  constructor
  · intro spelled
    cases spelled
    rfl
  · rintro rfl
    exact .blank

theorem spells_oneOf_iff : Spells (.oneOf letters) name ↔ ∃ c ∈ letters, name = [c] := by
  constructor
  · intro spelled
    cases spelled with
    | oneOf mem => exact ⟨_, mem, rfl⟩
  · intro isLetter
    obtain ⟨c, mem, rfl⟩ := isLetter
    exact .oneOf mem

theorem spells_seq_iff : Spells (.seq first second) name ↔
    ∃ front back, name = front ++ back ∧ Spells first front ∧ Spells second back := by
  constructor
  · intro spelled
    cases spelled with
    | seq front back => exact ⟨_, _, rfl, front, back⟩
  · intro parts
    obtain ⟨front, back, rfl, frontSpelled, backSpelled⟩ := parts
    exact .seq frontSpelled backSpelled

theorem spells_alt_iff : Spells (.alt left right) name ↔ Spells left name ∨ Spells right name := by
  constructor
  · intro spelled
    cases spelled with
    | left spelled => exact .inl spelled
    | right spelled => exact .inr spelled
  · intro either
    rcases either with spelled | spelled
    · exact .left spelled
    · exact .right spelled

theorem spells_opt_iff : Spells (.opt inner) name ↔ name = [] ∨ Spells inner name := by
  constructor
  · intro spelled
    cases spelled with
    | absent => exact .inl rfl
    | present spelled => exact .inr spelled
  · intro either
    rcases either with rfl | spelled
    · exact .absent
    · exact .present spelled

end Pattern

open Pattern (Spells)

namespace Marked

/-- The pattern under the marks. -/
def pattern : Marked → Pattern
  | .blank => .blank
  | .oneOf _ letters => .oneOf letters
  | .seq first second => .seq first.pattern second.pattern
  | .alt left right => .alt left.pattern right.pattern
  | .opt inner => .opt inner.pattern

/-- What may stand between a marked letter and the end of a name. -/
def Continues : Marked → List Char → Prop
  | .blank, _ => False
  | .oneOf mark _, rest => mark = true ∧ rest = []
  | .seq first second, rest =>
    (∃ front back, rest = front ++ back ∧ first.Continues front ∧ Spells second.pattern back) ∨
      second.Continues rest
  | .alt left right, rest => left.Continues rest ∨ right.Continues rest
  | .opt inner, rest => inner.Continues rest

theorem pattern_ofPattern (pattern : Pattern) : (ofPattern pattern).pattern = pattern := by
  induction pattern with
  | blank => rfl
  | oneOf letters => rfl
  | seq first second ihFirst ihSecond => rw [ofPattern, Marked.pattern, ihFirst, ihSecond]
  | alt left right ihLeft ihRight => rw [ofPattern, Marked.pattern, ihLeft, ihRight]
  | opt inner ih => rw [ofPattern, Marked.pattern, ih]

theorem not_continues_ofPattern (pattern : Pattern) (rest : List Char) :
    ¬ (ofPattern pattern).Continues rest := by
  induction pattern generalizing rest with
  | blank => exact id
  | oneOf letters => exact fun marked => absurd marked.1 (by decide)
  | seq first second ihFirst ihSecond =>
    intro continues
    rcases continues with ⟨front, back, _, marked, _⟩ | marked
    · exact ihFirst front marked
    · exact ihSecond rest marked
  | alt left right ihLeft ihRight =>
    intro continues
    rcases continues with marked | marked
    · exact ihLeft rest marked
    · exact ihRight rest marked
  | opt inner ih => exact ih rest

theorem pattern_shift (characters : List Char) (entering : Bool) (marked : Marked) :
    (marked.shift characters entering).pattern = marked.pattern := by
  induction marked generalizing entering with
  | blank => rfl
  | oneOf mark letters => rfl
  | seq first second ihFirst ihSecond => rw [shift, pattern, pattern, ihFirst, ihSecond]
  | alt left right ihLeft ihRight => rw [shift, pattern, pattern, ihLeft, ihRight]
  | opt inner ih => rw [shift, pattern, pattern, ih]

/-- `Marked.admitsEmpty` is right about the empty name. It does not look at the marks. -/
theorem admitsEmpty_iff (marked : Marked) :
    marked.admitsEmpty = true ↔ Spells marked.pattern [] := by
  induction marked with
  | blank => exact ⟨fun _ => .blank, fun _ => rfl⟩
  | oneOf mark letters =>
    constructor
    · intro admits
      cases admits
    · intro spelled
      cases spelled
  | seq first second ihFirst ihSecond =>
    rw [admitsEmpty, Bool.and_eq_true, ihFirst, ihSecond, pattern, Pattern.spells_seq_iff]
    constructor
    · intro both
      obtain ⟨firstSpelled, secondSpelled⟩ := both
      exact ⟨[], [], rfl, firstSpelled, secondSpelled⟩
    · intro parts
      obtain ⟨front, back, whole, firstSpelled, secondSpelled⟩ := parts
      obtain ⟨rfl, rfl⟩ := List.append_eq_nil_iff.mp whole.symm
      exact ⟨firstSpelled, secondSpelled⟩
  | alt left right ihLeft ihRight =>
    rw [admitsEmpty, Bool.or_eq_true, ihLeft, ihRight, pattern, Pattern.spells_alt_iff]
  | opt inner ih => exact ⟨fun _ => .absent, fun _ => rfl⟩

theorem endsHere_iff (marked : Marked) : marked.endsHere = true ↔ marked.Continues [] := by
  induction marked with
  | blank => exact ⟨fun ends => absurd ends (by decide), False.elim⟩
  | oneOf mark letters => exact ⟨fun ends => ⟨ends, rfl⟩, And.left⟩
  | seq first second ihFirst ihSecond =>
    rw [endsHere, Bool.or_eq_true, Bool.and_eq_true, ihFirst, ihSecond, admitsEmpty_iff, Continues]
    refine or_congr ⟨?_, ?_⟩ Iff.rfl
    · intro both
      obtain ⟨firstEnds, secondSpelled⟩ := both
      exact ⟨[], [], rfl, firstEnds, secondSpelled⟩
    · intro parts
      obtain ⟨front, back, whole, firstEnds, secondSpelled⟩ := parts
      obtain ⟨rfl, rfl⟩ := List.append_eq_nil_iff.mp whole.symm
      exact ⟨firstEnds, secondSpelled⟩
  | alt left right ihLeft ihRight => rw [endsHere, Bool.or_eq_true, ihLeft, ihRight, Continues]
  | opt inner ih => exact ih

/-- What may be read from a mark, or from the beginning if the reading stands there. -/
def ContinuesFrom (entering : Bool) (marked : Marked) (rest : List Char) : Prop :=
  marked.Continues rest ∨ entering = true ∧ Spells marked.pattern rest

/-- The next character belongs to the first part, or to the second one if the first may end here. -/
theorem continuesFrom_seq_cons {entering : Bool} {first second : Marked} {c : Char}
    {rest : List Char} :
    (seq first second).ContinuesFrom entering (c :: rest) ↔
      (∃ front back, rest = front ++ back ∧ first.ContinuesFrom entering (c :: front) ∧
        Spells second.pattern back) ∨
      second.ContinuesFrom ((entering && first.admitsEmpty) || first.endsHere) (c :: rest) := by
  have before : ((entering && first.admitsEmpty) || first.endsHere) = true ↔
      entering = true ∧ Spells first.pattern [] ∨ first.Continues [] := by
    rw [Bool.or_eq_true, Bool.and_eq_true, admitsEmpty_iff, endsHere_iff]
  constructor
  · intro continues
    rcases continues with (⟨front, back, whole, marked, spelled⟩ | marked) | ⟨enters, spelled⟩
    · rcases List.cons_eq_append_iff.mp whole with ⟨rfl, rfl⟩ | ⟨front, rfl, rfl⟩
      · exact .inr (.inr ⟨before.mpr (.inr marked), spelled⟩)
      · exact .inl ⟨front, back, rfl, .inl marked, spelled⟩
    · exact .inr (.inl marked)
    · obtain ⟨front, back, whole, firstSpelled, secondSpelled⟩ := Pattern.spells_seq_iff.mp spelled
      rcases List.cons_eq_append_iff.mp whole with ⟨rfl, rfl⟩ | ⟨front, rfl, rfl⟩
      · exact .inr (.inr ⟨before.mpr (.inl ⟨enters, firstSpelled⟩), secondSpelled⟩)
      · exact .inl ⟨front, back, rfl, .inr ⟨enters, firstSpelled⟩, secondSpelled⟩
  · intro parts
    rcases parts with ⟨front, back, rfl, marked | ⟨enters, first⟩, second⟩ |
      marked | ⟨enters, spelled⟩
    · exact .inl (.inl ⟨c :: front, back, rfl, marked, second⟩)
    · exact .inr ⟨enters, .seq first second⟩
    · exact .inl (.inr marked)
    · rcases before.mp enters with ⟨enters, empty⟩ | ended
      · exact .inr ⟨enters, .seq empty spelled⟩
      · exact .inl (.inl ⟨[], c :: rest, rfl, ended, spelled⟩)

theorem continuesFrom_alt {entering : Bool} {left right : Marked} {rest : List Char} :
    (alt left right).ContinuesFrom entering rest ↔
      left.ContinuesFrom entering rest ∨ right.ContinuesFrom entering rest := by
  rw [ContinuesFrom, Continues, pattern, Pattern.spells_alt_iff, and_or_left, or_or_or_comm]
  rfl

theorem continuesFrom_opt_cons {entering : Bool} {inner : Marked} {c : Char} {rest : List Char} :
    (opt inner).ContinuesFrom entering (c :: rest) ↔ inner.ContinuesFrom entering (c :: rest) := by
  rw [ContinuesFrom, Continues, pattern, Pattern.spells_opt_iff,
    or_iff_right (List.cons_ne_nil c rest)]
  rfl

/-- After a character that fits, a name goes on as it did from the marks before the character, or
from the beginning if the reading stood there. -/
theorem continues_shift (characters : List Char) (entering : Bool) (marked : Marked)
    (rest : List Char) :
    (marked.shift characters entering).Continues rest ↔
      ∃ c ∈ characters, marked.ContinuesFrom entering (c :: rest) := by
  induction marked generalizing entering rest with
  | blank =>
    refine ⟨False.elim, ?_⟩
    intro fitting
    rcases fitting with ⟨c, _, marked | ⟨_, spelled⟩⟩
    · exact marked
    · cases spelled
  | oneOf mark letters =>
    rw [shift, Continues, Bool.and_eq_true, List.any_eq_true]
    constructor
    · intro fits
      obtain ⟨⟨enters, c, mem, fits⟩, rfl⟩ := fits
      exact ⟨c, List.contains_iff_mem.mp fits, .inr ⟨enters, .oneOf mem⟩⟩
    · intro fitting
      rcases fitting with ⟨c, fits, ⟨_, other⟩ | ⟨enters, spelled⟩⟩
      · cases other
      · obtain ⟨d, mem, same⟩ := Pattern.spells_oneOf_iff.mp spelled
        obtain ⟨rfl, rfl⟩ := List.cons.inj same
        exact ⟨⟨enters, c, mem, List.contains_iff_mem.mpr fits⟩, rfl⟩
  | seq first second ihFirst ihSecond =>
    simp only [shift, Continues, ihFirst, ihSecond, pattern_shift, continuesFrom_seq_cons]
    constructor
    · intro continues
      rcases continues with ⟨front, back, whole, ⟨c, fits, marked⟩, spelled⟩ | ⟨c, fits, marked⟩
      · exact ⟨c, fits, .inl ⟨front, back, whole, marked, spelled⟩⟩
      · exact ⟨c, fits, .inr marked⟩
    · intro fitting
      rcases fitting with ⟨c, fits, ⟨front, back, whole, marked, spelled⟩ | marked⟩
      · exact .inl ⟨front, back, whole, ⟨c, fits, marked⟩, spelled⟩
      · exact .inr ⟨c, fits, marked⟩
  | alt left right ihLeft ihRight =>
    simp only [shift, Continues, ihLeft, ihRight, continuesFrom_alt, and_or_left, exists_or]
  | opt inner ih => simp only [shift, Continues, ih, continuesFrom_opt_cons]

/-- Merging two markings of one pattern gives a marking of the same pattern. -/
theorem pattern_merge {marked other : Marked} (same : marked.pattern = other.pattern) :
    (marked.merge other).pattern = marked.pattern := by
  induction marked generalizing other with
  | blank => rfl
  | oneOf mark letters => cases other <;> rfl
  | seq first second ihFirst ihSecond =>
    cases other with
    | seq first' second' =>
      obtain ⟨sameFirst, sameSecond⟩ := Pattern.seq.inj same
      rw [merge, pattern, pattern, ihFirst sameFirst, ihSecond sameSecond]
    | _ => rfl
  | alt left right ihLeft ihRight =>
    cases other with
    | alt left' right' =>
      obtain ⟨sameLeft, sameRight⟩ := Pattern.alt.inj same
      rw [merge, pattern, pattern, ihLeft sameLeft, ihRight sameRight]
    | _ => rfl
  | opt inner ih =>
    cases other with
    | opt inner' => rw [merge, pattern, pattern, ih (Pattern.opt.inj same)]
    | _ => rfl

/-- A name goes on from the merge of two markings as it goes on from either of them. -/
theorem continues_merge {marked other : Marked} (same : marked.pattern = other.pattern)
    (rest : List Char) :
    (marked.merge other).Continues rest ↔ marked.Continues rest ∨ other.Continues rest := by
  induction marked generalizing other rest with
  | blank =>
    cases other with
    | blank => exact (or_self_iff).symm
    | _ => cases same
  | oneOf mark letters =>
    cases other with
    | oneOf mark' letters' =>
      rw [merge, Continues, Continues, Continues, Bool.or_eq_true, or_and_right]
    | _ => cases same
  | seq first second ihFirst ihSecond =>
    cases other with
    | seq first' second' =>
      obtain ⟨sameFirst, sameSecond⟩ := Pattern.seq.inj same
      rw [merge, Continues, Continues, Continues, ihSecond sameSecond, pattern_merge sameSecond,
        ← sameSecond]
      constructor
      · intro continues
        rcases continues with ⟨front, back, rfl, marked, spelled⟩ | marked | marked
        · rcases (ihFirst sameFirst front).mp marked with marked | marked
          · exact .inl (.inl ⟨front, back, rfl, marked, spelled⟩)
          · exact .inr (.inl ⟨front, back, rfl, marked, spelled⟩)
        · exact .inl (.inr marked)
        · exact .inr (.inr marked)
      · intro either
        rcases either with (⟨front, back, rfl, marked, spelled⟩ | marked) |
          (⟨front, back, rfl, marked, spelled⟩ | marked)
        · exact .inl ⟨front, back, rfl, (ihFirst sameFirst front).mpr (.inl marked), spelled⟩
        · exact .inr (.inl marked)
        · exact .inl ⟨front, back, rfl, (ihFirst sameFirst front).mpr (.inr marked), spelled⟩
        · exact .inr (.inr marked)
    | _ => cases same
  | alt left right ihLeft ihRight =>
    cases other with
    | alt left' right' =>
      obtain ⟨sameLeft, sameRight⟩ := Pattern.alt.inj same
      rw [merge, Continues, Continues, Continues, ihLeft sameLeft, ihRight sameRight, or_or_or_comm]
    | _ => cases same
  | opt inner ih =>
    cases other with
    | opt inner' => exact ih (Pattern.opt.inj same) rest
    | _ => cases same

end Marked

namespace Front

/-- The pattern a front is over. -/
def pattern (front : Front) : Pattern :=
  front.marked.pattern

/-- How a name may go on from the front. -/
def Continues (front : Front) (rest : List Char) : Prop :=
  front.marked.Continues rest ∨ front.atStart = true ∧ Spells front.pattern rest

theorem pattern_start (pattern : Pattern) : (start pattern).pattern = pattern :=
  Marked.pattern_ofPattern pattern

theorem continues_start (pattern : Pattern) (rest : List Char) :
    (start pattern).Continues rest ↔ Spells pattern rest := by
  have unmarked : ¬ (start pattern).marked.Continues rest :=
    Marked.not_continues_ofPattern pattern rest
  rw [Continues, pattern_start]
  constructor
  · intro continues
    rcases continues with marked | ⟨_, spelled⟩
    · exact absurd marked unmarked
    · exact spelled
  · exact fun spelled => .inr ⟨rfl, spelled⟩

theorem accepts_iff (front : Front) : front.accepts = true ↔ front.Continues [] := by
  rw [accepts, Bool.or_eq_true, Bool.and_eq_true, Marked.admitsEmpty_iff, Marked.endsHere_iff,
    Continues, or_comm]
  rfl

theorem pattern_read (characters : List Char) (front : Front) :
    (front.read characters).pattern = front.pattern :=
  Marked.pattern_shift characters front.atStart front.marked

theorem continues_read (characters : List Char) (front : Front) (rest : List Char) :
    (front.read characters).Continues rest ↔ ∃ c ∈ characters, front.Continues (c :: rest) := by
  have notAtStart : ¬ ((front.read characters).atStart = true ∧
      Spells (front.read characters).pattern rest) := by
    intro both
    obtain ⟨atStart, _⟩ := both
    cases atStart
  rw [Continues, or_iff_left notAtStart, read, Marked.continues_shift]
  rfl

theorem pattern_merge {left right : Front} (same : left.pattern = right.pattern) :
    (left.merge right).pattern = left.pattern :=
  Marked.pattern_merge same

theorem continues_merge {left right : Front} (same : left.pattern = right.pattern)
    (rest : List Char) :
    (left.merge right).Continues rest ↔ left.Continues rest ∨ right.Continues rest := by
  rw [Continues, pattern_merge same, Continues, Continues, ← same, merge,
    Marked.continues_merge same, Bool.or_eq_true, or_and_right, or_or_or_comm]

/-- Reads a name from a front. -/
def readAll (name : List Char) (front : Front) : Front :=
  name.foldl (fun front c => front.read [c]) front

theorem continues_readAll (name : List Char) (front : Front) (rest : List Char) :
    (front.readAll name).Continues rest ↔ front.Continues (name ++ rest) := by
  induction name generalizing front with
  | nil => exact Iff.rfl
  | cons c name ih =>
    refine (ih (front.read [c])).trans ((continues_read [c] front (name ++ rest)).trans ?_)
    rw [List.cons_append]
    constructor
    · intro fitting
      obtain ⟨d, mem, continues⟩ := fitting
      rwa [List.mem_singleton.mp mem] at continues
    · exact fun continues => ⟨c, List.mem_singleton.mpr rfl, continues⟩

end Front

namespace Pattern

/-- A pattern accepts the names it spells. -/
theorem accepts_iff (pattern : Pattern) (name : List Char) :
    pattern.accepts name = true ↔ Spells pattern name := by
  change ((Front.start pattern).readAll name).accepts = true ↔ _
  rw [Front.accepts_iff, Front.continues_readAll, List.append_nil, Front.continues_start]

theorem pattern_advance (pattern : Pattern) (front : Front) :
    (pattern.advance front).pattern = front.pattern := by
  induction pattern generalizing front with
  | blank => rfl
  | oneOf letters => exact Front.pattern_read letters front
  | seq first second ihFirst ihSecond => rw [advance, ihSecond, ihFirst]
  | alt left right ihLeft ihRight =>
    rw [advance, Front.pattern_merge ((ihLeft front).trans (ihRight front).symm), ihLeft]
  | opt inner ih => rw [advance, Front.pattern_merge (ih front).symm]

/-- Moving a front over a pattern takes off any name of the pattern. -/
theorem continues_advance (pattern : Pattern) (front : Front) (rest : List Char) :
    (pattern.advance front).Continues rest ↔
      ∃ name, Spells pattern name ∧ front.Continues (name ++ rest) := by
  induction pattern generalizing front rest with
  | blank =>
    refine ⟨fun continues => ⟨[], .blank, continues⟩, ?_⟩
    intro named
    obtain ⟨name, spelled, continues⟩ := named
    rwa [spells_blank_iff.mp spelled] at continues
  | oneOf letters =>
    rw [advance, Front.continues_read]
    constructor
    · intro fitting
      obtain ⟨c, mem, continues⟩ := fitting
      exact ⟨[c], .oneOf mem, continues⟩
    · intro named
      obtain ⟨name, spelled, continues⟩ := named
      obtain ⟨c, mem, rfl⟩ := spells_oneOf_iff.mp spelled
      exact ⟨c, mem, continues⟩
  | seq first second ihFirst ihSecond =>
    rw [advance, ihSecond]
    constructor
    · intro named
      obtain ⟨back, backSpelled, continues⟩ := named
      obtain ⟨front', frontSpelled, continues⟩ := (ihFirst front _).mp continues
      refine ⟨front' ++ back, .seq frontSpelled backSpelled, ?_⟩
      rwa [List.append_assoc]
    · intro named
      obtain ⟨name, spelled, continues⟩ := named
      obtain ⟨front', back, rfl, frontSpelled, backSpelled⟩ := spells_seq_iff.mp spelled
      rw [List.append_assoc] at continues
      exact ⟨back, backSpelled, (ihFirst front _).mpr ⟨front', frontSpelled, continues⟩⟩
  | alt left right ihLeft ihRight =>
    have same := (pattern_advance left front).trans (pattern_advance right front).symm
    rw [advance, Front.continues_merge same, ihLeft, ihRight]
    constructor
    · intro either
      rcases either with ⟨name, spelled, continues⟩ | ⟨name, spelled, continues⟩
      · exact ⟨name, .left spelled, continues⟩
      · exact ⟨name, .right spelled, continues⟩
    · intro named
      obtain ⟨name, spelled, continues⟩ := named
      rcases spells_alt_iff.mp spelled with spelled | spelled
      · exact .inl ⟨name, spelled, continues⟩
      · exact .inr ⟨name, spelled, continues⟩
  | opt inner ih =>
    rw [advance, Front.continues_merge (pattern_advance inner front).symm, ih]
    constructor
    · intro either
      rcases either with continues | ⟨name, spelled, continues⟩
      · exact ⟨[], .absent, continues⟩
      · exact ⟨name, .present spelled, continues⟩
    · intro named
      obtain ⟨name, spelled, continues⟩ := named
      rcases spells_opt_iff.mp spelled with rfl | spelled
      · exact .inl continues
      · exact .inr ⟨name, spelled, continues⟩

/-- Two patterns overlap if they spell a name in common. -/
theorem overlaps_iff (left right : Pattern) :
    left.overlaps right = true ↔ ∃ name, Spells left name ∧ Spells right name := by
  rw [overlaps, Front.accepts_iff, continues_advance]
  refine exists_congr fun name => and_congr_right fun _ => ?_
  rw [List.append_nil, Front.continues_start]

end Pattern

end Marginalia
