import Mathlib.Logic.Hydra
import Marginalia.Proofs.Pattern.Syntax

/-!
# Walking two patterns in lockstep

Whether two patterns overlap can also be found by walking them side by side. A
`Walk` keeps pairs of fronts that were reached by the same characters, those it
has seen and those it has still to look at. It takes a pair, stops if a name may
end at both of its fronts, and otherwise goes on with every character that both
offer, in whatever order.

Every order ends (`Walk.acc_step`), because a character brings a front nearer to
the end of its pattern and a pair is replaced by finitely many nearer ones. And
every order ends with the same answer, that of `Pattern.overlaps`
(`Walk.Explores.answer_eq`): what has been seen is reached by a common
beginning, and once nothing is pending it is closed under common characters.
-/

namespace Marginalia

namespace Marked

/-- A letter of the pattern is marked. -/
def isMarked : Marked → Bool
  | .blank => false
  | .oneOf mark _ => mark
  | .seq first second => first.isMarked || second.isMarked
  | .alt left right => left.isMarked || right.isMarked
  | .opt inner => inner.isMarked

/-- The letters of the pattern. -/
def letters : Marked → List Char
  | .blank => []
  | .oneOf _ letters => letters
  | .seq first second => first.letters ++ second.letters
  | .alt left right => left.letters ++ right.letters
  | .opt inner => inner.letters

/-- How many letters a name of the pattern has at most. -/
def longest : Marked → Nat
  | .blank => 0
  | .oneOf _ _ => 1
  | .seq first second => first.longest + second.longest
  | .alt left right => max left.longest right.longest
  | .opt inner => inner.longest

/-- How many letters may stand from a marked one to the end of a name, the marked one included. -/
def remaining : Marked → Nat
  | .blank => 0
  | .oneOf mark _ => if mark then 1 else 0
  | .seq first second =>
    max (if first.remaining = 0 then 0 else first.remaining + second.longest) second.remaining
  | .alt left right => max left.remaining right.remaining
  | .opt inner => inner.remaining

theorem isMarked_of_continues {marked : Marked} {rest : List Char}
    (continues : marked.Continues rest) : marked.isMarked = true := by
  induction marked generalizing rest with
  | blank => exact continues.elim
  | oneOf mark letters => exact continues.1
  | seq first second ihFirst ihSecond =>
    rw [isMarked, Bool.or_eq_true]
    rcases continues with ⟨front, back, _, continues, _⟩ | continues
    · exact .inl (ihFirst continues)
    · exact .inr (ihSecond continues)
  | alt left right ihLeft ihRight =>
    rw [isMarked, Bool.or_eq_true]
    exact continues.imp ihLeft ihRight
  | opt inner ih => exact ih continues

theorem mem_letters_of_isMarked_shift {c : Char} {entering : Bool} {marked : Marked}
    (isMarked : (marked.shift [c] entering).isMarked = true) : c ∈ marked.letters := by
  induction marked generalizing entering with
  | blank => cases isMarked
  | oneOf mark letters =>
    rw [shift, Marked.isMarked, Bool.and_eq_true, List.any_eq_true] at isMarked
    obtain ⟨_, d, mem, fits⟩ := isMarked
    rwa [← List.mem_singleton.mp (List.contains_iff_mem.mp fits)]
  | seq first second ihFirst ihSecond =>
    rw [shift, Marked.isMarked, Bool.or_eq_true] at isMarked
    rw [letters, List.mem_append]
    exact isMarked.imp ihFirst ihSecond
  | alt left right ihLeft ihRight =>
    rw [shift, Marked.isMarked, Bool.or_eq_true] at isMarked
    rw [letters, List.mem_append]
    exact isMarked.imp ihLeft ihRight
  | opt inner ih => exact ih isMarked

theorem longest_shift (characters : List Char) (entering : Bool) (marked : Marked) :
    (marked.shift characters entering).longest = marked.longest := by
  induction marked generalizing entering with
  | blank => rfl
  | oneOf mark letters => rfl
  | seq first second ihFirst ihSecond => rw [shift, longest, longest, ihFirst, ihSecond]
  | alt left right ihLeft ihRight => rw [shift, longest, longest, ihLeft, ihRight]
  | opt inner ih => rw [shift, longest, longest, ih]

/-- From a marked letter at least that letter itself is left. -/
theorem remaining_pos_of_isMarked {marked : Marked} (isMarked : marked.isMarked = true) :
    0 < marked.remaining := by
  induction marked with
  | blank => cases isMarked
  | oneOf mark letters =>
    rw [remaining, if_pos (show mark = true from isMarked)]
    exact Nat.one_pos
  | seq first second ihFirst ihSecond =>
    rw [Marked.isMarked, Bool.or_eq_true] at isMarked
    rw [remaining]
    rcases isMarked with isMarked | isMarked
    · have positive := ihFirst isMarked
      rw [if_neg (Nat.ne_of_gt positive)]
      omega
    · have positive := ihSecond isMarked
      omega
  | alt left right ihLeft ihRight =>
    rw [Marked.isMarked, Bool.or_eq_true] at isMarked
    rw [remaining]
    rcases isMarked with isMarked | isMarked
    · have positive := ihLeft isMarked
      omega
    · have positive := ihRight isMarked
      omega
  | opt inner ih => exact ih isMarked

/-- A character brings every mark one letter nearer to the end. -/
theorem remaining_shift_le (characters : List Char) (entering : Bool) (marked : Marked) :
    (marked.shift characters entering).remaining ≤
      max (if entering then marked.longest else 0) (marked.remaining - 1) := by
  induction marked generalizing entering with
  | blank => exact Nat.zero_le _
  | oneOf mark letters =>
    rw [shift, remaining, longest]
    cases entering with
    | false => exact Nat.zero_le _
    | true =>
      rw [if_pos rfl]
      split <;> omega
  | seq first second ihFirst ihSecond =>
    have firstLe := ihFirst entering
    have secondLe := ihSecond ((entering && first.admitsEmpty) || first.endsHere)
    -- A mark comes into the second part from the beginning, or from a mark of the first part.
    have entered : ((entering && first.admitsEmpty) || first.endsHere) = true →
        entering = true ∨ 0 < first.remaining := by
      rw [Bool.or_eq_true, Bool.and_eq_true]
      intro entered
      rcases entered with ⟨enters, _⟩ | ends
      · exact .inl enters
      · have continues := (endsHere_iff first).mp ends
        exact .inr (remaining_pos_of_isMarked (isMarked_of_continues continues))
    rw [shift, remaining, remaining, longest, longest_shift]
    refine Nat.max_le.mpr ⟨?_, ?_⟩
    · split
      next => exact Nat.zero_le _
      next moved =>
        cases entering with
        | false =>
          rw [if_neg Bool.false_ne_true] at firstLe
          rw [if_neg (show first.remaining ≠ 0 by omega)]
          omega
        | true =>
          rw [if_pos rfl] at firstLe ⊢
          split <;> omega
    · split at secondLe
      next enters =>
        rcases entered enters with rfl | marked
        · rw [if_pos rfl]
          omega
        · rw [if_neg (Nat.ne_of_gt marked)]
          omega
      next => omega
  | alt left right ihLeft ihRight =>
    have leftLe := ihLeft entering
    have rightLe := ihRight entering
    rw [shift, remaining, remaining, longest]
    cases entering with
    | false =>
      rw [if_neg Bool.false_ne_true] at leftLe rightLe ⊢
      omega
    | true =>
      rw [if_pos rfl] at leftLe rightLe ⊢
      omega
  | opt inner ih => exact ih entering

end Marked

namespace Front

/-- A name may go on with the character. -/
def offers (front : Front) (c : Char) : Bool :=
  (front.read [c]).marked.isMarked

/-- The characters a name may go on with. -/
def symbols (front : Front) : List Char :=
  front.marked.letters.filter front.offers

/-- How many characters a name may still take, and one more where none has been read. -/
def rank (front : Front) : Nat :=
  max front.marked.remaining (if front.atStart then front.marked.longest + 1 else 0)

theorem mem_symbols_iff {front : Front} {c : Char} :
    c ∈ front.symbols ↔ front.offers c = true := by
  rw [symbols, List.mem_filter]
  exact and_iff_right_of_imp Marked.mem_letters_of_isMarked_shift

theorem mem_symbols_of_continues {front : Front} {c : Char} {rest : List Char}
    (continues : front.Continues (c :: rest)) : c ∈ front.symbols := by
  have read := (continues_read [c] front rest).mpr ⟨c, List.mem_singleton.mpr rfl, continues⟩
  rw [mem_symbols_iff]
  rcases read with marked | ⟨atStart, _⟩
  · exact Marked.isMarked_of_continues marked
  · cases atStart

/-- A character that is offered leaves less to read. -/
theorem rank_read_lt {front : Front} {c : Char} (mem : c ∈ front.symbols) :
    (front.read [c]).rank < front.rank := by
  have positive := Marked.remaining_pos_of_isMarked (mem_symbols_iff.mp mem)
  have nearer := Marked.remaining_shift_le [c] front.atStart front.marked
  change max (front.read [c]).marked.remaining 0 < front.rank
  change (front.read [c]).marked.remaining ≤ _ at nearer
  unfold rank
  split at nearer
  next atStart =>
    rw [if_pos atStart]
    omega
  next => omega

theorem readAll_append (name rest : List Char) (front : Front) :
    front.readAll (name ++ rest) = (front.readAll name).readAll rest :=
  List.foldl_append

end Front

/-- The pairs of fronts that a walk over two patterns has come to, and those among them that it
has still to look at. -/
structure Walk where
  seen : List (Front × Front)
  pending : List (Front × Front)

namespace Walk

/-- A walk before its first step. -/
def start (left right : Pattern) : Walk :=
  ⟨[(.start left, .start right)], [(.start left, .start right)]⟩

/-- A name may end at both fronts. -/
def meets (pair : Front × Front) : Bool :=
  pair.1.accepts && pair.2.accepts

/-- The second pair is one character, offered by both fronts, behind the first. -/
def Follows (pair next : Front × Front) : Prop :=
  ∃ c, c ∈ pair.1.symbols ∧ c ∈ pair.2.symbols ∧ next = (pair.1.read [c], pair.2.read [c])

/-- What the walk says, if it stops here. -/
def answer : Walk → Option Bool
  | ⟨_, []⟩ => some false
  | ⟨_, pair :: _⟩ => if meets pair then some true else none

/-- One step takes a pending pair and puts the pairs that follow it and are new in its place. They
may come in any order. -/
inductive Step : Walk → Walk → Prop
  | look {seen pending fresh : List (Front × Front)} {pair : Front × Front} :
    meets pair = false →
    (∀ next, next ∈ fresh ↔ next ∉ seen ∧ Follows pair next) →
    Step ⟨seen, pair :: pending⟩ ⟨fresh ++ seen, fresh ++ pending⟩

/-- The pairs that follow a pair, in one order. -/
def followers (pair : Front × Front) : List (Front × Front) :=
  (pair.1.symbols.filter pair.2.symbols.contains).map fun c => (pair.1.read [c], pair.2.read [c])

theorem mem_followers_iff {pair next : Front × Front} :
    next ∈ followers pair ↔ Follows pair next := by
  rw [followers, List.mem_map]
  refine exists_congr fun c => ?_
  rw [List.mem_filter, List.contains_iff_mem, and_assoc]
  exact and_congr_right fun _ => and_congr_right fun _ => eq_comm

/-- A walk that has no answer yet can go on. -/
theorem exists_step {walk : Walk} (unanswered : walk.answer = none) :
    ∃ later, Step walk later := by
  obtain ⟨seen, pending⟩ := walk
  cases pending with
  | nil => cases unanswered
  | cons pair pending =>
    cases meeting : meets pair with
    | true =>
      rw [answer, if_pos meeting] at unanswered
      cases unanswered
    | false =>
      let fresh := (followers pair).filter fun next => !seen.contains next
      have mem : ∀ next, next ∈ fresh ↔ next ∉ seen ∧ Follows pair next := by
        intro next
        rw [List.mem_filter, mem_followers_iff, and_comm, Bool.not_eq_true',
          ← Bool.not_eq_true, List.contains_iff_mem]
      exact ⟨_, .look meeting mem⟩

/-! ## Every order ends -/

/-- How far the left fronts of the pending pairs are from the end of their names. -/
def ranks (walk : Walk) : Multiset Nat :=
  walk.pending.map fun pair => pair.1.rank

theorem ranks_step {walk later : Walk} (step : Step walk later) :
    Relation.CutExpand (· < ·) later.ranks walk.ranks := by
  cases step with
  | @look seen pending fresh pair apart mem =>
    refine ⟨↑(fresh.map fun next => next.1.rank), pair.1.rank, ?_, ?_⟩
    · intro rank isRank
      obtain ⟨next, isFresh, rfl⟩ := List.mem_map.mp (Multiset.mem_coe.mp isRank)
      obtain ⟨_, c, leftOffers, _, rfl⟩ := (mem next).mp isFresh
      exact Front.rank_read_lt leftOffers
    · rw [ranks, ranks, List.map_append, List.map_cons, ← Multiset.coe_add, ← Multiset.cons_coe,
        ← Multiset.singleton_add]
      ac_rfl

/-- No walk goes on for ever. -/
theorem acc_step (walk : Walk) : Acc (fun later earlier => Step earlier later) walk := by
  have wellFounded : WellFounded (Relation.CutExpand fun rank other : Nat => rank < other) :=
    Nat.lt_wfRel.wf.cutExpand
  exact Subrelation.accessible ranks_step (InvImage.accessible ranks (wellFounded.apply walk.ranks))

/-! ## Every order has the same answer -/

variable {left right : Pattern} {walk later : Walk}

/-- What holds along a walk: what it has seen is reached by a common beginning of names, and what
it has looked at is apart and has all its followers seen. -/
structure Explores (left right : Pattern) (walk : Walk) : Prop where
  reached : ∀ pair ∈ walk.seen, ∃ name,
    pair = ((Front.start left).readAll name, (Front.start right).readAll name)
  starts : (Front.start left, Front.start right) ∈ walk.seen
  pending : ∀ pair ∈ walk.pending, pair ∈ walk.seen
  looked : ∀ pair ∈ walk.seen, pair ∈ walk.pending ∨
    meets pair = false ∧ ∀ next, Follows pair next → next ∈ walk.seen

theorem explores_start (left right : Pattern) : Explores left right (start left right) where
  reached := by
    intro pair mem
    rw [List.mem_singleton.mp mem]
    exact ⟨[], rfl⟩
  starts := List.mem_singleton.mpr rfl
  pending := fun _ mem => mem
  looked := fun _ mem => .inl mem

/-- A step of the walk keeps what holds along it: the pair that is looked at is apart, its followers
are seen with it, and each of them is reached by one letter more. -/
theorem Explores.step (explores : Explores left right walk) (step : Step walk later) :
    Explores left right later := by
  cases step with
  | @look seen pending fresh pair apart mem =>
    have here : pair ∈ seen := explores.pending pair List.mem_cons_self
    constructor
    · intro other isSeen
      rcases List.mem_append.mp isSeen with isFresh | isSeen
      · obtain ⟨_, c, _, _, rfl⟩ := (mem other).mp isFresh
        obtain ⟨name, rfl⟩ := explores.reached pair here
        refine ⟨name ++ [c], ?_⟩
        rw [Front.readAll_append, Front.readAll_append]
        rfl
      · exact explores.reached other isSeen
    · exact List.mem_append_right fresh explores.starts
    · intro other isPending
      rcases List.mem_append.mp isPending with isFresh | isPending
      · exact List.mem_append_left seen isFresh
      · have isSeen := explores.pending other (List.mem_cons_of_mem pair isPending)
        exact List.mem_append_right fresh isSeen
    · intro other isSeen
      rcases List.mem_append.mp isSeen with isFresh | isSeen
      · exact .inl (List.mem_append_left pending isFresh)
      · rcases explores.looked other isSeen with isPending | ⟨otherApart, closed⟩
        · rcases List.mem_cons.mp isPending with rfl | isPending
          · -- The pair that was looked at: what follows it is new, or was seen before.
            refine .inr ⟨apart, fun next follows => ?_⟩
            by_cases isSeen : next ∈ seen
            · exact List.mem_append_right fresh isSeen
            · exact List.mem_append_left seen ((mem next).mpr ⟨isSeen, follows⟩)
          · exact .inl (List.mem_append_right fresh isPending)
        · refine .inr ⟨otherApart, fun next follows => ?_⟩
          exact List.mem_append_right fresh (closed next follows)

theorem Explores.run (explores : Explores left right walk)
    (run : Relation.ReflTransGen Step walk later) : Explores left right later := by
  induction run with
  | refl => exact explores
  | tail _ step ih => exact ih.step step

/-- Once nothing is pending, no name goes on from both fronts of a pair that was seen. -/
theorem Explores.not_continues {seen : List (Front × Front)} {pair : Front × Front}
    (explores : Explores left right ⟨seen, []⟩) (isSeen : pair ∈ seen) (rest : List Char) :
    ¬ (pair.1.Continues rest ∧ pair.2.Continues rest) := by
  intro both
  obtain ⟨leftContinues, rightContinues⟩ := both
  have looked : meets pair = false ∧ ∀ next, Follows pair next → next ∈ seen :=
    (explores.looked pair isSeen).resolve_left List.not_mem_nil
  induction rest generalizing pair with
  | nil =>
    have meeting : meets pair = true := by
      rw [meets, Bool.and_eq_true, Front.accepts_iff, Front.accepts_iff]
      exact ⟨leftContinues, rightContinues⟩
    rw [looked.1] at meeting
    cases meeting
  | cons c rest ih =>
    have self : c ∈ [c] := List.mem_singleton.mpr rfl
    have leftOffers := Front.mem_symbols_of_continues leftContinues
    have rightOffers := Front.mem_symbols_of_continues rightContinues
    have isSeen : (pair.1.read [c], pair.2.read [c]) ∈ seen :=
      looked.2 _ ⟨c, leftOffers, rightOffers, rfl⟩
    refine ih isSeen ?_ ?_ ?_
    · exact (Front.continues_read [c] pair.1 rest).mpr ⟨c, self, leftContinues⟩
    · exact (Front.continues_read [c] pair.2 rest).mpr ⟨c, self, rightContinues⟩
    · exact (explores.looked _ isSeen).resolve_left List.not_mem_nil

/-- An answer is that of `Pattern.overlaps`. -/
theorem Explores.answer_eq (explores : Explores left right walk) {verdict : Bool}
    (answered : walk.answer = some verdict) : verdict = left.overlaps right := by
  obtain ⟨seen, pending⟩ := walk
  cases pending with
  | nil =>
    cases answered
    refine (Bool.eq_false_iff.mpr fun overlaps => ?_).symm
    obtain ⟨name, leftSpelled, rightSpelled⟩ := (Pattern.overlaps_iff left right).mp overlaps
    refine explores.not_continues explores.starts name ⟨?_, ?_⟩
    · exact (Front.continues_start left name).mpr leftSpelled
    · exact (Front.continues_start right name).mpr rightSpelled
  | cons pair pending =>
    rw [answer] at answered
    split at answered
    next meeting =>
      cases answered
      obtain ⟨name, rfl⟩ := explores.reached pair (explores.pending pair List.mem_cons_self)
      rw [meets, Bool.and_eq_true] at meeting
      refine ((Pattern.overlaps_iff left right).mpr ⟨name, ?_, ?_⟩).symm
      · exact (Pattern.accepts_iff left name).mp meeting.1
      · exact (Pattern.accepts_iff right name).mp meeting.2
    next => cases answered

end Walk

/-- The answer for equal spellings is that of the patterns, as every pattern spells a name. -/
theorem spellingsOverlap_eq (left right : String) : spellingsOverlap left right =
    (Pattern.ofSpelling left.toList).overlaps (Pattern.ofSpelling right.toList) := by
  rw [spellingsOverlap]
  by_cases same : left = right
  · obtain ⟨name, spelled⟩ := Pattern.exists_spells_ofSpelling right.toList
    rw [same, beq_self_eq_true, Bool.true_or]
    exact ((Pattern.overlaps_iff _ _).mpr ⟨name, spelled, spelled⟩).symm
  · rw [beq_false_of_ne same, Bool.false_or]

/-- Two spellings overlap exactly if both accept some name. Walking their patterns side by side
gives the same answer in whatever order shared characters are tried, and every order ends. -/
theorem spellingsOverlap_iff (left right : String) :
    (spellingsOverlap left right = true ↔
      ∃ name, (Pattern.ofSpelling left.toList).accepts name = true ∧
        (Pattern.ofSpelling right.toList).accepts name = true) ∧
      Acc (fun later earlier => Walk.Step earlier later)
        (.start (Pattern.ofSpelling left.toList) (Pattern.ofSpelling right.toList)) ∧
      ∀ walk, Relation.ReflTransGen Walk.Step
        (.start (Pattern.ofSpelling left.toList) (Pattern.ofSpelling right.toList)) walk →
          (walk.answer = none ∧ ∃ later, walk.Step later) ∨
            walk.answer = some (spellingsOverlap left right) := by
  refine ⟨?_, Walk.acc_step _, fun walk run => ?_⟩
  · rw [spellingsOverlap_eq, Pattern.overlaps_iff]
    refine exists_congr fun name => ?_
    rw [Pattern.accepts_iff, Pattern.accepts_iff]
  · have explores := (Walk.explores_start _ _).run run
    cases answered : walk.answer with
    | none => exact .inl ⟨rfl, Walk.exists_step answered⟩
    | some verdict =>
      rw [spellingsOverlap_eq, explores.answer_eq answered]
      exact .inr rfl

end Marginalia
