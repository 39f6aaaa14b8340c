import Marginalia.Pattern.Spelling
import Marginalia.Proofs.Pattern.Language

/-!
# The grammar of spellings

A spelling that means more than itself is a `Choice`: chains of pieces with bars
between them. A piece is a group in parentheses, a class of letters in brackets
or a single character, and a question mark behind it makes it optional. A tree
says how a spelling is cut up (`Choice.text`) and which names it stands for
(`Choice.names`); neither mentions the reader.

Not every tree is the reading of its own text. In a `Proper` one no bracket, bar
or parenthesis stands for itself, and a question mark stands for itself only
where it is not behind a piece that it could mark.

The reader finds a proper tree if there is one (`Choice.feed_text`), finds
nothing else (`Reading.Traces`), and the pattern it makes spells the names of the
tree (`Choice.spells_pattern_iff`).
-/

namespace Marginalia

/-! ## Trees -/

mutual

/-- Chains with bars between them. -/
inductive Choice where
  | one (chain : Chain)
  | more (earlier : Choice) (chain : Chain)

/-- Pieces one after the other, each with or without a question mark. -/
inductive Chain where
  | nil
  | snoc (front : Chain) (piece : Piece) (optional : Bool)

/-- A group, a class of letters, or a character that stands for itself. -/
inductive Piece where
  | group (inner : Choice)
  | oneOf (letters : List Char)
  | char (c : Char)

end

/-- A question mark behind the chain marks its last piece. -/
def Chain.markable : Chain → Bool
  | .nil => false
  | .snoc _ _ optional => !optional

mutual

/-- The spelling of a choice. -/
def Choice.text : Choice → List Char
  | .one chain => chain.text
  | .more earlier chain => earlier.text ++ '|' :: chain.text

/-- The spelling of a chain. -/
def Chain.text : Chain → List Char
  | .nil => []
  | .snoc front piece optional => front.text ++ (piece.text ++ if optional then ['?'] else [])

/-- The spelling of a piece. -/
def Piece.text : Piece → List Char
  | .group inner => '(' :: (inner.text ++ [')'])
  | .oneOf letters => '[' :: (letters ++ [']'])
  | .char c => [c]

end

mutual

/-- The names of a choice: those of its chains. -/
def Choice.names : Choice → List (List Char)
  | .one chain => chain.names
  | .more earlier chain => earlier.names ++ chain.names

/-- The names of a chain: one name of each piece, in order. -/
def Chain.names : Chain → List (List Char)
  | .nil => [[]]
  | .snoc front piece optional =>
    front.names.flatMap fun name =>
      (if optional then [] :: piece.names else piece.names).map (name ++ ·)

/-- The names of a piece. -/
def Piece.names : Piece → List (List Char)
  | .group inner => inner.names
  | .oneOf letters => letters.map fun c => [c]
  | .char c => [[c]]

end

mutual

/-- Every part of the choice is read as what it is. -/
def Choice.Proper : Choice → Prop
  | .one chain => chain.Proper
  | .more earlier chain => earlier.Proper ∧ chain.Proper

/-- Every piece is read as what it is; a question mark that follows an unmarked piece would mark
it. -/
def Chain.Proper : Chain → Prop
  | .nil => True
  | .snoc front piece _ =>
    front.Proper ∧ piece.Proper ∧ (piece = .char '?' → front.markable = false)

/-- The piece is read as what it is. -/
def Piece.Proper : Piece → Prop
  | .group inner => inner.Proper
  | .oneOf letters => letters ≠ [] ∧ ']' ∉ letters
  | .char c => c ∉ ['(', ')', '[', ']', '|']

end

mutual

theorem Choice.names_ne_nil (choice : Choice) (proper : choice.Proper) : choice.names ≠ [] := by
  cases choice with
  | one chain => exact chain.names_ne_nil proper
  | more earlier chain =>
    rw [Choice.names]
    exact List.append_ne_nil_of_left_ne_nil (earlier.names_ne_nil proper.1) _

theorem Chain.names_ne_nil (chain : Chain) (proper : chain.Proper) : chain.names ≠ [] := by
  cases chain with
  | nil => exact List.cons_ne_nil _ _
  | snoc front piece optional =>
    obtain ⟨first, firstMem⟩ := List.exists_mem_of_ne_nil _ (front.names_ne_nil proper.1)
    obtain ⟨last, lastMem⟩ := List.exists_mem_of_ne_nil _ (piece.names_ne_nil proper.2.1)
    have mem : first ++ last ∈ (Chain.snoc front piece optional).names := by
      rw [Chain.names, List.mem_flatMap]
      refine ⟨first, firstMem, List.mem_map.mpr ⟨last, ?_, rfl⟩⟩
      split
      · exact List.mem_cons_of_mem _ lastMem
      · exact lastMem
    exact List.ne_nil_of_mem mem

theorem Piece.names_ne_nil (piece : Piece) (proper : piece.Proper) : piece.names ≠ [] := by
  cases piece with
  | group inner => exact inner.names_ne_nil proper
  | oneOf letters =>
    rw [Piece.names, ne_eq, List.map_eq_nil_iff]
    exact proper.1
  | char c => exact List.cons_ne_nil _ _

end

/-- The choice is how a spelling reads. -/
structure Choice.IsReading (choice : Choice) (spelling : List Char) : Prop where
  proper : choice.Proper
  text : choice.text = spelling

/-! ## Trees as patterns -/

mutual

/-- What the reader holds when it has read the choice. -/
def Choice.group : Choice → Group
  | .one chain => ⟨[], chain.pieces, chain.markable⟩
  | .more earlier chain =>
    ⟨earlier.group.sequence :: earlier.group.alternatives, chain.pieces, chain.markable⟩

/-- The patterns of the pieces, the last one first. -/
def Chain.pieces : Chain → List Pattern
  | .nil => []
  | .snoc front piece optional =>
    (if optional then .opt piece.pattern else piece.pattern) :: front.pieces

/-- The pattern of a piece. -/
def Piece.pattern : Piece → Pattern
  | .group inner => inner.group.pattern
  | .oneOf letters => .oneOf letters
  | .char c => .oneOf [c]

end

open Pattern (Spells)

theorem Chain.mem_names_snoc {front : Chain} {piece : Piece} {optional : Bool} {name : List Char} :
    name ∈ (Chain.snoc front piece optional).names ↔
      ∃ first ∈ front.names, ∃ last, (optional = true ∧ last = [] ∨ last ∈ piece.names) ∧
        name = first ++ last := by
  rw [Chain.names, List.mem_flatMap]
  refine exists_congr fun first => and_congr_right fun _ => ?_
  rw [List.mem_map]
  refine exists_congr fun last => and_congr ?_ eq_comm
  cases optional <;> simp

/-- A piece with or without its question mark. -/
theorem spells_optional_iff {pattern : Pattern} {optional : Bool} {name : List Char} :
    Spells (if optional then .opt pattern else pattern) name ↔
      optional = true ∧ name = [] ∨ Spells pattern name := by
  cases optional with
  | true => simpa using Pattern.spells_opt_iff
  | false => simp

theorem spells_foldl_alt_iff (alternatives : List Pattern) (tail : Pattern) (name : List Char) :
    Spells (alternatives.foldl (fun rest earlier => .alt earlier rest) tail) name ↔
      (∃ earlier ∈ alternatives, Spells earlier name) ∨ Spells tail name := by
  induction alternatives generalizing tail with
  | nil => simp
  | cons earlier alternatives ih =>
    rw [List.foldl_cons, ih, Pattern.spells_alt_iff]
    simp only [List.mem_cons, exists_eq_or_imp, or_left_comm, or_assoc]

mutual

/-- The pattern of a choice spells the names of the choice. -/
theorem Choice.spells_pattern_iff (choice : Choice) (name : List Char) :
    Spells choice.group.pattern name ↔ name ∈ choice.names := by
  cases choice with
  | one chain =>
    rw [Choice.names]
    exact chain.spells_sequence_iff name
  | more earlier chain =>
    have before := earlier.spells_pattern_iff name
    rw [Group.pattern, spells_foldl_alt_iff] at before
    have last : Spells (Choice.more earlier chain).group.sequence name ↔ name ∈ chain.names :=
      chain.spells_sequence_iff name
    rw [Group.pattern, spells_foldl_alt_iff, last, Choice.names, List.mem_append, ← before,
      Choice.group]
    simp only [List.mem_cons, exists_eq_or_imp]
    exact or_congr or_comm Iff.rfl

theorem Chain.spells_sequence_iff (chain : Chain) (name : List Char) :
    Spells (chain.pieces.foldl (fun rest piece => .seq piece rest) .blank) name ↔
      name ∈ chain.names := by
  rw [chain.spells_foldl_iff]
  constructor
  · intro parts
    obtain ⟨front, back, rfl, mem, spelled⟩ := parts
    rwa [Pattern.spells_blank_iff.mp spelled, List.append_nil]
  · intro mem
    exact ⟨name, [], (List.append_nil name).symm, mem, .blank⟩

/-- The pieces are put before what follows them one by one, the last one first. -/
theorem Chain.spells_foldl_iff (chain : Chain) (tail : Pattern) (name : List Char) :
    Spells (chain.pieces.foldl (fun rest piece => .seq piece rest) tail) name ↔
      ∃ front back, name = front ++ back ∧ front ∈ chain.names ∧ Spells tail back := by
  cases chain with
  | nil =>
    constructor
    · exact fun spelled => ⟨[], name, rfl, List.mem_singleton.mpr rfl, spelled⟩
    · intro parts
      obtain ⟨front, back, rfl, mem, spelled⟩ := parts
      rwa [List.mem_singleton.mp mem]
  | snoc front piece optional =>
    have pieceNames := piece.spells_pattern_iff
    rw [Chain.pieces, List.foldl_cons, front.spells_foldl_iff]
    constructor
    · intro parts
      obtain ⟨first, rest, rfl, firstMem, spelled⟩ := parts
      obtain ⟨last, back, rfl, lastSpelled, backSpelled⟩ := Pattern.spells_seq_iff.mp spelled
      rw [spells_optional_iff, pieceNames] at lastSpelled
      refine ⟨first ++ last, back, (List.append_assoc _ _ _).symm, ?_, backSpelled⟩
      exact Chain.mem_names_snoc.mpr ⟨first, firstMem, last, lastSpelled, rfl⟩
    · intro parts
      obtain ⟨whole, back, rfl, mem, backSpelled⟩ := parts
      obtain ⟨first, firstMem, last, lastMem, rfl⟩ := Chain.mem_names_snoc.mp mem
      rw [← pieceNames, ← spells_optional_iff] at lastMem
      exact ⟨first, last ++ back, List.append_assoc _ _ _, firstMem, .seq lastMem backSpelled⟩

theorem Piece.spells_pattern_iff (piece : Piece) (name : List Char) :
    Spells piece.pattern name ↔ name ∈ piece.names := by
  cases piece with
  | group inner => exact inner.spells_pattern_iff name
  | oneOf letters =>
    rw [Piece.pattern, Pattern.spells_oneOf_iff, Piece.names, List.mem_map]
    simp only [eq_comm]
  | char c =>
    rw [Piece.pattern, Pattern.spells_oneOf_iff, Piece.names]
    simp

end

/-! ## What is proper is read -/

namespace Reading

variable {room : Nat} {reading middle : Reading} {text rest : List Char} {c : Char}

/-- Reads a piece of a spelling. -/
def feed (room : Nat) (reading : Reading) (text : List Char) : Except Misreading Reading :=
  text.foldlM (step room) reading

theorem feed_append_of_ok (first : reading.feed room text = .ok middle) :
    reading.feed room (text ++ rest) = middle.feed room rest := by
  rw [feed, List.foldlM_append]
  change (reading.feed room text).bind _ = _
  rw [first]
  rfl

theorem feed_cons_of_ok (first : reading.step room c = .ok middle) :
    reading.feed room (c :: rest) = middle.feed room rest := by
  rw [feed, List.foldlM_cons, first]
  rfl

theorem feed_singleton (reading : Reading) (c : Char) :
    reading.feed room [c] = reading.step room c := by
  rw [feed, List.foldlM_cons]
  cases reading.step room c <;> rfl

/-- Letters of a class are gathered. -/
theorem feed_letters {group : Group} {outer : List Group} {letters : List Char}
    (unclosed : ']' ∉ text) :
    feed room ⟨group, outer, some letters⟩ text =
      .ok ⟨group, outer, some (text.reverse ++ letters)⟩ := by
  induction text generalizing letters with
  | nil => rfl
  | cons c text ih =>
    have other : c ≠ ']' := fun same => unclosed (same ▸ List.mem_cons_self)
    have gathered : step room ⟨group, outer, some letters⟩ c =
        .ok ⟨group, outer, some (c :: letters)⟩ := by
      simp only [step, if_neg other]
    rw [feed_cons_of_ok gathered, ih fun mem => unclosed (List.mem_cons_of_mem _ mem),
      List.reverse_cons, List.append_assoc]
    rfl

/-- A character that is no mark stands for itself; so does a question mark that marks nothing. -/
theorem step_char {group : Group} {outer : List Group} (plain : c ∉ ['(', ')', '[', ']', '|'])
    (free : c = '?' → group.markable = false) :
    step room ⟨group, outer, none⟩ c = .ok ⟨group.push (.oneOf [c]), outer, none⟩ := by
  simp only [List.mem_cons, List.not_mem_nil, or_false, not_or] at plain
  obtain ⟨opening, closing, bracket, unbracket, bar⟩ := plain
  by_cases question : c = '?'
  · subst question
    simp only [step, Group.mark, free rfl]
  · unfold step
    simp only

end Reading

section Feeding

variable {room : Nat}

mutual

/-- A proper choice is read as the group it stands for, where there is room for its groups. -/
theorem Choice.feed_text (choice : Choice) (proper : choice.Proper) (outer : List Group)
    (fits : outer.length + choice.text.length ≤ room) :
    Reading.feed room ⟨.fresh, outer, none⟩ choice.text = .ok ⟨choice.group, outer, none⟩ := by
  cases choice with
  | one chain => exact chain.feed_text proper [] outer fits
  | more earlier chain =>
    obtain ⟨earlierProper, chainProper⟩ := proper
    rw [Choice.text, List.length_append, List.length_cons] at fits
    have earlierRead := earlier.feed_text earlierProper outer (by omega)
    have barRead : Reading.step room ⟨earlier.group, outer, none⟩ '|' =
        .ok ⟨earlier.group.bar, outer, none⟩ := rfl
    rw [Choice.text, Reading.feed_append_of_ok earlierRead, Reading.feed_cons_of_ok barRead]
    exact chain.feed_text chainProper _ outer (by omega)

theorem Chain.feed_text (chain : Chain) (proper : chain.Proper) (alternatives : List Pattern)
    (outer : List Group) (fits : outer.length + chain.text.length ≤ room) :
    Reading.feed room ⟨⟨alternatives, [], false⟩, outer, none⟩ chain.text =
      .ok ⟨⟨alternatives, chain.pieces, chain.markable⟩, outer, none⟩ := by
  cases chain with
  | nil => rfl
  | snoc front piece optional =>
    obtain ⟨frontProper, pieceProper, free⟩ := proper
    rw [Chain.text, List.length_append, List.length_append] at fits
    have frontRead := front.feed_text frontProper alternatives outer (by omega)
    have pieceRead := piece.feed_text pieceProper ⟨alternatives, front.pieces, front.markable⟩ outer
      free (by omega)
    rw [Chain.text, Reading.feed_append_of_ok frontRead, Reading.feed_append_of_ok pieceRead]
    cases optional <;> rfl

/-- The reader takes in the text of a proper piece and puts the pattern of the piece to the group
that it is in, if the groups are nested no deeper than there is room. -/
theorem Piece.feed_text (piece : Piece) (proper : piece.Proper) (group : Group)
    (outer : List Group) (free : piece = .char '?' → group.markable = false)
    (fits : outer.length + piece.text.length ≤ room) :
    Reading.feed room ⟨group, outer, none⟩ piece.text =
      .ok ⟨group.push piece.pattern, outer, none⟩ := by
  cases piece with
  | group inner =>
    rw [Piece.text, List.length_cons, List.length_append, List.length_singleton] at fits
    have opened : Reading.step room ⟨group, outer, none⟩ '(' =
        .ok ⟨.fresh, group :: outer, none⟩ := by
      have some : outer.length < room := by omega
      simp only [Reading.step, if_pos some]
    have innerRead := inner.feed_text proper (group :: outer) (by rw [List.length_cons]; omega)
    rw [Piece.text, Reading.feed_cons_of_ok opened, Reading.feed_append_of_ok innerRead,
      Reading.feed_singleton]
    rfl
  | oneOf letters =>
    obtain ⟨ne_nil, unclosed⟩ := proper
    have opened : Reading.step room ⟨group, outer, none⟩ '[' = .ok ⟨group, outer, some []⟩ := rfl
    have some : ¬ letters.reverse.isEmpty = true := by
      rw [List.isEmpty_iff, List.reverse_eq_nil_iff]
      exact ne_nil
    rw [Piece.text, Reading.feed_cons_of_ok opened,
      Reading.feed_append_of_ok (Reading.feed_letters unclosed), Reading.feed_singleton,
      List.append_nil]
    simp only [Reading.step, if_true, if_neg some, List.reverse_reverse]
    rfl
  | char c =>
    rw [Piece.text, Reading.feed_singleton]
    exact Reading.step_char proper fun question => free (question ▸ rfl)

end

end Feeding

/-! ## Only what is proper is read -/

namespace Chain

/-- The chain after a question mark. -/
def mark : Chain → Chain
  | .snoc front piece false => .snoc front piece true
  | chain => .snoc chain (.char '?') false

theorem text_mark (chain : Chain) : chain.mark.text = chain.text ++ ['?'] := by
  cases chain with
  | nil => rfl
  | snoc front piece optional =>
    cases optional <;> simp [mark, text, Piece.text]

theorem proper_mark {chain : Chain} (proper : chain.Proper) : chain.mark.Proper := by
  have plain : Piece.Proper (.char '?') := by
    rw [Piece.Proper]
    decide
  cases chain with
  | nil => exact ⟨trivial, plain, fun _ => rfl⟩
  | snoc front piece optional =>
    cases optional with
    | false => exact proper
    | true => exact ⟨proper, plain, fun _ => rfl⟩

end Chain

namespace Choice

/-- The choice with its last chain replaced. -/
def onLast (change : Chain → Chain) : Choice → Choice
  | .one chain => .one (change chain)
  | .more earlier chain => .more earlier (change chain)

/-- The choice with one more piece. -/
def push (choice : Choice) (piece : Piece) : Choice :=
  choice.onLast (.snoc · piece false)

/-- The choice after a question mark. -/
def mark (choice : Choice) : Choice :=
  choice.onLast Chain.mark

theorem text_push (choice : Choice) (piece : Piece) :
    (choice.push piece).text = choice.text ++ piece.text := by
  cases choice <;> simp [push, onLast, text, Chain.text]

theorem group_push (choice : Choice) (piece : Piece) :
    (choice.push piece).group = choice.group.push piece.pattern := by
  cases choice <;> rfl

theorem proper_push {choice : Choice} {piece : Piece} (proper : choice.Proper)
    (pieceProper : piece.Proper) (free : piece = .char '?' → choice.group.markable = false) :
    (choice.push piece).Proper := by
  cases choice with
  | one chain => exact ⟨proper, pieceProper, free⟩
  | more earlier chain => exact ⟨proper.1, proper.2, pieceProper, free⟩

theorem text_mark (choice : Choice) : choice.mark.text = choice.text ++ ['?'] := by
  cases choice <;> simp [mark, onLast, text, Chain.text_mark]

theorem group_mark (choice : Choice) : choice.mark.group = choice.group.mark := by
  have lastMark : ∀ chain : Chain, ∀ alternatives : List Pattern,
      (⟨alternatives, chain.mark.pieces, chain.mark.markable⟩ : Group) =
        Group.mark ⟨alternatives, chain.pieces, chain.markable⟩ := by
    intro chain alternatives
    cases chain with
    | nil => rfl
    | snoc front piece optional => cases optional <;> rfl
  cases choice with
  | one chain => exact lastMark chain _
  | more earlier chain => exact lastMark chain _

theorem proper_mark {choice : Choice} (proper : choice.Proper) : choice.mark.Proper := by
  cases choice with
  | one chain => exact Chain.proper_mark proper
  | more earlier chain => exact ⟨proper.1, Chain.proper_mark proper.2⟩

end Choice

namespace Reading

/-- The spelling of what stands before an inner group: choices whose last piece is still open. -/
def outerText : List Choice → List Char
  | [] => []
  | around :: outer => outerText outer ++ (around.text ++ ['('])

/-- The spelling of a class that is still open. -/
def classText : Option (List Char) → List Char
  | none => []
  | some letters => '[' :: letters.reverse

/-- The reading is what the reader holds after the text: proper choices inside each other, and a
class that may be open. -/
structure Traces (text : List Char) (reading : Reading) (choice : Choice) (outer : List Choice) :
    Prop where
  proper : choice.Proper
  outerProper : ∀ around ∈ outer, around.Proper
  group : reading.group = choice.group
  outerGroups : reading.outer = outer.map Choice.group
  unclosed : ∀ letters, reading.letters = some letters → ']' ∉ letters
  text : text = outerText outer ++ (choice.text ++ classText reading.letters)

theorem traces_start : Traces [] start (.one .nil) [] where
  proper := trivial
  outerProper := fun _ mem => absurd mem List.not_mem_nil
  group := rfl
  outerGroups := rfl
  unclosed := fun _ other => by cases other
  text := rfl

section Steps

variable {room : Nat} {text : List Char} {reading next : Reading} {choice : Choice}
  {outer : List Choice} {c : Char}

/-- One more piece closes what was open of the innermost choice. -/
theorem Traces.push (traces : Traces text reading choice outer) {piece : Piece}
    (pieceProper : piece.Proper) (free : piece = .char '?' → choice.group.markable = false)
    {longer : List Char} (whole : longer = outerText outer ++ (choice.text ++ piece.text)) :
    Traces longer { reading with group := reading.group.push piece.pattern, letters := none }
      (choice.push piece) outer where
  proper := Choice.proper_push traces.proper pieceProper free
  outerProper := traces.outerProper
  group := by rw [Choice.group_push, traces.group]
  outerGroups := traces.outerGroups
  unclosed := fun _ other => by cases other
  text := by rw [whole, Choice.text_push, classText, List.append_nil]

/-- Inside a class every character is one of its letters, but for the bracket that closes it. -/
theorem Traces.step_class (traces : Traces text reading choice outer) {letters : List Char}
    (inClass : reading.letters = some letters) (stepped : reading.step room c = .ok next) :
    ∃ choice outer, Traces (text ++ [c]) next choice outer := by
  have unclosed := traces.unclosed letters inClass
  have whole := traces.text
  rw [inClass, classText] at whole
  simp only [step, inClass] at stepped
  split at stepped
  next closing =>
    split at stepped
    next => cases stepped
    next some =>
      cases stepped
      have proper : Piece.Proper (.oneOf letters.reverse) := by
        refine ⟨fun empty => some ?_, fun mem => unclosed (List.mem_reverse.mp mem)⟩
        rw [List.reverse_eq_nil_iff.mp empty]
        rfl
      refine ⟨_, _, traces.push proper (fun other => by cases other) ?_⟩
      rw [whole, closing]
      simp [Piece.text]
  next other =>
    cases stepped
    refine ⟨choice, outer, traces.proper, traces.outerProper, traces.group, traces.outerGroups,
      ?_, ?_⟩
    · intro letters' same
      cases same
      intro mem
      rcases List.mem_cons.mp mem with closing | mem
      · exact other closing.symm
      · exact unclosed mem
    · rw [whole]
      simp [classText]

theorem Traces.text_outside (traces : Traces text reading choice outer)
    (outside : reading.letters = none) : text = outerText outer ++ choice.text := by
  have whole := traces.text
  rwa [outside, classText, List.append_nil] at whole

/-- A parenthesis opens an empty choice inside the last one. -/
theorem Traces.opened (traces : Traces text reading choice outer)
    (outside : reading.letters = none) :
    Traces (text ++ ['(']) ⟨.fresh, reading.group :: reading.outer, none⟩ (.one .nil)
      (choice :: outer) where
  proper := trivial
  outerProper := List.forall_mem_cons.mpr ⟨traces.proper, traces.outerProper⟩
  group := rfl
  outerGroups := by rw [List.map_cons, ← traces.group, ← traces.outerGroups]
  unclosed := fun _ other => by cases other
  text := by
    rw [traces.text_outside outside]
    simp [outerText, classText, Choice.text, Chain.text]

/-- A parenthesis closes the innermost choice, which becomes a piece of the one around it. -/
theorem Traces.closed {inner : Choice} (traces : Traces text reading choice (inner :: outer))
    (outside : reading.letters = none) :
    Traces (text ++ [')']) ⟨inner.group.push reading.group.pattern, outer.map Choice.group, none⟩
      (inner.push (.group choice)) outer := by
  obtain ⟨innerProper, outerProper⟩ := List.forall_mem_cons.mp traces.outerProper
  refine ⟨?_, outerProper, ?_, rfl, (fun _ other => by cases other), ?_⟩
  · exact Choice.proper_push innerProper traces.proper fun other => by cases other
  · rw [Choice.group_push, traces.group]
    rfl
  · rw [traces.text_outside outside, Choice.text_push]
    simp [outerText, classText, Piece.text]

/-- A bar begins the next chain of the innermost choice. -/
theorem Traces.barred (traces : Traces text reading choice outer)
    (outside : reading.letters = none) :
    Traces (text ++ ['|']) ⟨reading.group.bar, reading.outer, none⟩ (.more choice .nil) outer where
  proper := ⟨traces.proper, trivial⟩
  outerProper := traces.outerProper
  group := by
    rw [traces.group]
    rfl
  outerGroups := traces.outerGroups
  unclosed := fun _ other => by cases other
  text := by
    rw [traces.text_outside outside]
    simp [classText, Choice.text, Chain.text]

theorem Traces.marked (traces : Traces text reading choice outer)
    (outside : reading.letters = none) :
    Traces (text ++ ['?']) ⟨reading.group.mark, reading.outer, none⟩ choice.mark outer where
  proper := Choice.proper_mark traces.proper
  outerProper := traces.outerProper
  group := by rw [traces.group, Choice.group_mark]
  outerGroups := traces.outerGroups
  unclosed := fun _ other => by cases other
  text := by
    rw [traces.text_outside outside, Choice.text_mark, classText, List.append_nil,
      List.append_assoc]

/-- A bracket opens a class without letters. -/
theorem Traces.bracketed (traces : Traces text reading choice outer)
    (outside : reading.letters = none) :
    Traces (text ++ ['[']) ⟨reading.group, reading.outer, some []⟩ choice outer where
  proper := traces.proper
  outerProper := traces.outerProper
  group := traces.group
  outerGroups := traces.outerGroups
  unclosed := by
    intro letters same
    cases same
    exact List.not_mem_nil
  text := by
    rw [traces.text_outside outside, classText, List.append_assoc]
    rfl

/-- Outside of a class a character opens or closes a group or a class, starts an alternative, marks
what is before it, or stands for itself. -/
theorem Traces.step_open (traces : Traces text reading choice outer)
    (outside : reading.letters = none) (stepped : reading.step room c = .ok next) :
    ∃ choice outer, Traces (text ++ [c]) next choice outer := by
  unfold step at stepped
  simp only [outside] at stepped
  split at stepped
  next =>
    split at stepped
    next =>
      cases stepped
      exact ⟨_, _, traces.opened outside⟩
    next => cases stepped
  next =>
    have groups := traces.outerGroups
    split at stepped
    next => cases stepped
    next around rest same =>
      cases stepped
      rw [same] at groups
      cases outer with
      | nil => cases groups
      | cons inner outer =>
        obtain ⟨rfl, rfl⟩ := List.cons.inj groups
        exact ⟨_, _, traces.closed outside⟩
  next =>
    cases stepped
    exact ⟨_, _, traces.barred outside⟩
  next =>
    cases stepped
    exact ⟨_, _, traces.marked outside⟩
  next =>
    cases stepped
    exact ⟨_, _, traces.bracketed outside⟩
  next => cases stepped
  next opening closing bar question bracket unbracket =>
    cases stepped
    have proper : Piece.Proper (.char c) := by
      simp only [Piece.Proper, List.mem_cons, List.not_mem_nil, or_false, not_or]
      exact ⟨opening, closing, bracket, unbracket, bar⟩
    have longer : text ++ [c] = outerText outer ++ (choice.text ++ (Piece.char c).text) := by
      rw [traces.text_outside outside, List.append_assoc, Piece.text]
    exact ⟨_, _, traces.push proper (fun same => absurd (Piece.char.inj same) question) longer⟩

theorem Traces.step (traces : Traces text reading choice outer)
    (stepped : reading.step room c = .ok next) :
    ∃ choice outer, Traces (text ++ [c]) next choice outer := by
  cases inClass : reading.letters with
  | none => exact traces.step_open inClass stepped
  | some letters => exact traces.step_class inClass stepped

theorem Traces.feed {more : List Char} (traces : Traces text reading choice outer)
    (fed : reading.feed room more = .ok next) :
    ∃ choice outer, Traces (text ++ more) next choice outer := by
  induction more generalizing text reading choice outer with
  | nil =>
    cases fed
    rw [List.append_nil]
    exact ⟨choice, outer, traces⟩
  | cons c more ih =>
    cases stepped : reading.step room c with
    | error misreading =>
      rw [Reading.feed, List.foldlM_cons, stepped] at fed
      cases fed
    | ok middle =>
      rw [feed_cons_of_ok stepped] at fed
      obtain ⟨choice, outer, traces⟩ := traces.step stepped
      obtain ⟨choice, outer, traces⟩ := ih traces fed
      rw [List.append_assoc] at traces
      exact ⟨choice, outer, traces⟩

end Steps

end Reading

/-! ## Spellings -/

namespace Pattern

variable {room : Nat} {spelling name : List Char} {choice : Choice}

theorem read_of_isReading (reads : choice.IsReading spelling) (fits : spelling.length ≤ room) :
    Pattern.read room spelling = .ok choice.group.pattern := by
  have fits' : ([] : List Group).length + choice.text.length ≤ room := by
    rw [reads.text, List.length_nil, Nat.zero_add]
    exact fits
  have fed := choice.feed_text reads.proper [] fits'
  rw [reads.text] at fed
  change (Reading.feed room .start spelling).bind Reading.finish = _
  rw [show Reading.feed room .start spelling = _ from fed]
  rfl

/-- Where the reader comes to a pattern, the spelling has a reading, and the pattern is that of it.
-/
theorem exists_of_read {pattern : Pattern} (read : Pattern.read room spelling = .ok pattern) :
    ∃ choice : Choice, choice.IsReading spelling ∧ pattern = choice.group.pattern := by
  change (Reading.feed room .start spelling).bind Reading.finish = _ at read
  cases fed : Reading.feed room .start spelling with
  | error misreading =>
    rw [fed] at read
    cases read
  | ok reading =>
    obtain ⟨choice, outer, traces⟩ := Reading.traces_start.feed fed
    rw [fed] at read
    change reading.finish = _ at read
    unfold Reading.finish at read
    split at read
    next => cases read
    next closed =>
      obtain ⟨outside, outermost⟩ : reading.letters = none ∧ reading.outer = [] := by
        simpa using closed
      cases read
      have whole := traces.text
      rw [outside, Reading.classText, List.append_nil, List.nil_append] at whole
      rw [traces.outerGroups, List.map_eq_nil_iff] at outermost
      rw [outermost, Reading.outerText, List.nil_append] at whole
      exact ⟨choice, ⟨traces.proper, whole.symm⟩, by rw [traces.group]⟩

/-- A spelling that reads as a choice has the pattern of the choice. -/
theorem ofSpelling_of_isReading (reads : choice.IsReading spelling) :
    ofSpelling spelling = choice.group.pattern := by
  rw [ofSpelling, read_of_isReading reads (Nat.le_refl _)]

/-- Any other spelling stands for itself. -/
theorem ofSpelling_of_not_isReading (unread : ¬ ∃ choice : Choice, choice.IsReading spelling) :
    ofSpelling spelling = literal spelling := by
  unfold ofSpelling
  split
  next pattern read =>
    obtain ⟨choice, reads, _⟩ := exists_of_read read
    exact absurd ⟨choice, reads⟩ unread
  next => rfl

/-- Every spelling stands for a name. -/
theorem exists_spells_ofSpelling (spelling : List Char) :
    ∃ name, Spells (ofSpelling spelling) name := by
  by_cases readable : ∃ choice : Choice, choice.IsReading spelling
  · obtain ⟨choice, reads⟩ := readable
    obtain ⟨name, mem⟩ := List.exists_mem_of_ne_nil _ (choice.names_ne_nil reads.proper)
    rw [ofSpelling_of_isReading reads]
    exact ⟨name, (choice.spells_pattern_iff name).mpr mem⟩
  · rw [ofSpelling_of_not_isReading readable]
    exact ⟨spelling, spells_literal_iff.mpr rfl⟩

/-- A spelling that reads as a choice accepts the names of the choice, and every other spelling
accepts itself only. However a spelling is cut up, the names are the same. -/
theorem accepts_ofSpelling_iff (spelling name : List Char) :
    ((ofSpelling spelling).accepts name = true ↔
      (∃ choice : Choice, choice.IsReading spelling ∧ name ∈ choice.names) ∨
        (¬ ∃ choice : Choice, choice.IsReading spelling) ∧ name = spelling) ∧
      ∀ choice : Choice, choice.IsReading spelling →
        ((ofSpelling spelling).accepts name = true ↔ name ∈ choice.names) := by
  have read : ∀ choice : Choice, choice.IsReading spelling →
      ((ofSpelling spelling).accepts name = true ↔ name ∈ choice.names) := by
    intro choice reads
    rw [accepts_iff, ofSpelling_of_isReading reads, choice.spells_pattern_iff]
  refine ⟨?_, read⟩
  by_cases readable : ∃ choice : Choice, choice.IsReading spelling
  · obtain ⟨choice, reads⟩ := readable
    rw [read choice reads]
    constructor
    · exact fun mem => .inl ⟨choice, reads, mem⟩
    · intro either
      rcases either with ⟨other, otherReads, mem⟩ | ⟨unread, _⟩
      · exact (read choice reads).mp ((read other otherReads).mpr mem)
      · exact absurd ⟨choice, reads⟩ unread
  · rw [accepts_iff, ofSpelling_of_not_isReading readable, spells_literal_iff]
    constructor
    · exact fun same => .inr ⟨readable, same⟩
    · intro either
      rcases either with ⟨choice, reads, _⟩ | ⟨_, same⟩
      · exact absurd ⟨choice, reads⟩ readable
      · exact same

-- The first mark makes the group optional, the second one stands for itself.
example : (ofSpelling "(a|b)??".toList).accepts "?".toList = true := by decide

end Pattern

end Marginalia
