import Marginalia.Proofs.Program.Moved
import Marginalia.Token.Scan

/-!
# The segments of a text

Between two tokens the scanner sees from one character what begins there, and takes that as a
whole: a mark, a line feed, a word as long as it can be, a quoted text up to the first closing
quote, or a remark up to the end of its line. `Segment signs text behind` says so without a scanner:
`text`, with `behind` following it, is one such segment, and its tokens are `signs`, wherever it
stands. A remark is one segment of two tokens.

`Stands file behind here tokens text` says that a text is made of gaps and segments, and that its
tokens are these, each at its place. Every text is made so up to its end, or up to a point where
nothing can begin (`exists_stands`). The scanner takes a segment as one
(`Scanner.completed_segment`), so it finds just these tokens (`scan_eq_ok_iff`), and stops where
nothing can begin.
-/

namespace Marginalia

/-- A token without a place. -/
def sign (kind : TokenKind) (lexeme : List Char) (literal : Option (List Char)) : Token :=
  ⟨kind, String.ofList lexeme, literal.map String.ofList, .nowhere⟩

/-- The end of the text. -/
def endSign : Token := sign .textEnd [] none

/-- A line feed. -/
def lineEndSign : Token := sign .lineEnd ['\n'] none

/-- A word: a keyword or a name. -/
def wordSign (letters : List Char) : Token :=
  sign (.ofWord (String.ofList letters)) letters none

/-- A quoted text. -/
def quotedSign (letters : List Char) : Token :=
  sign .string ('“' :: letters ++ ['”']) (some letters)

/-- The mark of a remark. -/
def daggerSign : Token := sign .dagger ['†'] none

/-- The text of a remark. -/
def remarkSign (letters : List Char) : Token :=
  sign .string letters (some letters)

/-- No word goes on in the text. -/
def WordEnds (text : List Char) : Prop :=
  ∀ c ∈ text.head?, isWordChar c = false

/-- No remark goes on in the text. -/
def RemarkEnds (text : List Char) : Prop :=
  ∀ c ∈ text.head?, c = '\n'

/-- The letters of a word. -/
structure IsWord (letters : List Char) : Prop where
  ne_nil : letters ≠ []
  all : ∀ c ∈ letters, isWordChar c = true

theorem IsWord.of_test {letters : List Char}
    (passed : (!letters.isEmpty && letters.all isWordChar) = true) : IsWord letters := by
  rw [Bool.and_eq_true, Bool.not_eq_true', List.isEmpty_eq_false_iff, List.all_eq_true] at passed
  exact ⟨passed.1, passed.2⟩

section

variable {text more : List Char} {holds : Char → Prop}

/-- What holds of the first character of a text holds of that of its beginning. -/
theorem forall_head_of_append (all : ∀ c ∈ (text ++ more).head?, holds c) :
    ∀ c ∈ text.head?, holds c := by
  cases text with
  | nil => rintro c ⟨⟩
  | cons c text => exact all

theorem forall_head_append (all : ∀ c ∈ text.head?, holds c) (some : text ≠ [])
    (more : List Char) : ∀ c ∈ (text ++ more).head?, holds c := by
  cases text with
  | nil => exact absurd rfl some
  | cons c text => exact all

theorem WordEnds.of_append (ends : WordEnds (text ++ more)) : WordEnds text :=
  forall_head_of_append ends

theorem WordEnds.append (ends : WordEnds text) (some : text ≠ []) (more : List Char) :
    WordEnds (text ++ more) :=
  forall_head_append ends some more

theorem RemarkEnds.of_append (ends : RemarkEnds (text ++ more)) : RemarkEnds text :=
  forall_head_of_append ends

theorem RemarkEnds.append (ends : RemarkEnds text) (some : text ≠ []) (more : List Char) :
    RemarkEnds (text ++ more) :=
  forall_head_append ends some more

end

/-! ## Characters -/

section

variable {c : Char} {kind : TokenKind}

theorem isGap_of_ofMark? (mark : TokenKind.ofMark? c = some kind) : isGap c = false := by
  unfold TokenKind.ofMark? at mark
  split at mark <;> first | rfl | cases mark

theorem isWordChar_of_ofMark? (mark : TokenKind.ofMark? c = some kind) : isWordChar c = false := by
  unfold TokenKind.ofMark? at mark
  split at mark <;> first | rfl | cases mark

theorem ne_of_isWordChar (letter : isWordChar c = true) {d : Char} (other : isWordChar d = false) :
    c ≠ d := by
  rintro rfl
  rw [letter] at other
  cases other

theorem isGap_of_isWordChar (letter : isWordChar c = true) : isGap c = false := by
  have space : c ≠ ' ' := ne_of_isWordChar letter (by decide)
  have tab : c ≠ '\t' := ne_of_isWordChar letter (by decide)
  have back : c ≠ '\r' := ne_of_isWordChar letter (by decide)
  simp [isGap, space, tab, back]

end

/-! ## Segments and texts -/

/-- What the scanner takes as one before the text `behind`. -/
inductive Segment : List Token → List Char → List Char → Prop
  | mark {behind : List Char} {c : Char} {kind : TokenKind} :
    TokenKind.ofMark? c = some kind → Segment [sign kind [c] none] [c] behind
  | lineEnd {behind : List Char} : Segment [lineEndSign] ['\n'] behind
  | word {behind letters : List Char} :
    IsWord letters → WordEnds behind → Segment [wordSign letters] letters behind
  | quotation {behind letters : List Char} :
    '”' ∉ letters → Segment [quotedSign letters] ('“' :: letters ++ ['”']) behind
  | remark {behind letters : List Char} :
    '\n' ∉ letters → RemarkEnds behind →
    Segment [daggerSign, remarkSign letters] ('†' :: letters) behind

/-- Neither a gap nor the beginning of a segment. -/
structure Stray (c : Char) : Prop where
  gap : isGap c = false
  mark : TokenKind.ofMark? c = none
  lineFeed : c ≠ '\n'
  quote : c ≠ '“'
  dagger : c ≠ '†'
  letter : isWordChar c = false

/-- Nothing can begin where the text begins. -/
inductive Stuck : List Char → Prop
  | stray {c : Char} {rest : List Char} : Stray c → Stuck (c :: rest)
  | unfinished {letters : List Char} : '”' ∉ letters → Stuck ('“' :: letters)

/-- The token from a point on, as long as its text. -/
def Token.placed (file : String) (here : Position) (token : Token) : Token :=
  { token with span := ⟨file, here, here.afterAll token.lexeme.toList⟩ }

/-- The tokens from a point on, each right behind the one before it. -/
def placedFrom (file : String) : Position → List Token → List Token
  | _, [] => []
  | here, token :: rest =>
    token.placed file here :: placedFrom file (here.afterAll token.lexeme.toList) rest

/-- The text, which stands at a point and before the text `behind`, has these tokens. -/
inductive Stands (file : String) (behind : List Char) : Position → List Token → List Char → Prop
  | nil {here : Position} : Stands file behind here [] []
  | gap {here : Position} {tokens : List Token} {rest : List Char} {c : Char} :
    isGap c = true → Stands file behind (here.after c) tokens rest →
    Stands file behind here tokens (c :: rest)
  | segment {here : Position} {signs tokens : List Token} {text rest : List Char} :
    Segment signs text (rest ++ behind) → Stands file behind (here.afterAll text) tokens rest →
    Stands file behind here (placedFrom file here signs ++ tokens) (text ++ rest)

/-! ## Every text is made of segments, as far as it goes -/

/-- The longest beginning of a text whose characters pass a test, and what follows it. -/
theorem exists_longest (test : Char → Bool) (text : List Char) :
    ∃ taken rest, text = taken ++ rest ∧ (∀ c ∈ taken, test c = true) ∧
      ∀ c ∈ rest.head?, test c = false := by
  refine ⟨text.takeWhile test, text.dropWhile test, List.takeWhile_append_dropWhile.symm,
    fun c mem => List.all_eq_true.mp List.all_takeWhile c mem, fun c head => ?_⟩
  have stopped := List.head?_dropWhile_not test text
  rw [Option.mem_def.mp head] at stopped
  exact stopped

theorem Segment.ne_nil {signs : List Token} {text behind : List Char}
    (segment : Segment signs text behind) : text ≠ [] := by
  cases segment with
  | word word _ => exact word.ne_nil
  | _ => exact List.cons_ne_nil _ _

/-- A quotation mark begins a quoted text, unless it is never closed. -/
theorem segment_or_stuck_of_quote (text : List Char) :
    (∃ signs taken rest, '“' :: text = taken ++ rest ∧ Segment signs taken rest) ∨
      Stuck ('“' :: text) := by
  obtain ⟨letters, rest, rfl, all, stop⟩ := exists_longest (· ≠ '”') text
  have unclosed : '”' ∉ letters := fun mem => absurd (all _ mem) (by decide)
  cases rest with
  | nil =>
    rw [List.append_nil]
    exact .inr (.unfinished unclosed)
  | cons d rest =>
    obtain rfl : d = '”' := by simpa using stop d rfl
    exact .inl ⟨_, '“' :: letters ++ ['”'], rest, by simp, .quotation unclosed⟩

/-- What a character begins that is no gap. -/
theorem segment_or_stuck {c : Char} (solid : isGap c = false) (text : List Char) :
    (∃ signs taken rest, c :: text = taken ++ rest ∧ Segment signs taken rest) ∨
      Stuck (c :: text) := by
  cases mark : TokenKind.ofMark? c with
  | some kind => exact .inl ⟨_, [c], text, rfl, .mark mark⟩
  | none =>
    by_cases line : c = '\n'
    · subst line
      exact .inl ⟨_, ['\n'], text, rfl, .lineEnd⟩
    by_cases quote : c = '“'
    · subst quote
      exact segment_or_stuck_of_quote text
    by_cases dagger : c = '†'
    · subst dagger
      obtain ⟨letters, rest, rfl, all, stop⟩ := exists_longest (· ≠ '\n') text
      have unclosed : '\n' ∉ letters := fun mem => absurd (all _ mem) (by decide)
      have ends : RemarkEnds rest := fun d head => by simpa using stop d head
      exact .inl ⟨_, '†' :: letters, rest, rfl, .remark unclosed ends⟩
    cases letter : isWordChar c with
    | true =>
      obtain ⟨letters, rest, rfl, all, stop⟩ := exists_longest isWordChar text
      have word : IsWord (c :: letters) :=
        ⟨List.cons_ne_nil _ _, fun d mem => (List.mem_cons.mp mem).elim (· ▸ letter) (all d)⟩
      exact .inl ⟨_, c :: letters, rest, rfl, .word word stop⟩
    | false => exact .inr (.stray ⟨solid, mark, line, quote, dagger, letter⟩)

/-- Every text has tokens up to its end, or up to a point where nothing can begin. -/
theorem exists_stands (file : String) (here : Position) (text : List Char) :
    ∃ tokens before behind, text = before ++ behind ∧ Stands file behind here tokens before ∧
      (behind = [] ∨ Stuck behind) := by
  -- A segment takes several characters at once, so the induction is on the length of the text.
  induction length : text.length using Nat.strongRecOn generalizing here text with
  | ind bound ih =>
    cases text with
    | nil => exact ⟨[], [], [], rfl, .nil, .inl rfl⟩
    | cons c text =>
      subst length
      cases gap : isGap c with
      | true =>
        obtain ⟨tokens, before, behind, rfl, stands, ends⟩ :=
          ih _ (Nat.lt_succ_self _) (here.after c) text rfl
        exact ⟨tokens, c :: before, behind, rfl, .gap gap stands, ends⟩
      | false =>
        rcases segment_or_stuck gap text with ⟨signs, taken, rest, whole, segment⟩ | stuck
        · have shorter : rest.length < (c :: text).length := by
            have some := List.length_pos_iff.mpr segment.ne_nil
            rw [whole, List.length_append]
            omega
          obtain ⟨tokens, before, behind, rfl, stands, ends⟩ :=
            ih _ shorter (here.afterAll taken) rest rfl
          refine ⟨_, taken ++ before, behind, ?_, .segment segment stands, ends⟩
          rw [whole, List.append_assoc]
        · exact ⟨[], [], c :: text, rfl, .nil, .inr stuck⟩

/-! ## Scanning from the middle of a text -/

namespace Scanner

variable {scanner : Scanner} {text rest : List Char}

/-- The tokens of a text whose first part has been scanned. -/
def completed (scanner : Scanner) (text : List Char) : Except Fault (List Token) :=
  (scanner.feed text).bind finish

theorem completed_cons_of_ok {next : Scanner} {c : Char} (step : scanner.step c = .ok next) :
    scanner.completed (c :: rest) = next.completed rest := by
  rw [completed, feed_cons, step]
  rfl

theorem completed_append_of_ok {next : Scanner} (feed : scanner.feed text = .ok next) :
    scanner.completed (text ++ rest) = next.completed rest := by
  rw [completed, feed_append, feed]
  rfl

theorem close_of_between (between : scanner.mode = .between) : scanner.close = scanner := by
  rw [close, between]

/-- Letters that a mode gathers one by one are gathered all together. -/
theorem feed_gathered (mode : List Char → Mode) (gathers : Char → Prop)
    (gather : ∀ (scanner : Scanner) (letters : List Char) (c : Char), gathers c →
      scanner.mode = mode letters →
      scanner.step c = .ok { scanner.move c with mode := mode (c :: letters) })
    (all : ∀ c ∈ text, gathers c) {letters : List Char} (inside : scanner.mode = mode letters) :
    scanner.feed text = .ok { scanner with
      here := scanner.here.afterAll text, mode := mode (text.reverse ++ letters) } := by
  induction text generalizing scanner letters with
  | nil =>
    rw [feed_nil, List.reverse_nil, List.nil_append, ← inside]
    rfl
  | cons c text ih =>
    rw [feed_cons, gather scanner letters c (all c List.mem_cons_self) inside]
    change Scanner.feed _ text = _
    rw [ih (fun c mem => all c (List.mem_cons_of_mem _ mem)) rfl, List.reverse_cons,
      List.append_assoc]
    rfl

theorem feed_word {first : Position} {letters : List Char} (all : ∀ c ∈ text, isWordChar c = true)
    (inside : scanner.mode = .word first letters) :
    scanner.feed text = .ok { scanner with
      here := scanner.here.afterAll text, mode := .word first (text.reverse ++ letters) } := by
  refine feed_gathered (.word first) (isWordChar · = true) ?_ all inside
  intro scanner letters c isLetter inside
  simp only [step, inside, isLetter, if_true]

theorem feed_quotation {first : Position} {letters : List Char} (all : ∀ c ∈ text, c ≠ '”')
    (inside : scanner.mode = .quotation first letters) :
    scanner.feed text = .ok { scanner with
      here := scanner.here.afterAll text, mode := .quotation first (text.reverse ++ letters) } := by
  refine feed_gathered (.quotation first) (· ≠ '”') ?_ all inside
  intro scanner letters c unclosed inside
  simp only [step, inside, if_neg unclosed]

theorem feed_remark {first : Position} {letters : List Char} (all : ∀ c ∈ text, c ≠ '\n')
    (inside : scanner.mode = .remark first letters) :
    scanner.feed text = .ok { scanner with
      here := scanner.here.afterAll text, mode := .remark first (text.reverse ++ letters) } := by
  refine feed_gathered (.remark first) (· ≠ '\n') ?_ all inside
  intro scanner letters c unclosed inside
  simp only [step, inside, if_neg unclosed]

theorem step_of_between (between : scanner.mode = .between) (c : Char) :
    scanner.step c = scanner.begin c := by
  rw [step, between]

/-- What ends a word or remark is taken as if the scanner were between two tokens. -/
theorem completed_close (unclosed : ∀ first letters, scanner.mode ≠ .quotation first letters)
    (ends : ∀ c ∈ rest.head?, scanner.step c = scanner.close.begin c) :
    scanner.completed rest = scanner.close.completed rest := by
  -- An open quotation is left out: closing it changes nothing, and at the end of the text it stops.
  have between : scanner.close.mode = .between := by
    unfold close
    split
    · assumption
    · exact absurd ‹_› (unclosed _ _)
    · rfl
    · rfl
  cases rest with
  | nil =>
    change scanner.finish = scanner.close.finish
    have again : scanner.close.close = scanner.close := close_of_between between
    unfold finish
    rw [between, again]
    split
    · exact absurd ‹_› (unclosed _ _)
    · rfl
  | cons c rest =>
    have step : scanner.step c = scanner.close.step c := by
      rw [step_of_between between]
      exact ends c rfl
    rw [completed, completed, feed_cons, feed_cons, step]

/-! ## Taking a segment -/

/-- The scanner further on: behind some more text, and with some more tokens. -/
def ahead (scanner : Scanner) (tokens : List Token) (text : List Char) : Scanner :=
  { scanner with
    here := scanner.here.afterAll text
    tokens := tokens.reverse ++ scanner.tokens }

variable {c : Char}

theorem ahead_ahead (scanner : Scanner) (first second : List Token) (text more : List Char) :
    (scanner.ahead first text).ahead second more =
      scanner.ahead (first ++ second) (text ++ more) := by
  simp only [ahead, Position.afterAll_append, List.reverse_append, List.append_assoc]

theorem completed_gap (between : scanner.mode = .between) (gap : isGap c = true)
    (rest : List Char) :
    scanner.completed (c :: rest) = (scanner.ahead [] [c]).completed rest := by
  apply completed_cons_of_ok
  rw [step_of_between between, begin]
  simp only [gap, if_true]
  rfl

theorem emit_eq_ahead (between : scanner.mode = .between) (kind : TokenKind) (lexeme : List Char)
    (literal : Option (List Char)) :
    ({ scanner with here := scanner.here.afterAll lexeme } : Scanner).emit kind scanner.here lexeme
      literal = scanner.ahead [(sign kind lexeme literal).placed scanner.file scanner.here]
        lexeme := by
  simp only [emit, ahead, Token.placed, sign, String.toList_ofList, between]
  rfl

theorem completed_mark {kind : TokenKind} (between : scanner.mode = .between)
    (mark : TokenKind.ofMark? c = some kind) (rest : List Char) :
    scanner.completed (c :: rest) =
      (scanner.ahead [(sign kind [c] none).placed scanner.file scanner.here] [c]).completed
        rest := by
  have solid : isGap c = false := isGap_of_ofMark? mark
  apply completed_cons_of_ok
  rw [← emit_eq_ahead between, step_of_between between, begin]
  simp only [solid, mark]
  rfl

theorem completed_lineEnd (between : scanner.mode = .between) (rest : List Char) :
    scanner.completed ('\n' :: rest) =
      (scanner.ahead [lineEndSign.placed scanner.file scanner.here] ['\n']).completed rest := by
  apply completed_cons_of_ok
  rw [lineEndSign, ← emit_eq_ahead between, step_of_between between]
  rfl

/-- A letter is none of the characters that stand for themselves. -/
theorem begin_of_isWordChar (letter : isWordChar c = true) :
    scanner.begin c = .ok { scanner.move c with mode := .word scanner.here [c] } := by
  have solid : isGap c = false := isGap_of_isWordChar letter
  have unmarked : TokenKind.ofMark? c = none := by
    unfold TokenKind.ofMark?
    split <;> first | rfl | exact absurd letter (by decide)
  have line : c ≠ '\n' := ne_of_isWordChar letter (by decide)
  have quote : c ≠ '“' := ne_of_isWordChar letter (by decide)
  have dagger : c ≠ '†' := ne_of_isWordChar letter (by decide)
  rw [begin]
  simp only [solid, unmarked, line, quote, dagger, letter, if_true, if_false, Bool.false_eq_true]

/-- The scanner takes in a whole word, up to where the word ends. -/
theorem completed_word {letters : List Char} (between : scanner.mode = .between)
    (word : IsWord letters) (ends : WordEnds rest) :
    scanner.completed (letters ++ rest) =
      (scanner.ahead [(wordSign letters).placed scanner.file scanner.here] letters).completed
        rest := by
  cases letters with
  | nil => exact absurd rfl word.ne_nil
  | cons c letters =>
    have step : scanner.step c = .ok { scanner.move c with mode := .word scanner.here [c] } := by
      rw [step_of_between between]
      exact begin_of_isWordChar (word.all c List.mem_cons_self)
    have gathered : scanner.feed (c :: letters) = .ok { scanner with
        here := (scanner.here.after c).afterAll letters
        mode := .word scanner.here (letters.reverse ++ [c]) } := by
      rw [feed_cons, step]
      exact feed_word (fun d mem => word.all d (List.mem_cons_of_mem _ mem)) rfl
    rw [completed_append_of_ok gathered, completed_close]
    · rw [wordSign, ← emit_eq_ahead between]
      simp [close, emit, Position.afterAll]
    · intro first letters other
      cases other
    · intro d head
      have stops : ¬ isWordChar d = true := by rw [ends d head]; decide
      simp only [Scanner.step, if_neg stops]

theorem feed_opened {letters : List Char} (between : scanner.mode = .between)
    (unclosed : '”' ∉ letters) :
    scanner.feed ('“' :: letters) = .ok { scanner with
      here := (scanner.here.after '“').afterAll letters
      mode := .quotation scanner.here (letters.reverse ++ []) } := by
  have step : scanner.step '“' =
      .ok { scanner.move '“' with mode := .quotation scanner.here [] } := by
    rw [step_of_between between]
    rfl
  rw [feed_cons, step]
  exact feed_quotation (fun c mem same => unclosed (same ▸ mem)) rfl

theorem completed_quotation {letters : List Char} (between : scanner.mode = .between)
    (unclosed : '”' ∉ letters) (rest : List Char) :
    scanner.completed ('“' :: letters ++ ['”'] ++ rest) =
      (scanner.ahead [(quotedSign letters).placed scanner.file scanner.here]
        ('“' :: letters ++ ['”'])).completed rest := by
  rw [List.append_assoc, completed_append_of_ok (feed_opened between unclosed),
    List.singleton_append, completed_cons_of_ok rfl, quotedSign, ← emit_eq_ahead between]
  simp [emit, move, Position.afterAll]

theorem completed_unfinished {letters : List Char} (between : scanner.mode = .between)
    (unclosed : '”' ∉ letters) :
    scanner.completed ('“' :: letters) = .error (.scan .unfinishedString
      ⟨scanner.file, scanner.here, scanner.here.afterAll ('“' :: letters)⟩) := by
  rw [completed, feed_opened between unclosed]
  rfl

theorem completed_stray (between : scanner.mode = .between) (stray : Stray c) (rest : List Char) :
    scanner.completed (c :: rest) = .error (.scan (.unexpected c)
      ⟨scanner.file, scanner.here, scanner.here.after c⟩) := by
  obtain ⟨gap, mark, line, quote, dagger, letter⟩ := stray
  have step : scanner.step c = .error (.scan (.unexpected c)
      ⟨scanner.file, scanner.here, scanner.here.after c⟩) := by
    rw [step_of_between between, begin]
    simp only [gap, mark, line, quote, dagger, letter, if_false, Bool.false_eq_true]
    rfl
  rw [completed, feed_cons, step]
  rfl

theorem completed_remark {letters : List Char} (between : scanner.mode = .between)
    (unclosed : '\n' ∉ letters) (ends : RemarkEnds rest) :
    scanner.completed ('†' :: letters ++ rest) =
      (scanner.ahead (placedFrom scanner.file scanner.here [daggerSign, remarkSign letters])
        ('†' :: letters)).completed rest := by
  have step : scanner.step '†' = .ok { (scanner.move '†').emit .dagger scanner.here ['†'] none with
      mode := .remark (scanner.here.after '†') [] } := by
    rw [step_of_between between]
    rfl
  have gathered := feed_cons scanner '†' letters
  rw [step] at gathered
  replace gathered := gathered.trans (feed_remark (fun c mem same => unclosed (same ▸ mem)) rfl)
  rw [completed_append_of_ok gathered, completed_close]
  · simp [close, emit, move, ahead, between, placedFrom, Token.placed, daggerSign, remarkSign,
      sign, Position.afterAll]
  · intro first letters other
    cases other
  · intro d head
    simp only [Scanner.step, if_pos (ends d head)]

/-- The scanner takes a segment as one. -/
theorem completed_segment {signs : List Token} (between : scanner.mode = .between)
    (segment : Segment signs text rest) :
    scanner.completed (text ++ rest) =
      (scanner.ahead (placedFrom scanner.file scanner.here signs) text).completed rest := by
  cases segment with
  | mark mark => exact completed_mark between mark rest
  | lineEnd => exact completed_lineEnd between rest
  | word word ends => exact completed_word between word ends
  | quotation unclosed => exact completed_quotation between unclosed rest
  | remark unclosed ends => exact completed_remark between unclosed ends

/-- A scanner that comes to the text takes all its gaps and segments. -/
theorem completed_of_stands {file : String} {here : Position} {tokens : List Token}
    (stands : Stands file rest here tokens text) (between : scanner.mode = .between)
    (named : scanner.file = file) (reached : scanner.here = here) :
    scanner.completed (text ++ rest) = (scanner.ahead tokens text).completed rest := by
  induction stands generalizing scanner with
  | nil => rfl
  | @gap _ _ _ c gap _ ih =>
    subst named reached
    have further := @ih (scanner.ahead [] [c]) between rfl rfl
    rw [List.cons_append, completed_gap between gap, further, ahead_ahead]
    rfl
  | @segment _ signs _ taken _ segment _ ih =>
    subst named reached
    have further :=
      @ih (scanner.ahead (placedFrom scanner.file scanner.here signs) taken) between rfl rfl
    rw [List.append_assoc, completed_segment between segment, further, ahead_ahead]

theorem completed_nil (between : scanner.mode = .between) :
    scanner.completed [] =
      .ok (scanner.tokens.reverse ++ [endSign.placed scanner.file scanner.here]) := by
  simp only [completed, feed_nil, Except.bind, finish, between, close_of_between between, emit,
    List.reverse_cons]
  rfl

end Scanner

/-! ## Scanning a whole text -/

section

variable {file : String} {text behind : List Char} {tokens : List Token}

/-- Behind the tokens of its beginning, a text is scanned from between two tokens. -/
theorem scan_append_of_stands (stands : Stands file behind .origin tokens text) :
    scan file (text ++ behind) = ((Scanner.start file).ahead tokens text).completed behind :=
  Scanner.completed_of_stands stands rfl rfl rfl

theorem scan_of_stands (stands : Stands file [] .origin tokens text) :
    scan file text =
      .ok (tokens ++ [endSign.placed file (Position.origin.afterAll text)]) := by
  have scanned := scan_append_of_stands stands
  have between : ((Scanner.start file).ahead tokens text).mode = .between := rfl
  rw [List.append_nil, Scanner.completed_nil between] at scanned
  rw [scanned]
  simp only [Scanner.ahead, Scanner.start, List.append_nil, List.reverse_reverse]

theorem scan_append_stray {c : Char} {rest : List Char}
    (stands : Stands file (c :: rest) .origin tokens text) (stray : Stray c) :
    scan file (text ++ c :: rest) = .error (.scan (.unexpected c)
      ⟨file, Position.origin.afterAll text, Position.origin.afterAll (text ++ [c])⟩) := by
  have between : ((Scanner.start file).ahead tokens text).mode = .between := rfl
  rw [scan_append_of_stands stands, Scanner.completed_stray between stray,
    Position.afterAll_append]
  rfl

theorem scan_append_unfinished {letters : List Char}
    (stands : Stands file ('“' :: letters) .origin tokens text) (unclosed : '”' ∉ letters) :
    scan file (text ++ '“' :: letters) = .error (.scan .unfinishedString ⟨file,
      Position.origin.afterAll text, Position.origin.afterAll (text ++ '“' :: letters)⟩) := by
  have between : ((Scanner.start file).ahead tokens text).mode = .between := rfl
  rw [scan_append_of_stands stands, Scanner.completed_unfinished between unclosed,
    Position.afterAll_append]
  rfl

/-- A text can be scanned exactly if it is made of segments up to its end, and it is scanned as
their tokens and the end of the text. -/
theorem scan_eq_ok_iff :
    scan file text = .ok tokens ↔ ∃ body, Stands file [] .origin body text ∧
      tokens = body ++ [endSign.placed file (Position.origin.afterAll text)] := by
  constructor
  · intro scanned
    obtain ⟨body, before, behind, rfl, stands, rfl | stuck⟩ := exists_stands file .origin text
    · rw [List.append_nil] at scanned ⊢
      refine ⟨body, stands, ?_⟩
      rw [scan_of_stands stands] at scanned
      exact (Except.ok.inj scanned).symm
    · cases stuck with
      | stray stray =>
        rw [scan_append_stray stands stray] at scanned
        cases scanned
      | unfinished unclosed =>
        rw [scan_append_unfinished stands unclosed] at scanned
        cases scanned
  · rintro ⟨body, stands, rfl⟩
    exact scan_of_stands stands

end

end Marginalia
