import Marginalia.Proofs.Reading.Places
import Marginalia.Proofs.Scanning.Positions
import Marginalia.Proofs.Scanning.Written

/-!
# Scanning two texts with a line feed between them

A line feed ends every word and every remark, so behind it the scanner is as it was before
the first character, but for the point it has reached and the tokens it has read. From
there on it does what it does with the second text alone, only further down
(`Scanner.feed_below`). So the tokens of two texts with a line feed between them are those
of the first, a line end, and those of the second at places further down
(`scan_append_lineFeed`); and where the second text cannot be scanned, the fault is the same one
further down.
-/

namespace Marginalia

/-! ## Places further down -/

/-- The point of a text that stands below another text, with a line feed between them. -/
def Position.below (above : List Char) (here : Position) : Position :=
  ⟨here.index + (above.length + 1), here.line + (1 + above.count '\n'), here.column⟩

/-- The span of a text that stands below another text. -/
def Span.below (above : List Char) (span : Span) : Span :=
  ⟨span.file, span.start.below above, span.stop.below above⟩

theorem joins_below (above : List Char) : Joins (Span.below above) :=
  fun _ _ => rfl

theorem Position.below_after (above : List Char) (here : Position) (c : Char) :
    (here.after c).below above = (here.below above).after c := by
  unfold Position.after
  by_cases feed : c = '\n'
  · simp only [if_pos feed, below, Position.mk.injEq, and_true]
    omega
  · simp only [if_neg feed, below, Position.mk.injEq, and_true]
    omega

theorem Position.below_origin (above : List Char) :
    origin.below above = origin.afterAll (above ++ ['\n']) := by
  have index := index_afterAll origin (above ++ ['\n'])
  have line := line_afterAll origin (above ++ ['\n'])
  have column : (origin.afterAll (above ++ ['\n'])).column = 0 := by
    rw [afterAll_append]
    rfl
  rw [List.length_append, List.length_singleton] at index
  rw [List.count_append, List.count_singleton_self] at line
  generalize origin.afterAll (above ++ ['\n']) = stop at index line column
  obtain ⟨stopIndex, stopLine, stopColumn⟩ := stop
  simp only [origin] at index line column
  simp only [origin, below, Position.mk.injEq]
  omega

/-! ## A scanner further down -/

/-- What a scanner is in the middle of, further down. -/
def Mode.below (above : List Char) : Mode → Mode
  | .between => .between
  | .word start letters => .word (start.below above) letters
  | .quotation start letters => .quotation (start.below above) letters
  | .remark start letters => .remark (start.below above) letters

namespace Scanner

variable {above : List Char} {earlier : List Token}

/-- The scanner further down, with earlier tokens behind its own. -/
def below (above : List Char) (earlier : List Token) (scanner : Scanner) : Scanner :=
  { scanner with
    here := scanner.here.below above
    mode := scanner.mode.below above
    tokens := scanner.tokens.map (Token.moved (Span.below above)) ++ earlier }

/-- The outcome of a step or of some steps, further down. -/
def outcomeBelow (above : List Char) (earlier : List Token) :
    Except Fault Scanner → Except Fault Scanner
  | .ok next => .ok (next.below above earlier)
  | .error fault => .error (fault.moved (Span.below above))

theorem mode_below (scanner : Scanner) :
    (scanner.below above earlier).mode = scanner.mode.below above := rfl

theorem below_move (scanner : Scanner) (c : Char) :
    (scanner.move c).below above earlier = (scanner.below above earlier).move c := by
  simp only [move, below, Position.below_after]

theorem below_close (scanner : Scanner) :
    scanner.close.below above earlier = (scanner.below above earlier).close := by
  obtain ⟨file, here, mode, tokens⟩ := scanner
  cases mode <;> rfl

/-- Scanning below another text begins a lexeme at the same character, further down. -/
theorem begin_below (scanner : Scanner) (c : Char) :
    (scanner.below above earlier).begin c =
      outcomeBelow above earlier (scanner.begin c) := by
  unfold begin
  dsimp only
  rw [← below_move]
  by_cases gap : isGap c = true
  · rw [if_pos gap, if_pos gap]
    rfl
  rw [if_neg gap, if_neg gap]
  cases TokenKind.ofMark? c with
  | some kind => rfl
  | none =>
    dsimp only
    by_cases feed : c = '\n'
    · rw [if_pos feed, if_pos feed]
      rfl
    rw [if_neg feed, if_neg feed]
    by_cases quote : c = '“'
    · rw [if_pos quote, if_pos quote]
      rfl
    rw [if_neg quote, if_neg quote]
    by_cases dagger : c = '†'
    · rw [if_pos dagger, if_pos dagger]
      rfl
    rw [if_neg dagger, if_neg dagger]
    by_cases letter : isWordChar c = true
    · rw [if_pos letter, if_pos letter]
      rfl
    · rw [if_neg letter, if_neg letter]
      rfl

/-- A scanner further down takes a character as the scanner does here. -/
theorem step_below (scanner : Scanner) (c : Char) :
    (scanner.below above earlier).step c = outcomeBelow above earlier (scanner.step c) := by
  have closed : (scanner.below above earlier).close.begin c =
      outcomeBelow above earlier (scanner.close.begin c) := by
    rw [← below_close, begin_below]
  have moved : (scanner.below above earlier).move c = (scanner.move c).below above earlier :=
    (below_move scanner c).symm
  unfold step
  rw [moved, closed, mode_below]
  cases scanner.mode with
  | between => exact begin_below scanner c
  | word start letters | quotation start letters | remark start letters =>
    dsimp only [Mode.below]
    split <;> rfl

/-- A scanner further down takes a text as the scanner does here. -/
theorem feed_below (scanner : Scanner) (text : List Char) :
    (scanner.below above earlier).feed text = outcomeBelow above earlier (scanner.feed text) := by
  induction text generalizing scanner with
  | nil => rfl
  | cons c text ih =>
    rw [feed_cons, feed_cons, step_below]
    cases scanner.step c with
    | error fault => rfl
    | ok next => exact ih next

/-- A scanner further down ends with the tokens of the scanner here, behind the earlier ones. -/
theorem finish_below (scanner : Scanner) :
    (scanner.below above earlier).finish =
      match scanner.finish with
      | .ok tokens => .ok (earlier.reverse ++ tokens.map (Token.moved (Span.below above)))
      | .error fault => .error (fault.moved (Span.below above)) := by
  have tokens : ∀ closed : Scanner,
      ((closed.below above earlier).emit .textEnd (closed.below above earlier).here []
        none).tokens.reverse = earlier.reverse ++
          ((closed.emit .textEnd closed.here [] none).tokens.reverse.map
            (Token.moved (Span.below above))) := by
    intro closed
    rw [List.map_reverse, ← List.reverse_append]
    rfl
  unfold finish
  rw [mode_below]
  cases scanner.mode with
  | quotation start letters => rfl
  | between | word start letters | remark start letters =>
    dsimp only [Mode.below]
    rw [← below_close, tokens]

theorem completed_below (scanner : Scanner) (text : List Char) :
    (scanner.below above earlier).completed text =
      match scanner.completed text with
      | .ok tokens => .ok (earlier.reverse ++ tokens.map (Token.moved (Span.below above)))
      | .error fault => .error (fault.moved (Span.below above)) := by
  unfold completed
  rw [feed_below]
  cases scanner.feed text with
  | error fault => rfl
  | ok next => exact finish_below next

/-! ## The line feed -/

section

variable {scanner next : Scanner} {text : List Char} {c : Char}

theorem file_of_begin (begun : scanner.begin c = .ok next) : next.file = scanner.file := by
  unfold begin at begun
  repeat' split at begun
  all_goals
    cases begun
    try rfl

theorem file_close (scanner : Scanner) : scanner.close.file = scanner.file := by
  unfold close
  split <;> rfl

theorem here_close (scanner : Scanner) : scanner.close.here = scanner.here := by
  unfold close
  split <;> rfl

theorem file_of_step (stepped : scanner.step c = .ok next) : next.file = scanner.file := by
  unfold step at stepped
  have closed : scanner.close.begin c = .ok next → next.file = scanner.file := fun begun =>
    (file_of_begin begun).trans scanner.file_close
  cases mode : scanner.mode with
  | between =>
    rw [mode] at stepped
    exact file_of_begin stepped
  | word start letters | remark start letters =>
    rw [mode] at stepped
    dsimp only at stepped
    split at stepped
    all_goals first | exact closed stepped | (cases stepped; rfl)
  | quotation start letters =>
    rw [mode] at stepped
    dsimp only at stepped
    split at stepped <;> (cases stepped; rfl)

theorem file_of_feed (fed : scanner.feed text = .ok next) : next.file = scanner.file := by
  induction text generalizing scanner with
  | nil =>
    cases fed
    rfl
  | cons c text ih =>
    rw [feed_cons] at fed
    cases stepped : scanner.step c with
    | error fault =>
      rw [stepped] at fed
      cases fed
    | ok middle =>
      rw [stepped] at fed
      exact (ih fed).trans (file_of_step stepped)

/-- A line feed closes whatever but a quoted text is open. -/
theorem step_lineFeed (unquoted : ∀ start letters, scanner.mode ≠ .quotation start letters) :
    scanner.step '\n' =
      .ok ((scanner.close.move '\n').emit .lineEnd scanner.close.here ['\n'] none) := by
  unfold step
  cases mode : scanner.mode with
  | between =>
    rw [close_of_between mode]
    rfl
  | word start letters | remark start letters => rfl
  | quotation start letters => exact absurd mode (unquoted start letters)

end

end Scanner

/-- The line end behind a text. -/
def lineEndBelow (file : String) (above : List Char) : Token :=
  ⟨.lineEnd, "\n", none,
    ⟨file, Position.origin.afterAll above, Position.origin.afterAll (above ++ ['\n'])⟩⟩

/-- Behind the line feed the scanner is as it was at the start, further down. -/
theorem Scanner.step_lineFeed_of_feed {file : String} {above : List Char} {scanner : Scanner}
    (fed : (Scanner.start file).feed above = .ok scanner)
    (unquoted : ∀ start letters, scanner.mode ≠ .quotation start letters) :
    scanner.step '\n' = .ok ((Scanner.start file).below above
      (lineEndBelow file above :: scanner.close.tokens)) := by
  have here : scanner.close.here = Position.origin.afterAll above :=
    scanner.here_close.trans ((Scanner.Placed.start file).feed fed).here
  have name : scanner.close.file = file := scanner.file_close.trans (Scanner.file_of_feed fed)
  have further : (Position.origin.afterAll above).after '\n' =
      Position.origin.afterAll (above ++ ['\n']) := (Position.afterAll_append _ above ['\n']).symm
  rw [step_lineFeed unquoted]
  simp only [emit, move, below, lineEndBelow, Scanner.start, here, name, further,
    Position.below_origin]
  rfl

/-- Scanning two texts with a line feed between them, the first of which can be scanned. -/
theorem scan_append_lineFeed {file : String} {above : List Char} {tokens : List Token}
    (scanned : scan file above = .ok tokens) (text : List Char) :
    scan file (above ++ '\n' :: text) =
      match scan file text with
      | .ok others => .ok (tokens.dropLast ++ lineEndBelow file above ::
          others.map (Token.moved (Span.below above)))
      | .error fault => .error (fault.moved (Span.below above)) := by
  unfold scan at scanned
  cases fed : (Scanner.start file).feed above with
  | error fault =>
    rw [fed] at scanned
    cases scanned
  | ok scanner =>
    rw [fed] at scanned
    change scanner.finish = _ at scanned
    unfold Scanner.finish at scanned
    split at scanned
    · cases scanned
    case h_2 unquoted =>
      cases scanned
      have whole : scan file (above ++ '\n' :: text) = scanner.completed ('\n' :: text) :=
        Scanner.completed_append_of_ok fed
      have own : (scanner.close.emit .textEnd scanner.close.here [] none).tokens.reverse.dropLast =
          scanner.close.tokens.reverse := by
        rw [List.dropLast_reverse]
        rfl
      rw [whole, Scanner.completed_cons_of_ok (Scanner.step_lineFeed_of_feed fed unquoted),
        Scanner.completed_below, own, List.reverse_cons]
      simp only [List.append_assoc, List.singleton_append]
      rfl

end Marginalia
