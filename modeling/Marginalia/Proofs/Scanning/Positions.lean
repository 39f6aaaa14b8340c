import Marginalia.Text.Lines
import Marginalia.Token.Scan

/-!
# Where tokens stand

The scanner moves its point over every character that it takes, so the point it has
reached is the one behind the text so far. Every token begins and ends at a point that
the scanner has been at (`scan_points`), and where it cannot go on, it stops between two
such points (`stopsIn_of_scan`). The line of such a point is one of the lines of the text.
-/

namespace Marginalia

/-! ## The points of a text -/

/-- The position is a point of the text: the one behind some beginning of it. -/
def PointOf (text : List Char) (position : Position) : Prop :=
  ∃ before, before <+: text ∧ position = Position.origin.afterAll before

theorem Position.line_afterAll (here : Position) (text : List Char) :
    (here.afterAll text).line = here.line + text.count '\n' := by
  induction text generalizing here with
  | nil => simp [afterAll]
  | cons c rest ih =>
    change ((here.after c).afterAll rest).line = _
    rw [ih, List.count_cons]
    by_cases feed : c = '\n'
    · rw [after, if_pos feed]
      simp only [feed, beq_self_eq_true, if_true]
      omega
    · rw [after, if_neg feed]
      simp [feed]

theorem Position.index_origin_afterAll (text : List Char) :
    (origin.afterAll text).index = text.length := by
  rw [index_afterAll]
  exact Int.zero_add _

theorem length_piecesAt (mark : Char) (text : List Char) :
    (piecesAt mark text).length = text.count mark + 1 := by
  induction text with
  | nil => rfl
  | cons c rest ih =>
    rw [piecesAt, List.count_cons]
    by_cases met : c = mark
    · rw [if_pos met, List.length_cons, ih]
      simp [met]
    · rw [if_neg met]
      cases found : piecesAt mark rest with
      | nil => exact absurd found (piecesAt_ne_nil mark rest)
      | cons piece pieces =>
        rw [found] at ih
        simpa [met] using ih

namespace PointOf

variable {text : List Char} {position : Position}

theorem here (text : List Char) : PointOf text (Position.origin.afterAll text) :=
  ⟨text, List.prefix_refl text, rfl⟩

theorem append (point : PointOf text position) (more : List Char) :
    PointOf (text ++ more) position := by
  obtain ⟨before, begins, rfl⟩ := point
  exact ⟨before, begins.trans (List.prefix_append text more), rfl⟩

theorem index_le (point : PointOf text position) : position.index ≤ text.length := by
  obtain ⟨before, begins, rfl⟩ := point
  have short := begins.length_le
  rw [Position.index_afterAll]
  change (0 : Int) + _ ≤ _
  omega

/-- The line of a point is a line of the text. -/
theorem line_bounds (point : PointOf text position) :
    1 ≤ position.line ∧ position.line ≤ (splitLines text).length := by
  obtain ⟨before, begins, rfl⟩ := point
  have few : before.count '\n' ≤ text.count '\n' := begins.sublist.count_le '\n'
  rw [Position.line_afterAll, splitLines, length_piecesAt]
  change 1 ≤ (1 : Int) + _ ∧ (1 : Int) + _ ≤ _
  omega

end PointOf

/-! ## The points of a scanner -/

/-- Where that began which the scanner is in the middle of. -/
def Mode.start? : Mode → Option Position
  | .between => none
  | .word start _ | .quotation start _ | .remark start _ => some start

namespace Scanner

/-- The token begins and ends at points of the text. -/
def TokenPlaced (text : List Char) (token : Token) : Prop :=
  PointOf text token.span.start ∧ PointOf text token.span.stop

/-- The scanner has taken the text, and all that it remembers stands at points of it. -/
structure Placed (text : List Char) (scanner : Scanner) : Prop where
  here : scanner.here = Position.origin.afterAll text
  mode : ∀ start ∈ scanner.mode.start?, PointOf text start
  tokens : ∀ token ∈ scanner.tokens, TokenPlaced text token

namespace Placed

variable {text : List Char} {scanner : Scanner} {first : Position}

theorem start (file : String) : Placed [] (Scanner.start file) :=
  ⟨rfl, nofun, fun _ mem => absurd mem List.not_mem_nil⟩

theorem point (placed : Placed text scanner) : PointOf text scanner.here :=
  placed.here ▸ PointOf.here text

theorem move (placed : Placed text scanner) (c : Char) : Placed (text ++ [c]) (scanner.move c) where
  here := by
    rw [Position.afterAll_append, ← placed.here]
    rfl
  mode start begun := (placed.mode start begun).append [c]
  tokens token mem :=
    ⟨(placed.tokens token mem).1.append [c], (placed.tokens token mem).2.append [c]⟩

theorem setMode (placed : Placed text scanner) {mode : Mode}
    (point : ∀ start ∈ mode.start?, PointOf text start) : Placed text { scanner with mode } :=
  ⟨placed.here, point, placed.tokens⟩

theorem emit (placed : Placed text scanner) (point : PointOf text first) (kind : TokenKind)
    (lexeme : List Char) (literal : Option (List Char)) :
    Placed text (scanner.emit kind first lexeme literal) :=
  ⟨placed.here, nofun, List.forall_mem_cons.mpr ⟨⟨point, placed.point⟩, placed.tokens⟩⟩

theorem close (placed : Placed text scanner) : Placed text scanner.close := by
  unfold Scanner.close
  have begun := placed.mode
  cases mode : scanner.mode with
  | between => exact placed
  | quotation first letters => exact placed
  | word first letters =>
    rw [mode] at begun
    exact placed.emit (begun first rfl) _ _ _
  | remark first letters =>
    rw [mode] at begun
    exact placed.emit (begun first rfl) _ _ _

/-- A new lexeme begins where the scanner is. -/
theorem begin {next : Scanner} {c : Char} (placed : Placed text scanner)
    (begun : scanner.begin c = .ok next) : Placed (text ++ [c]) next := by
  have moved := placed.move c
  have first := placed.point.append [c]
  unfold Scanner.begin at begun
  split at begun
  · cases begun
    exact moved
  split at begun
  · cases begun
    exact moved.emit first _ _ _
  split at begun
  · cases begun
    exact moved.emit first _ _ _
  split at begun
  · cases begun
    exact moved.setMode fun start same => Option.some.inj same ▸ first
  split at begun
  · cases begun
    exact (moved.emit first _ _ _).setMode fun start same => Option.some.inj same ▸ moved.point
  split at begun
  · cases begun
    exact moved.setMode fun start same => Option.some.inj same ▸ first
  · cases begun

/-- One character keeps everything at points of the text. -/
theorem step {next : Scanner} {c : Char} (placed : Placed text scanner)
    (stepped : scanner.step c = .ok next) : Placed (text ++ [c]) next := by
  have moved := placed.move c
  have start := moved.mode
  unfold Scanner.step at stepped
  cases mode : scanner.mode with
  | between =>
    rw [mode] at stepped
    exact placed.begin stepped
  | word first letters =>
    rw [show (scanner.move c).mode = _ from mode] at start
    rw [mode] at stepped
    dsimp only at stepped
    split at stepped
    · cases stepped
      exact moved.setMode start
    · exact placed.close.begin stepped
  | quotation first letters =>
    rw [show (scanner.move c).mode = _ from mode] at start
    rw [mode] at stepped
    dsimp only at stepped
    split at stepped
    · cases stepped
      exact moved.emit (start first rfl) _ _ _
    · cases stepped
      exact moved.setMode start
  | remark first letters =>
    rw [show (scanner.move c).mode = _ from mode] at start
    rw [mode] at stepped
    dsimp only at stepped
    split at stepped
    · exact placed.close.begin stepped
    · cases stepped
      exact moved.setMode start

theorem feed {next : Scanner} {more : List Char} (placed : Placed text scanner)
    (fed : scanner.feed more = .ok next) : Placed (text ++ more) next := by
  induction more generalizing scanner text with
  | nil =>
    rw [feed_nil] at fed
    cases fed
    rwa [List.append_nil]
  | cons c more ih =>
    rw [feed_cons] at fed
    cases stepped : scanner.step c with
    | error fault =>
      rw [stepped] at fed
      cases fed
    | ok middle =>
      rw [stepped] at fed
      have placed := ih (placed.step stepped) fed
      rwa [List.append_assoc] at placed

end Placed

theorem tokenPlaced_of_finish {text : List Char} {scanner : Scanner} {tokens : List Token}
    (placed : Placed text scanner) (finished : scanner.finish = .ok tokens) :
    ∀ token ∈ tokens, TokenPlaced text token := by
  have closed := placed.close
  unfold finish at finished
  split at finished
  · cases finished
  · cases finished
    intro token mem
    exact (closed.emit closed.point .textEnd [] none).tokens token (List.mem_reverse.mp mem)

end Scanner

/-- Every token of a text begins and ends at a point of the text. -/
theorem scan_points {file : String} {text : List Char} {tokens : List Token}
    (scanned : scan file text = .ok tokens) :
    ∀ token ∈ tokens, PointOf text token.span.start ∧ PointOf text token.span.stop := by
  unfold scan at scanned
  cases fed : (Scanner.start file).feed text with
  | error fault =>
    rw [fed] at scanned
    cases scanned
  | ok scanner =>
    rw [fed] at scanned
    exact Scanner.tokenPlaced_of_finish ((Scanner.Placed.start file).feed fed) scanned

/-! ## Where the scanner stops -/

/-- The span of a text from one of its points up to the same or a later one. -/
structure Span.LiesIn (text : List Char) (span : Span) : Prop where
  start : PointOf text span.start
  stop : PointOf text span.stop
  ordered : span.start.index ≤ span.stop.index

namespace Scanner

variable {scanner : Scanner} {text : List Char} {c : Char} {fault : Fault}

/-- The fault is one of the scanner, and it lies in the text. -/
def StopsIn (text : List Char) (fault : Fault) : Prop :=
  ∃ cause span, fault = .scan cause span ∧ span.LiesIn text

/-- A scanner that cannot begin a lexeme stops at the character where it is. -/
theorem Placed.stopsIn_begin (placed : Placed text scanner) (rest : List Char)
    (stopped : scanner.begin c = .error fault) : StopsIn (text ++ c :: rest) fault := by
  have here : PointOf (text ++ c :: rest) scanner.here := placed.point.append _
  have moved : PointOf (text ++ c :: rest) (scanner.move c).here := by
    have point := (placed.move c).point.append rest
    rwa [List.append_assoc] at point
  have further : scanner.here.index ≤ (scanner.move c).here.index := by
    rw [placed.here, (placed.move c).here, Position.index_afterAll, Position.index_afterAll,
      List.length_append]
    omega
  unfold Scanner.begin at stopped
  split at stopped
  · cases stopped
  split at stopped
  · cases stopped
  split at stopped
  · cases stopped
  split at stopped
  · cases stopped
  split at stopped
  · cases stopped
  split at stopped
  · cases stopped
  · cases stopped
    exact ⟨_, _, rfl, here, moved, further⟩

theorem Placed.stopsIn_step (placed : Placed text scanner) (rest : List Char)
    (stopped : scanner.step c = .error fault) : StopsIn (text ++ c :: rest) fault := by
  unfold Scanner.step at stopped
  split at stopped
  · exact placed.stopsIn_begin rest stopped
  · split at stopped
    · cases stopped
    · exact placed.close.stopsIn_begin rest stopped
  · dsimp only at stopped
    split at stopped <;> cases stopped
  · split at stopped
    · exact placed.close.stopsIn_begin rest stopped
    · cases stopped

theorem Placed.stopsIn_feed {more : List Char} (placed : Placed text scanner)
    (stopped : scanner.feed more = .error fault) : StopsIn (text ++ more) fault := by
  induction more generalizing scanner text with
  | nil => cases stopped
  | cons c more ih =>
    rw [feed_cons] at stopped
    cases stepped : scanner.step c with
    | error other =>
      rw [stepped] at stopped
      cases stopped
      exact placed.stopsIn_step more stepped
    | ok next =>
      rw [stepped] at stopped
      have inside := ih (placed.step stepped) stopped
      rwa [List.append_assoc] at inside

/-- A quotation that is not closed lies between its quote and the end of the text. -/
theorem Placed.stopsIn_finish (placed : Placed text scanner)
    (stopped : scanner.finish = .error fault) : StopsIn text fault := by
  unfold Scanner.finish at stopped
  split at stopped
  next first letters mode =>
    cases stopped
    have begun : PointOf text first := placed.mode first (by rw [mode]; rfl)
    refine ⟨_, _, rfl, begun, placed.point, ?_⟩
    rw [placed.here, Position.index_afterAll]
    exact Int.le_trans begun.index_le (Int.le_of_eq (Int.zero_add _).symm)
  next => cases stopped

end Scanner

/-- A text that cannot be scanned stops the scanner at a place in it. -/
theorem stopsIn_of_scan {file : String} {text : List Char} {fault : Fault}
    (stopped : scan file text = .error fault) : Scanner.StopsIn text fault := by
  unfold scan at stopped
  cases fed : (Scanner.start file).feed text with
  | error other =>
    rw [fed] at stopped
    cases stopped
    exact (Scanner.Placed.start file).stopsIn_feed fed
  | ok scanner =>
    rw [fed] at stopped
    exact ((Scanner.Placed.start file).feed fed).stopsIn_finish stopped

end Marginalia
