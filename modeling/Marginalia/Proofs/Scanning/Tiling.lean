import Mathlib.Data.List.Induction
import Marginalia.Diagnostic
import Marginalia.Proofs.Scanning.Positions
import Marginalia.Proofs.Scanning.Written

/-!
# Tokens tile the text

The scanner drops nothing but gaps. `Laid tokens text` says that some tokens stand one
behind another in a text with only gaps between them, each from the point where its text
begins to the point where it ends. Each character that a scanner takes keeps this up
(`Scanner.Reads.step`), so it holds of every scanned text (`Laid.of_scan`).

What a reader of the tokens wants to know follows from it: `Tiles` says that each token is
the piece of the text between its two points, that tokens do not overlap, that what no
token covers is blank, and that index, line and column of a point agree (`scan_tiles`).
-/

namespace Marginalia

/-! ## The place of an index -/

/-- The index at which the last line of the text begins. -/
def lineStart (text : List Char) : Nat :=
  match lastFeed? text with
  | none => 0
  | some feed => feed + 1

theorem lastFeed?_append (text : List Char) (c : Char) :
    lastFeed? (text ++ [c]) = if c = '\n' then some text.length else lastFeed? text := by
  unfold lastFeed?
  rw [List.reverse_append, List.reverse_singleton, List.singleton_append, List.findIdx?_cons]
  by_cases feed : c = '\n'
  · simp [feed]
  · have unchanged : ∀ back, (text ++ [c]).length - 1 - (back + 1) = text.length - 1 - back := by
      intro back
      rw [List.length_append, List.length_singleton]
      omega
    simp only [feed, decide_false, Bool.false_eq_true, if_false, Option.map_map,
      Function.comp_def, unchanged]

theorem lineStart_append (text : List Char) (c : Char) :
    lineStart (text ++ [c]) = if c = '\n' then text.length + 1 else lineStart text := by
  unfold lineStart
  rw [lastFeed?_append]
  by_cases feed : c = '\n'
  · simp only [if_pos feed]
  · simp only [if_neg feed]

theorem Position.column_afterAll (text : List Char) :
    (origin.afterAll text).column = text.length - lineStart text := by
  induction text using List.reverseRecOn with
  | nil => rfl
  | append_singleton text c ih =>
    have last : origin.afterAll (text ++ [c]) = (origin.afterAll text).after c :=
      afterAll_append origin text [c]
    rw [last, lineStart_append, after, List.length_append, List.length_singleton]
    by_cases feed : c = '\n'
    · simp only [if_pos feed]
      omega
    · simp only [if_neg feed, ih]
      omega

/-- The position is a point of the text, and its line and column are those of its index. -/
structure TruePoint (text : List Char) (position : Position) : Prop where
  nonneg : 0 ≤ position.index
  within : position.index ≤ text.length
  line : position.line = 1 + (text.take position.index.toNat).count '\n'
  column : position.column = position.index - lineStart (text.take position.index.toNat)

theorem TruePoint.of_pointOf {text : List Char} {position : Position}
    (point : PointOf text position) : TruePoint text position := by
  obtain ⟨before, ⟨behind, rfl⟩, rfl⟩ := point
  have index : (Position.origin.afterAll before).index = before.length := by
    rw [Position.index_afterAll]
    exact Int.zero_add _
  have taken : (before ++ behind).take (Position.origin.afterAll before).index.toNat = before := by
    rw [index, Int.toNat_natCast, List.take_left]
  refine ⟨?_, ?_, ?_, ?_⟩
  · omega
  · rw [index, List.length_append]
    omega
  · rw [taken, Position.line_afterAll]
    rfl
  · rw [taken, index, Position.column_afterAll]

/-! ## Tokens one behind another -/

theorem ofList_ne_empty {text : List Char} (some : text ≠ []) : String.ofList text ≠ "" := by
  intro empty
  exact some (String.toList_ofList.symm.trans (congrArg String.toList empty))

/-- The tokens, the last one first, stand one behind another in the text, and between them are
gaps. No gap follows a token without a text. -/
inductive Laid : List Token → List Char → Prop
  | nil : Laid [] []
  | gap {tokens : List Token} {text : List Char} {c : Char} :
    Laid tokens text → isGap c = true → (∀ last ∈ tokens.head?, last.lexeme ≠ "") →
    Laid tokens (text ++ [c])
  | token {tokens : List Token} {token : Token} {text : List Char} :
    Laid tokens text → token.span.start = Position.origin.afterAll text →
    token.span.stop = Position.origin.afterAll (text ++ token.lexeme.toList) →
    Laid (token :: tokens) (text ++ token.lexeme.toList)

namespace Laid

variable {tokens : List Token} {token : Token} {text : List Char}

/-- The last token, and the gaps behind it. -/
theorem of_cons (laid : Laid (token :: tokens) text) :
    ∃ before gaps, text = before ++ token.lexeme.toList ++ gaps ∧ Laid tokens before ∧
      token.span.start = Position.origin.afterAll before ∧
      token.span.stop = Position.origin.afterAll (before ++ token.lexeme.toList) ∧
      (token.lexeme = "" → gaps = []) := by
  generalize all : token :: tokens = signs at laid
  induction laid with
  | nil => cases all
  | @gap signs text c laid isGap solid ih =>
    subst all
    obtain ⟨before, gaps, rfl, earlier, start, stop, tight⟩ := ih rfl
    refine ⟨before, gaps ++ [c], by simp only [List.append_assoc], earlier, start, stop, ?_⟩
    intro empty
    exact absurd empty (solid token rfl)
  | @token signs last text laid start stop ih =>
    cases all
    exact ⟨text, [], (List.append_nil _).symm, laid, start, stop, fun _ => rfl⟩

/-- Each token is a piece of the text, between the points it names. -/
theorem exists_piece (laid : Laid tokens text) (mem : token ∈ tokens) :
    ∃ before behind, text = before ++ token.lexeme.toList ++ behind ∧
      token.span.start = Position.origin.afterAll before ∧
      token.span.stop = Position.origin.afterAll (before ++ token.lexeme.toList) := by
  induction laid with
  | nil => exact absurd mem List.not_mem_nil
  | @gap tokens text c laid isGap solid ih =>
    obtain ⟨before, behind, rfl, start, stop⟩ := ih mem
    exact ⟨before, behind ++ [c], by simp only [List.append_assoc], start, stop⟩
  | @token tokens last text laid start stop ih =>
    rcases List.mem_cons.mp mem with rfl | mem
    · exact ⟨text, [], (List.append_nil _).symm, start, stop⟩
    · obtain ⟨before, behind, rfl, start, stop⟩ := ih mem
      exact ⟨before, behind ++ last.lexeme.toList, by simp only [List.append_assoc], start, stop⟩

theorem index_start {before : List Char}
    (start : token.span.start = Position.origin.afterAll before) :
    token.span.start.index = before.length := by
  rw [start, Position.index_afterAll]
  exact Int.zero_add _

theorem index_stop {before : List Char}
    (stop : token.span.stop = Position.origin.afterAll (before ++ token.lexeme.toList)) :
    token.span.stop.index = before.length + token.lexeme.toList.length := by
  rw [stop, Position.index_afterAll, List.length_append, Int.natCast_add]
  exact Int.zero_add _

theorem lexeme_eq_slice (laid : Laid tokens text) (mem : token ∈ tokens) :
    token.lexeme.toList =
      slice text token.span.start.index.toNat token.span.stop.index.toNat := by
  obtain ⟨before, behind, rfl, start, stop⟩ := laid.exists_piece mem
  have stopAt : token.span.stop.index.toNat = (before ++ token.lexeme.toList).length := by
    rw [index_stop stop, List.length_append]
    omega
  rw [slice, stopAt, List.take_left, index_start start, Int.toNat_natCast, List.drop_left]

theorem start_le_stop (laid : Laid tokens text) (mem : token ∈ tokens) :
    token.span.start.index ≤ token.span.stop.index := by
  obtain ⟨before, behind, rfl, start, stop⟩ := laid.exists_piece mem
  rw [index_start start, index_stop stop]
  omega

theorem start_lt_stop (laid : Laid tokens text) (mem : token ∈ tokens) (some : token.lexeme ≠ "") :
    token.span.start.index < token.span.stop.index := by
  obtain ⟨before, behind, rfl, start, stop⟩ := laid.exists_piece mem
  have long : 0 < token.lexeme.toList.length := by
    rw [List.length_pos_iff, Ne, String.toList_eq_nil_iff]
    exact some
  rw [index_start start, index_stop stop]
  omega

theorem stop_le_length (laid : Laid tokens text) (mem : token ∈ tokens) :
    token.span.stop.index ≤ text.length := by
  obtain ⟨before, behind, rfl, start, stop⟩ := laid.exists_piece mem
  rw [index_stop stop]
  simp only [List.length_append]
  omega

/-- No two tokens overlap. -/
theorem pairwise (laid : Laid tokens text) :
    tokens.Pairwise fun later earlier => earlier.span.stop.index ≤ later.span.start.index := by
  induction laid with
  | nil => exact .nil
  | gap _ _ _ ih => exact ih
  | token laid start _ ih =>
    refine List.pairwise_cons.mpr ⟨fun earlier mem => ?_, ih⟩
    rw [index_start start]
    exact laid.stop_le_length mem

/-- What no token covers is a gap. -/
theorem covers (laid : Laid tokens text) (index : Nat) (inside : index < text.length) :
    (∃ token ∈ tokens, token.span.start.index ≤ index ∧ (index : Int) < token.span.stop.index) ∨
      isGap text[index] = true := by
  induction laid with
  | nil => exact absurd inside (Nat.not_lt_zero index)
  | @gap tokens text c laid isGap solid ih =>
    by_cases earlier : index < text.length
    · rw [List.getElem_append_left earlier]
      exact ih earlier
    · have last : index = text.length := by
        rw [List.length_append, List.length_singleton] at inside
        omega
      subst last
      right
      rw [List.getElem_concat_length rfl]
      exact isGap
  | @token tokens token text laid start stop ih =>
    by_cases earlier : index < text.length
    · rw [List.getElem_append_left earlier]
      rcases ih earlier with ⟨token, mem, covered⟩ | gap
      · exact .inl ⟨token, List.mem_cons_of_mem _ mem, covered⟩
      · exact .inr gap
    · rw [List.length_append] at inside
      refine .inl ⟨token, List.mem_cons_self, ?_, ?_⟩
      · rw [index_start start]
        omega
      · rw [index_stop stop]
        omega

/-- Of two tokens side by side, the first one ends no later than the second one begins; behind a
token without a text the second one follows at once. -/
theorem adjacent {after before : List Token} {first second : Token}
    (laid : Laid (after ++ second :: first :: before) text) :
    first.span.stop.index ≤ second.span.start.index ∧
      (first.lexeme = "" → second.span.start = first.span.start) := by
  induction after generalizing text with
  | cons last after ih =>
    obtain ⟨_, _, _, earlier, _⟩ := laid.of_cons
    exact ih earlier
  | nil =>
    obtain ⟨middle, _, _, earlier, start, _⟩ := laid.of_cons
    refine ⟨?_, fun empty => ?_⟩
    · rw [index_start start]
      exact earlier.stop_le_length List.mem_cons_self
    · obtain ⟨front, gaps, rfl, _, begins, _, tight⟩ := earlier.of_cons
      rw [start, begins, tight empty, empty, List.append_nil]
      exact congrArg _ (List.append_nil front)

end Laid

/-! ## The scanner lays its tokens -/

/-- What has been read of the token that the scanner is in the middle of. -/
def Mode.begun : Mode → List Char
  | .between => []
  | .word _ letters | .remark _ letters => letters.reverse
  | .quotation _ letters => '“' :: letters.reverse

namespace Scanner

/-- The scanner has laid its tokens in `done`, and has read on since. -/
structure Lays (done : List Char) (scanner : Scanner) : Prop where
  laid : Laid scanner.tokens done
  start : ∀ start ∈ scanner.mode.start?, start = Position.origin.afterAll done
  here : scanner.here = Position.origin.afterAll (done ++ scanner.mode.begun)

/-- The next character may be a gap: no empty token has just been read. -/
def Solid (scanner : Scanner) : Prop :=
  ∀ last ∈ scanner.tokens.head?, last.lexeme ≠ ""

/-- The scanner has read the text. -/
structure Reads (text : List Char) (scanner : Scanner) : Prop where
  lays : ∃ done, text = done ++ scanner.mode.begun ∧ scanner.Lays done
  solid : scanner.mode = .between → scanner.Solid
  word : ∀ start letters, scanner.mode = .word start letters → letters ≠ []

section

variable {text done lexeme : List Char} {scanner next : Scanner} {c : Char}

theorem Lays.emit (scanner : Scanner) (laid : Laid scanner.tokens done)
    (here : scanner.here = Position.origin.afterAll (done ++ lexeme)) (kind : TokenKind)
    (literal : Option (List Char)) :
    Lays (done ++ lexeme) (scanner.emit kind (Position.origin.afterAll done) lexeme literal) where
  laid := by
    let token : Token := ⟨kind, String.ofList lexeme, literal.map String.ofList,
      ⟨scanner.file, Position.origin.afterAll done, scanner.here⟩⟩
    have spelled : token.lexeme.toList = lexeme := String.toList_ofList
    have laid : Laid (token :: scanner.tokens) (done ++ token.lexeme.toList) :=
      laid.token rfl (spelled ▸ here)
    rwa [spelled] at laid
  start := nofun
  here := by
    rw [show (scanner.emit _ _ _ _).mode.begun = [] from rfl, List.append_nil]
    exact here

theorem solid_emit (kind : TokenKind) (first : Position) (literal : Option (List Char))
    (some : lexeme ≠ []) : (scanner.emit kind first lexeme literal).Solid := by
  rintro last ⟨⟩
  exact ofList_ne_empty some

theorem Reads.of_between (between : scanner.mode = .between) (lays : scanner.Lays text)
    (solid : scanner.Solid) : Reads text scanner where
  lays := ⟨text, by rw [between]; exact (List.append_nil text).symm, lays⟩
  solid _ := solid
  word start letters word := by rw [between] at word; cases word

theorem Reads.start (file : String) : Reads [] (Scanner.start file) := by
  have lays : Lays [] (Scanner.start file) := by
    refine ⟨.nil, ?_, rfl⟩
    rintro start ⟨⟩
  refine .of_between rfl lays ?_
  rintro last ⟨⟩

theorem Lays.here_of_between (lays : scanner.Lays text) (between : scanner.mode = .between) :
    scanner.here = Position.origin.afterAll text := by
  have here := lays.here
  rwa [between, show Mode.between.begun = [] from rfl, List.append_nil] at here

theorem Reads.mode_between (reads : Reads text scanner) (between : scanner.mode = .between) :
    scanner.Lays text := by
  obtain ⟨done, rfl, lays⟩ := reads.lays
  rw [between]
  exact (List.append_nil done).symm ▸ lays

/-- Closing a word or a remark lays its token. -/
theorem Reads.close (reads : Reads text scanner)
    (unquoted : ∀ start letters, scanner.mode ≠ .quotation start letters) :
    scanner.close.Lays text := by
  obtain ⟨done, rfl, lays⟩ := reads.lays
  have here := lays.here
  have begins := lays.start
  unfold Scanner.close
  cases mode : scanner.mode with
  | between =>
    rw [show Mode.between.begun = [] from rfl, List.append_nil]
    exact lays
  | quotation start letters => exact absurd mode (unquoted start letters)
  | word start letters =>
    rw [mode] at here begins
    rw [begins start rfl]
    exact Lays.emit scanner lays.laid here _ _
  | remark start letters =>
    rw [mode] at here begins
    rw [begins start rfl]
    exact Lays.emit scanner lays.laid here _ _

/-- Between two tokens, a character is a gap, a token, or the beginning of one. -/
theorem Lays.begin (lays : scanner.Lays text) (between : scanner.mode = .between)
    (solid : isGap c = true → scanner.Solid) (begun : scanner.begin c = .ok next) :
    Reads (text ++ [c]) next := by
  have here := lays.here_of_between between
  have moved : (scanner.move c).here = Position.origin.afterAll (text ++ [c]) := by
    rw [Position.afterAll_append, ← here]
    rfl
  unfold Scanner.begin at begun
  rw [here] at begun
  split at begun
  case isTrue gap =>
    cases begun
    refine .of_between between ⟨lays.laid.gap gap (solid gap), ?_, ?_⟩ (solid gap)
    · rw [show (scanner.move c).mode = .between from between]
      exact nofun
    · rw [show (scanner.move c).mode = .between from between,
        show Mode.between.begun = [] from rfl, List.append_nil]
      exact moved
  split at begun
  · cases begun
    exact .of_between rfl (Lays.emit (scanner.move c) lays.laid moved _ _)
      (solid_emit _ _ _ (List.cons_ne_nil _ _))
  split at begun
  · cases begun
    exact .of_between rfl (Lays.emit (scanner.move c) lays.laid moved _ _)
      (solid_emit _ _ _ (List.cons_ne_nil _ _))
  split at begun
  case isTrue quote =>
    cases begun
    subst quote
    refine ⟨⟨text, rfl, lays.laid, ?_, moved⟩, nofun, nofun⟩
    exact fun start same => (Option.some.inj same).symm
  split at begun
  case isTrue dagger =>
    cases begun
    have laid := (Lays.emit (scanner.move c) lays.laid moved .dagger none).laid
    refine ⟨⟨text ++ [c], (List.append_nil _).symm, laid, ?_, ?_⟩, nofun, nofun⟩
    · intro start same
      rw [← Option.some.inj same]
      exact moved
    · rw [show (Mode.remark _ []).begun = [] from rfl, List.append_nil]
      exact moved
  split at begun
  · cases begun
    refine ⟨⟨text, rfl, lays.laid, ?_, moved⟩, nofun, ?_⟩
    · exact fun start same => (Option.some.inj same).symm
    · rintro start letters ⟨⟩
      exact List.cons_ne_nil _ _
  · cases begun

/-- Inside a token, a character belongs to it. -/
theorem Lays.gather {mode : Mode} (lays : scanner.Lays done)
    (start : mode.start? = scanner.mode.start?)
    (begun : mode.begun = scanner.mode.begun ++ [c]) :
    Lays done { scanner.move c with mode := mode } where
  laid := lays.laid
  start := by
    rw [start]
    exact lays.start
  here := by
    rw [begun, ← List.append_assoc, Position.afterAll_append, ← lays.here]
    rfl

theorem Reads.gather {mode : Mode} (reads : Reads text scanner) (inside : mode ≠ .between)
    (start : mode.start? = scanner.mode.start?)
    (begun : mode.begun = scanner.mode.begun ++ [c]) :
    Reads (text ++ [c]) { scanner.move c with mode := mode } := by
  obtain ⟨done, rfl, lays⟩ := reads.lays
  refine ⟨⟨done, ?_, lays.gather start begun⟩, fun same => absurd same inside, ?_⟩
  · rw [begun, List.append_assoc]
  · rintro first letters rfl rfl
    exact absurd begun.symm (List.append_ne_nil_of_right_ne_nil _ (List.cons_ne_nil c []))

/-- One character more has been read. -/
theorem Reads.step (reads : Reads text scanner) (stepped : scanner.step c = .ok next) :
    Reads (text ++ [c]) next := by
  have closed := reads.close
  unfold Scanner.step at stepped
  cases mode : scanner.mode with
  | between =>
    rw [mode] at stepped
    exact (reads.mode_between mode).begin mode (fun _ => reads.solid mode) stepped
  | word start letters =>
    replace closed := closed (by rw [mode]; rintro _ _ ⟨⟩)
    rw [mode] at stepped
    dsimp only at stepped
    split at stepped
    · cases stepped
      refine reads.gather (by rintro ⟨⟩) (by rw [mode]; rfl) ?_
      rw [mode]
      exact List.reverse_cons
    · have letter : letters.reverse ≠ [] := by
        rw [Ne, List.reverse_eq_nil_iff]
        exact reads.word start letters mode
      have between : scanner.close.mode = .between := by
        rw [Scanner.close, mode]
        rfl
      refine closed.begin between (fun _ => ?_) stepped
      rw [Scanner.close, mode]
      exact solid_emit _ _ _ letter
  | quotation start letters =>
    rw [mode] at stepped
    dsimp only at stepped
    have same : (Mode.quotation start (c :: letters)).start? = scanner.mode.start? := by
      rw [mode]
      rfl
    have begun : (Mode.quotation start (c :: letters)).begun = scanner.mode.begun ++ [c] := by
      rw [mode]
      exact congrArg (List.cons _) List.reverse_cons
    split at stepped
    case isTrue closing =>
      cases stepped
      subst closing
      -- The quotation up to here is a token, with the mark that closes it.
      obtain ⟨done, rfl, lays⟩ := reads.lays
      have gathered := lays.gather same begun
      have quoted : (Mode.quotation start ('”' :: letters)).begun =
          '“' :: letters.reverse ++ ['”'] := congrArg (List.cons _) List.reverse_cons
      have here := gathered.here
      rw [show Mode.begun _ = _ from quoted] at here
      rw [List.append_assoc, ← begun, quoted, gathered.start start rfl]
      refine .of_between rfl (Lays.emit (scanner.move '”') lays.laid here _ _) ?_
      exact solid_emit _ _ _ (List.cons_ne_nil _ _)
    · cases stepped
      exact reads.gather (by rintro ⟨⟩) same begun
  | remark start letters =>
    replace closed := closed (by rw [mode]; rintro _ _ ⟨⟩)
    rw [mode] at stepped
    dsimp only at stepped
    split at stepped
    case isTrue feed =>
      have between : scanner.close.mode = .between := by
        rw [Scanner.close, mode]
        rfl
      refine closed.begin between (fun gap => ?_) stepped
      subst feed
      exact absurd gap (by decide)
    · cases stepped
      refine reads.gather (by rintro ⟨⟩) (by rw [mode]; rfl) ?_
      rw [mode]
      exact List.reverse_cons

theorem Reads.feed {more : List Char} (reads : Reads text scanner)
    (fed : scanner.feed more = .ok next) : Reads (text ++ more) next := by
  induction more generalizing scanner text with
  | nil =>
    rw [feed_nil] at fed
    cases fed
    rwa [List.append_nil]
  | cons c more ih =>
    rw [feed_cons] at fed
    cases stepped : scanner.step c with
    | error fault =>
      rw [stepped] at fed
      cases fed
    | ok middle =>
      rw [stepped] at fed
      have reads := ih (reads.step stepped) fed
      rwa [List.append_assoc] at reads

end

end Scanner

/-- The tokens of a text are laid in it, the end of the text at its end. -/
theorem Laid.of_scan {file : String} {text : List Char} {tokens : List Token}
    (scanned : scan file text = .ok tokens) : Laid tokens.reverse text := by
  unfold scan at scanned
  cases fed : (Scanner.start file).feed text with
  | error fault =>
    rw [fed] at scanned
    cases scanned
  | ok scanner =>
    have reads : Scanner.Reads text scanner := (Scanner.Reads.start file).feed fed
    rw [fed] at scanned
    change scanner.finish = _ at scanned
    unfold Scanner.finish at scanned
    split at scanned
    · cases scanned
    case h_2 unquoted =>
      cases scanned
      have closed := reads.close unquoted
      have between : scanner.close.mode = .between := by
        unfold Scanner.close
        split
        · assumption
        · exact absurd ‹_› (unquoted _ _)
        · rfl
        · rfl
      have here := closed.here_of_between between
      have stays : scanner.close.here = Position.origin.afterAll (text ++ []) := by
        rwa [List.append_nil]
      have laid := (Scanner.Lays.emit scanner.close closed.laid stays .textEnd none).laid
      rwa [List.append_nil, ← here, ← List.reverse_reverse (Scanner.tokens _)] at laid

/-! ## Tokens without a text -/

/-- The token, with these tokens before it, is the text of a remark that says nothing. -/
def EmptyRemark (before : List Token) (token : Token) : Prop :=
  token.kind = .string ∧ token.lexeme = "" ∧
    ∃ front mark, before = front ++ [mark] ∧ mark.kind = .dagger

/-- Only remarks have empty texts. -/
def EmptiesAreRemarks (tokens : List Token) : Prop :=
  ∀ before token after, tokens = before ++ token :: after → token.lexeme = "" →
    EmptyRemark before token

theorem EmptyRemark.cons {before : List Token} {token : Token} (first : Token)
    (remark : EmptyRemark before token) : EmptyRemark (first :: before) token := by
  obtain ⟨kind, empty, front, mark, rfl, dagger⟩ := remark
  exact ⟨kind, empty, first :: front, mark, rfl, dagger⟩

theorem EmptiesAreRemarks.cons {first : Token} {tokens : List Token} (some : first.lexeme ≠ "")
    (empties : EmptiesAreRemarks tokens) : EmptiesAreRemarks (first :: tokens) := by
  intro before token after all empty
  rcases List.cons_eq_append_iff.mp all with ⟨rfl, same⟩ | ⟨before, rfl, rest⟩
  · cases same
    exact absurd empty some
  · exact (empties before token after rest empty).cons first

/-- Only the text of a remark can be empty, and it stands behind a dagger. -/
theorem Written.emptiesAreRemarks {signs : List Token} {text : List Char}
    (written : Written signs text) : EmptiesAreRemarks signs := by
  induction written with
  | nil =>
    intro before token after all
    exact absurd all.symm (List.append_ne_nil_of_right_ne_nil _ (List.cons_ne_nil _ _))
  | gap _ _ ih => exact ih
  | mark _ _ ih => exact ih.cons (ofList_ne_empty (List.cons_ne_nil _ _))
  | lineEnd _ ih => exact ih.cons (ofList_ne_empty (List.cons_ne_nil _ _))
  | word word _ _ ih => exact ih.cons (ofList_ne_empty word.ne_nil)
  | quotation _ _ ih => exact ih.cons (ofList_ne_empty (List.cons_ne_nil _ _))
  | remark _ _ _ ih =>
    -- the text of the remark is the one token that may be empty; its mark stands before it
    intro before token after all empty
    rcases List.cons_eq_append_iff.mp all with ⟨rfl, same⟩ | ⟨before, rfl, rest⟩
    · cases same
      exact absurd empty (ofList_ne_empty (List.cons_ne_nil _ _))
    rcases List.cons_eq_append_iff.mp rest with ⟨rfl, same⟩ | ⟨before, rfl, rest⟩
    · cases same
      exact ⟨rfl, empty, [], daggerSign, rfl, rfl⟩
    · exact ((ih before token after (List.cons.inj rest).2 empty).cons _).cons _

theorem EmptiesAreRemarks.of_erased {tokens : List Token}
    (empties : EmptiesAreRemarks (tokens.map Token.erased)) : EmptiesAreRemarks tokens := by
  rintro before token after rfl empty
  rw [List.map_append, List.map_cons] at empties
  obtain ⟨kind, _, front, mark, all, dagger⟩ := empties _ _ _ rfl empty
  obtain ⟨front, marks, rfl, _, single⟩ := List.map_eq_append_iff.mp all
  obtain ⟨mark, rfl, rfl⟩ := List.map_eq_singleton_iff.mp single
  exact ⟨kind, empty, front, mark, rfl, dagger⟩

/-! ## Tiles -/

/-- The tokens tile the text, each of them at its true place. -/
structure Tiles (text : List Char) (tokens : List Token) : Prop where
  /-- Index, line and column of every point agree. -/
  points : ∀ token ∈ tokens, TruePoint text token.span.start ∧ TruePoint text token.span.stop
  /-- Each token is the piece of the text that its span cuts out. -/
  lexemes : ∀ token ∈ tokens, token.span.start.index ≤ token.span.stop.index ∧
    token.lexeme.toList = slice text token.span.start.index.toNat token.span.stop.index.toNat
  /-- The spans are in order and do not overlap. -/
  ordered : tokens.Pairwise fun earlier later =>
    earlier.span.stop.index ≤ later.span.start.index
  /-- What no token covers is blank. -/
  blanks : ∀ (index : Nat) (inside : index < text.length),
    (∀ token ∈ tokens, ¬ (token.span.start.index ≤ index ∧ (index : Int) < token.span.stop.index)) →
    text[index] = ' ' ∨ text[index] = '\t' ∨ text[index] = '\r'
  /-- The last token, and no other, is the end of the text. -/
  ends : ∃ body final, tokens = body ++ [final] ∧ (∀ token ∈ body, token.kind ≠ .textEnd) ∧
    final.kind = .textEnd ∧ final.span.start.index = (text.length : Int) ∧
    final.span.stop = final.span.start
  /-- Each token begins behind the beginning of the one before it, except behind a remark that
  says nothing: there it begins at the same point. -/
  starts : ∀ before first second after, tokens = before ++ first :: second :: after →
    (EmptyRemark before first → second.span.start = first.span.start) ∧
    (¬ EmptyRemark before first → first.span.start.index < second.span.start.index)

theorem lexeme_of_scan_last {file : String} {text : List Char} {body : List Token} {final : Token}
    (scanned : scan file text = .ok (body ++ [final]))
    (written : Written (body.map Token.erased) text) : final.lexeme = "" := by
  obtain ⟨tokens, again, places⟩ := scan_of_written file written
  rw [scanned] at again
  cases again
  rw [List.map_append] at places
  have last : [final.erased] = [endSign] := List.append_inj_right' places rfl
  exact congrArg Token.lexeme (List.cons.inj last).1

/-- The tokens of every text that can be scanned tile it. -/
theorem scan_tiles {file : String} {text : List Char} {tokens : List Token}
    (scanned : scan file text = .ok tokens) : Tiles text tokens := by
  have laid : Laid tokens.reverse text := .of_scan scanned
  have mem {token : Token} (mem : token ∈ tokens) : token ∈ tokens.reverse :=
    List.mem_reverse.mpr mem
  have points := scan_points scanned
  obtain ⟨body, final, rfl, last, written⟩ := exists_of_scan scanned
  refine ⟨?_, ?_, ?_, ?_, ?_, ?_⟩
  · intro token here
    obtain ⟨start, stop⟩ := points token here
    exact ⟨.of_pointOf start, .of_pointOf stop⟩
  · exact fun token here => ⟨laid.start_le_stop (mem here), laid.lexeme_eq_slice (mem here)⟩
  · exact List.pairwise_reverse.mp laid.pairwise
  · intro index inside uncovered
    rcases laid.covers index inside with ⟨token, here, covered⟩ | gap
    · exact absurd covered (uncovered token (List.mem_reverse.mp here))
    · simpa [isGap, or_assoc] using gap
  · have apart : ∀ token ∈ body, token.kind ≠ .textEnd := fun token here =>
      written.kind_ne_textEnd token.erased (List.mem_map_of_mem here)
    refine ⟨body, final, rfl, apart, last, ?_⟩
    have empty : final.lexeme = "" := lexeme_of_scan_last scanned written
    rw [List.reverse_append] at laid
    obtain ⟨before, gaps, rfl, _, start, stop, tight⟩ := laid.of_cons
    rw [tight empty, start, stop, empty, Position.index_afterAll]
    simp [Position.origin]
  · intro before first second after all
    have beside : Laid (after.reverse ++ second :: first :: before.reverse) text := by
      rw [all] at laid
      simpa using laid
    obtain ⟨apart, together⟩ := beside.adjacent
    refine ⟨fun remark => together remark.2.1, fun other => ?_⟩
    -- a token follows the first one, so it is not the end of the text
    have inBody : body = before ++ first :: (second :: after).dropLast := by
      simpa using congrArg List.dropLast all
    have some : first.lexeme ≠ "" := fun empty =>
      other (written.emptiesAreRemarks.of_erased before first _ inBody empty)
    have long := beside.start_lt_stop (List.mem_append_right _ (.tail _ List.mem_cons_self)) some
    omega

/-- A text with a quotation of two lines, an empty remark before a line end and a remark at the end.
-/
theorem scan_tiles_remarks :
    ∃ tokens, scan "page" "be “x\ny”†\n† z".toList = .ok tokens ∧
      tokens.map Token.kind =
        [.beWord, .string, .dagger, .string, .lineEnd, .dagger, .string, .textEnd] ∧
      Tiles "be “x\ny”†\n† z".toList tokens := by
  have kinds : (scan "page" "be “x\ny”†\n† z".toList).toOption.map (List.map Token.kind) =
      some [.beWord, .string, .dagger, .string, .lineEnd, .dagger, .string, .textEnd] := by
    decide +kernel
  cases scanned : scan "page" "be “x\ny”†\n† z".toList with
  | error fault =>
    rw [scanned] at kinds
    cases kinds
  | ok tokens =>
    rw [scanned] at kinds
    exact ⟨tokens, rfl, Option.some.inj kinds, scan_tiles scanned⟩

end Marginalia
