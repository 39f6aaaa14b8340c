import Marginalia.Proofs.Scanning.Cuts
import Marginalia.Proofs.Scanning.Positions

/-!
# Where the scanner stops

Whether a character stops the scanner depends on all that stands before it: in a quoted text and
in a remark every character is welcome. `BreaksAt file text index` says, without looking into the
scanner, that nothing is open at an index: the text up to there can be scanned by itself, and its
last token is not the text of a remark. The scanner stops exactly at such a point, if the character
behind it begins nothing or is a quotation mark that is never closed (`scan_stops`).

Where it does not stop, the tokens are as long as they can be: a word has no letter on either side,
a quoted text ends at its first closing mark, and a remark takes the rest of its line (`Lexed`).
-/

namespace Marginalia

/-- The tokens end in the text of a remark. -/
def EndInRemark (tokens : List Token) : Prop :=
  ∃ front mark text, tokens = front ++ [mark, text] ∧ mark.kind = .dagger

/-- The text up to an index can be scanned, and does not end in a remark. -/
def BreaksAt (file : String) (text : List Char) (index : Nat) : Prop :=
  ∃ body final, scan file (text.take index) = .ok (body ++ [final]) ∧ ¬ EndInRemark body

/-- The scanner stops with a diagnostic of that code, from one index to another. -/
def StopsWith (file : String) (text : List Char) (code : String) (start stop : Nat) : Prop :=
  ∃ fault diagnostic span, scan file text = .error fault ∧
    fault.diagnostic? = some diagnostic ∧ diagnostic.code = code ∧ diagnostic.span = some span ∧
    span.start.index = start ∧ span.stop.index = stop

/-- The keywords and their kinds. -/
def keywords : List (String × TokenKind) :=
  [("and", .andWord), ("or", .orWord), ("is", .isWord), ("am", .amWord), ("are", .areWord),
   ("not", .notWord), ("true", .trueWord), ("false", .falseWord), ("nothing", .nothingWord),
   ("let", .letWord), ("be", .beWord), ("to", .toWord), ("if", .ifWord), ("else", .elseWord),
   ("while", .whileWord)]

/-- The token is the piece of the text between two others. -/
structure Token.Between (token : Token) (before behind text : List Char) : Prop where
  whole : text = before ++ token.lexeme.toList ++ behind
  start : token.span.start = Position.origin.afterAll before
  stop : token.span.stop = Position.origin.afterAll (before ++ token.lexeme.toList)

/-- The token is a word of letters with no letter on either side, and its kind is that of the
keyword it spells, or a name if it spells none. -/
structure WordIn (text : List Char) (token : Token) : Prop where
  longest : ∃ before behind, token.Between before behind text ∧ IsWord token.lexeme.toList ∧
    (∀ c ∈ before.getLast?, isWordChar c = false) ∧ WordEnds behind
  keyword : token.kind ≠ .name ↔ token.lexeme ∈ keywords.map Prod.fst
  kind : token.kind = (keywords.lookup token.lexeme).getD .name

/-- The token is what it says between two quotation marks, and no closing one is in it. -/
def QuotationIn (text : List Char) (token : Token) : Prop :=
  ∃ before letters behind, token.Between before behind text ∧
    token.lexeme.toList = '“' :: letters ++ ['”'] ∧
    token.literal = some (String.ofList letters) ∧ '”' ∉ letters

/-- The token says just what stands behind the mark on its line. -/
def RemarkIn (text : List Char) (mark token : Token) : Prop :=
  ∃ before behind, token.Between before behind text ∧ token.span.start = mark.span.stop ∧
    token.kind = .string ∧ token.literal = some token.lexeme ∧ '\n' ∉ token.lexeme.toList ∧
    RemarkEnds behind

/-- The words, quoted texts and remarks of a text are as long as they can be. -/
structure Lexed (text : List Char) (tokens : List Token) : Prop where
  words : ∀ token ∈ tokens, token.kind ∈ wordKinds → WordIn text token
  quotations : ∀ front token back, tokens = front ++ token :: back → token.kind = .string →
    Whole front → QuotationIn text token
  remarks : ∀ front mark token back, tokens = front ++ mark :: token :: back →
    mark.kind = .dagger → RemarkIn text mark token

/-! ## Stops -/

section

variable {file : String} {text before behind rest letters : List Char} {c : Char} {index : Nat}

/-- A character that begins nothing is none of those that do. -/
theorem stray_iff :
    Stray c ↔ c ∉ [' ', '\t', '\r', '\n', '—', ':', ',', '.', '&', '#', '“', '†'] ∧
      isWordChar c = false := by
  constructor
  · rintro ⟨gap, mark, line, quote, dagger, letter⟩
    have taken : [' ', '\t', '\r', '\n', '—', ':', ',', '.', '&', '#', '“', '†'].all fun d =>
        isGap d || (TokenKind.ofMark? d).isSome || d == '\n' || d == '“' || d == '†' := by
      decide
    refine ⟨fun mem => ?_, letter⟩
    have wrong := List.all_eq_true.mp taken c mem
    simp [gap, mark, line, quote, dagger] at wrong
  · rintro ⟨apart, letter⟩
    simp only [List.mem_cons, List.not_mem_nil, or_false, not_or] at apart
    obtain ⟨space, tab, back, line, _, _, _, _, _, _, quote, dagger⟩ := apart
    constructor
    case gap => simp [isGap, space, tab, back]
    case mark =>
      unfold TokenKind.ofMark?
      split <;> first | rfl | contradiction
    case lineFeed => exact line
    case quote => exact quote
    case dagger => exact dagger
    case letter => exact letter

namespace Stuck

theorem wordEnds (stuck : Stuck behind) : WordEnds behind := by
  cases stuck with
  | stray stray =>
    rintro c ⟨⟩
    exact stray.letter
  | unfinished _ =>
    rintro c ⟨⟩
    rfl

theorem not_remarkEnds (stuck : Stuck behind) : ¬ RemarkEnds behind := by
  intro ends
  cases stuck with
  | stray stray => exact stray.lineFeed (ends _ rfl)
  | unfinished _ => exact absurd (ends _ rfl) (by decide)

end Stuck

theorem breaksAt_iff :
    BreaksAt file text index ↔
      ∃ body, Stands file [] .origin body (text.take index) ∧ ¬ EndInRemark body := by
  constructor
  · rintro ⟨body, final, scanned, outside⟩
    obtain ⟨others, stands, same⟩ := scan_eq_ok_iff.mp scanned
    obtain ⟨rfl, _⟩ := List.append_inj' same rfl
    exact ⟨body, stands, outside⟩
  · rintro ⟨body, stands, outside⟩
    exact ⟨body, _, scan_of_stands stands, outside⟩

/-- Where nothing can begin, the text breaks exactly if all before it has tokens. -/
theorem breaksAt_iff_of_stuck (stuck : Stuck behind) :
    BreaksAt file (before ++ behind) before.length ↔
      ∃ body, Stands file behind .origin body before := by
  rw [breaksAt_iff, List.take_left]
  constructor
  · rintro ⟨body, stands, outside⟩
    exact ⟨body, stands.before stuck.wordEnds fun front mark last same dagger =>
      outside ⟨front, mark, last, same, dagger⟩⟩
  · rintro ⟨body, stands⟩
    -- A remark at the end would have taken in what is stuck, which does not begin with a line feed.
    refine ⟨body, stands.alone, ?_⟩
    rintro ⟨front, mark, last, same, dagger⟩
    exact stuck.not_remarkEnds (stands.remarkEnds same dagger)

theorem exists_split_of_getElem? (here : text[index]? = some c) :
    ∃ before rest, text = before ++ c :: rest ∧ before.length = index ∧
      rest = text.drop (index + 1) := by
  obtain ⟨inside, rfl⟩ := List.getElem?_eq_some_iff.mp here
  refine ⟨text.take index, text.drop (index + 1), ?_, ?_, rfl⟩
  · rw [← List.drop_eq_getElem_cons inside, List.take_append_drop]
  · rw [List.length_take]
    omega

/-- Every text can be scanned, or breaks before something that cannot begin. -/
theorem scan_cases (file : String) (text : List Char) :
    (∃ tokens, scan file text = .ok tokens) ∨
      ∃ before behind, text = before ++ behind ∧ Stuck behind ∧
        BreaksAt file text before.length := by
  obtain ⟨body, before, behind, rfl, stands, rfl | stuck⟩ := exists_stands file .origin text
  · rw [List.append_nil]
    exact .inl ⟨_, scan_of_stands stands⟩
  · exact .inr ⟨before, behind, rfl, stuck, (breaksAt_iff_of_stuck stuck).mpr ⟨body, stands⟩⟩

theorem stopsWith_iff {cause : ScanCause} {span : Span} {code : String} {start stop : Nat}
    (stopped : scan file text = .error (.scan cause span)) :
    StopsWith file text code start stop ↔
      (cause.diagnostic span).code = code ∧ span.start.index = start ∧ span.stop.index = stop := by
  have place : (cause.diagnostic span).span = some span := by cases cause <;> rfl
  constructor
  · rintro ⟨fault, diagnostic, other, again, told, same, placed, begins, ends⟩
    rw [stopped] at again
    cases again
    cases told
    rw [place] at placed
    cases placed
    exact ⟨same, begins, ends⟩
  · rintro ⟨same, begins, ends⟩
    exact ⟨_, _, span, stopped, rfl, same, place, begins, ends⟩

theorem stopsWith_stray (breaks : BreaksAt file (before ++ c :: rest) before.length)
    (stray : Stray c) {code : String} {start stop : Nat} :
    StopsWith file (before ++ c :: rest) code start stop ↔
      "LEX001" = code ∧ before.length = start ∧ before.length + 1 = stop := by
  obtain ⟨body, stands⟩ := (breaksAt_iff_of_stuck (.stray stray)).mp breaks
  rw [stopsWith_iff (scan_append_stray stands stray), Position.index_origin_afterAll,
    Position.index_origin_afterAll, List.length_append, List.length_singleton]
  simp only [ScanCause.diagnostic, Int.natCast_inj]

theorem stopsWith_unfinished (breaks : BreaksAt file (before ++ '“' :: letters) before.length)
    (unclosed : '”' ∉ letters) {code : String} {start stop : Nat} :
    StopsWith file (before ++ '“' :: letters) code start stop ↔
      "LEX002" = code ∧ before.length = start ∧ (before ++ '“' :: letters).length = stop := by
  obtain ⟨body, stands⟩ := (breaksAt_iff_of_stuck (.unfinished unclosed)).mp breaks
  rw [stopsWith_iff (scan_append_unfinished stands unclosed), Position.index_origin_afterAll,
    Position.index_origin_afterAll]
  simp only [ScanCause.diagnostic, Int.natCast_inj]

theorem stopsWith_iff_stray (file : String) (text : List Char) (index : Nat) :
    StopsWith file text "LEX001" index (index + 1) ↔
      BreaksAt file text index ∧ ∃ c, text[index]? = some c ∧ Stray c := by
  constructor
  · intro stops
    rcases scan_cases file text with ⟨tokens, scanned⟩ | ⟨before, behind, rfl, stuck, breaks⟩
    · obtain ⟨fault, _, _, stopped, _⟩ := stops
      rw [scanned] at stopped
      cases stopped
    · cases stuck with
      | stray stray =>
        obtain ⟨_, rfl, _⟩ := (stopsWith_stray breaks stray).mp stops
        refine ⟨breaks, _, ?_, stray⟩
        simp
      | unfinished unclosed =>
        obtain ⟨other, _⟩ := (stopsWith_unfinished breaks unclosed).mp stops
        exact absurd other (by decide)
  · rintro ⟨breaks, c, here, stray⟩
    obtain ⟨before, rest, rfl, rfl, _⟩ := exists_split_of_getElem? here
    exact (stopsWith_stray breaks stray).mpr ⟨rfl, rfl, rfl⟩

/-- A scan stops at an unfinished quotation exactly where one opens between tokens and is not closed
in the rest of the text. -/
theorem stopsWith_iff_unfinished (file : String) (text : List Char) (index : Nat) :
    StopsWith file text "LEX002" index text.length ↔
      BreaksAt file text index ∧ text[index]? = some '“' ∧ '”' ∉ text.drop (index + 1) := by
  constructor
  · intro stops
    rcases scan_cases file text with ⟨tokens, scanned⟩ | ⟨before, behind, rfl, stuck, breaks⟩
    · obtain ⟨fault, _, _, stopped, _⟩ := stops
      rw [scanned] at stopped
      cases stopped
    · cases stuck with
      | stray stray =>
        obtain ⟨other, _⟩ := (stopsWith_stray breaks stray).mp stops
        exact absurd other (by decide)
      | unfinished unclosed =>
        obtain ⟨_, rfl, _⟩ := (stopsWith_unfinished breaks unclosed).mp stops
        refine ⟨breaks, ?_, ?_⟩
        · simp
        · simpa using unclosed
  · rintro ⟨breaks, here, unclosed⟩
    obtain ⟨before, rest, whole, rfl, rest_eq⟩ := exists_split_of_getElem? here
    rw [← rest_eq] at unclosed
    subst whole
    exact (stopsWith_unfinished breaks unclosed).mpr ⟨rfl, rfl, rfl⟩

end

/-! ## Tokens -/

section

variable {file : String} {text before taken rest : List Char} {front back body : List Token}
  {token final : Token}

theorem between_placed {sign : Token} (whole : text = before ++ sign.lexeme.toList ++ rest) :
    (sign.placed file (Position.origin.afterAll before)).Between before rest text where
  whole := whole
  start := rfl
  stop := (Position.afterAll_append _ _ _).symm

theorem ofWord_eq_lookup (word : String) :
    TokenKind.ofWord word = (keywords.lookup word).getD .name := by
  unfold TokenKind.ofWord
  split
  case h_16 =>
    have none : keywords.lookup word = none := by
      simp_all [keywords, List.lookup_eq_none_iff]
    rw [none]
    rfl
  all_goals decide

theorem ofWord_ne_name_iff (word : String) :
    TokenKind.ofWord word ≠ .name ↔ word ∈ keywords.map Prod.fst := by
  rw [ofWord_eq_lookup]
  constructor
  · intro keyword
    cases found : keywords.lookup word with
    | none =>
      rw [found] at keyword
      exact absurd rfl keyword
    | some kind =>
      obtain ⟨front, back, same, _⟩ := List.lookup_eq_some_iff.mp found
      rw [same]
      simp
  · have apart : ∀ word ∈ keywords.map Prod.fst, (keywords.lookup word).getD .name ≠ .name := by
      decide
    exact apart word

/-- A token of a text that belongs to no remark stands by itself, and no word goes on into it or
out of it. -/
theorem Stands.exists_lexeme (stands : Stands file [] .origin body text)
    (split : body = front ++ token :: back) (whole : Whole front) (other : token.kind ≠ .dagger) :
    ∃ sign before rest, Lexeme sign ∧ token = sign.placed file (Position.origin.afterAll before) ∧
      text = before ++ sign.lexeme.toList ++ rest ∧
      (∀ c ∈ before.getLast?, isWordChar c = true → WordEnds (sign.lexeme.toList ++ rest)) ∧
      (∀ c ∈ sign.lexeme.toList.getLast?, isWordChar c = true → WordEnds rest) := by
  obtain ⟨before, gaps, behind, rfl, cut⟩ := stands.exists_cut split whole
  obtain ⟨signs, others, taken, rest, same, rfl, segment, _⟩ :=
    cut.right.exists_segment cut.solid (List.cons_ne_nil _ _)
  rcases segment.single_or_remark with ⟨sign, lexeme, rfl, rfl⟩ | ⟨letters, _, _, rfl, rfl⟩
  · rw [placedFrom_single] at same
    obtain ⟨rfl, _⟩ := List.cons.inj same
    refine ⟨sign, before ++ gaps, rest, lexeme, rfl, ?_, ?_, ?_⟩
    · simp only [List.append_assoc]
    · intro c last letter
      exact (cut.wordEnds last letter).of_append
    · intro c last letter
      exact (segment.wordEnds last letter).of_append
  · rw [placedFrom_remark] at same
    obtain ⟨rfl, _⟩ := List.cons.inj same
    exact absurd rfl other

theorem IsWord.not_wordEnds {letters : List Char} (word : IsWord letters) (rest : List Char) :
    ¬ WordEnds (letters ++ rest) := by
  intro ends
  cases letters with
  | nil => exact word.ne_nil rfl
  | cons c letters =>
    have wrong := ends c rfl
    rw [word.all c List.mem_cons_self] at wrong
    cases wrong

/-- Names and keywords are the longest runs of letters in the text where they stand. -/
theorem Stands.wordIn (stands : Stands file [] .origin body text) (mem : token ∈ body)
    (kind : token.kind ∈ wordKinds) : WordIn text token := by
  have apart : ∀ kind ∈ wordKinds, kind ≠ .string ∧ kind ≠ .dagger := by decide
  obtain ⟨front, back, split⟩ := List.append_of_mem mem
  have whole := stands.whole_of_kind split (apart _ kind).1
  obtain ⟨sign, before, rest, lexeme, rfl, same, left, right⟩ :=
    stands.exists_lexeme split whole (apart _ kind).2
  obtain ⟨letters, word, rfl⟩ := lexeme.eq_of_word kind
  have spelled : (wordSign letters).lexeme.toList = letters := String.toList_ofList
  rw [spelled] at left right
  constructor
  case longest =>
    refine ⟨before, rest, between_placed same, ?_, ?_, ?_⟩
    · change IsWord (wordSign letters).lexeme.toList
      rwa [spelled]
    · intro c last
      cases letter : isWordChar c with
      | false => rfl
      | true => exact absurd (left c last letter) (word.not_wordEnds rest)
    · have last := List.getLast?_eq_some_getLast word.ne_nil
      exact right _ last (word.all _ (List.mem_of_getLast? last))
  case keyword => exact ofWord_ne_name_iff (String.ofList letters)
  case kind => exact ofWord_eq_lookup (String.ofList letters)

theorem Stands.quotationIn (stands : Stands file [] .origin body text)
    (split : body = front ++ token :: back) (kind : token.kind = .string) (whole : Whole front) :
    QuotationIn text token := by
  have other : token.kind ≠ .dagger := by
    rw [kind]
    decide
  obtain ⟨sign, before, rest, lexeme, rfl, same, _⟩ := stands.exists_lexeme split whole other
  obtain ⟨letters, unclosed, rfl⟩ := lexeme.eq_of_string kind
  exact ⟨before, letters, rest, between_placed same, String.toList_ofList, rfl, unclosed⟩

theorem Stands.remarkIn {mark : Token} (stands : Stands file [] .origin body text)
    (split : body = front ++ mark :: token :: back) (dagger : mark.kind = .dagger) :
    RemarkIn text mark token := by
  obtain ⟨before, letters, rest, others, rfl, remark⟩ := stands.exists_remark split dagger
  obtain ⟨rfl, rfl⟩ := List.cons.inj remark.back
  have spelled : (remarkSign letters).lexeme.toList = letters := String.toList_ofList
  refine ⟨before ++ ['†'], rest, between_placed ?_, ?_, rfl, rfl, ?_, remark.ends.of_append⟩
  · rw [spelled]
    simp
  · rw [remark.mark]
    simp [Token.placed, daggerSign, sign, Position.afterAll_append]
  · change '\n' ∉ (remarkSign letters).lexeme.toList
    rw [spelled]
    exact remark.unclosed

/-- A token that is not the last one stands before the last one. -/
theorem exists_of_concat_eq (split : body ++ [final] = front ++ token :: back)
    (other : token.kind ≠ final.kind) :
    ∃ middle, body = front ++ token :: middle ∧ back = middle ++ [final] := by
  rcases List.eq_nil_or_concat back with rfl | ⟨middle, last, rfl⟩
  · obtain ⟨_, same⟩ := List.append_inj' split rfl
    exact absurd (congrArg Token.kind (List.cons.inj same).1).symm other
  · rw [List.concat_eq_append] at split ⊢
    have whole : body ++ [final] = (front ++ token :: middle) ++ [last] := by
      simpa only [List.append_assoc, List.cons_append] using split
    obtain ⟨rfl, same⟩ := List.append_inj' whole rfl
    cases same
    exact ⟨middle, rfl, rfl⟩

/-- Each token of a text that is scanned is the lexeme of its kind at its place. -/
theorem lexed_of_scan {tokens : List Token} (scanned : scan file text = .ok tokens) :
    Lexed text tokens := by
  obtain ⟨body, stands, rfl⟩ := scan_eq_ok_iff.mp scanned
  constructor
  case words =>
    intro token mem kind
    rcases List.mem_append.mp mem with mem | mem
    · exact stands.wordIn mem kind
    · obtain rfl := List.mem_singleton.mp mem
      exact absurd (show TokenKind.textEnd ∈ wordKinds from kind) (by decide)
  case quotations =>
    intro front token back split kind whole
    have other : token.kind ≠ .textEnd := by
      rw [kind]
      decide
    obtain ⟨middle, same, _⟩ := exists_of_concat_eq split other
    exact stands.quotationIn same kind whole
  case remarks =>
    intro front mark token back split dagger
    have other : mark.kind ≠ .textEnd := by
      rw [dagger]
      decide
    obtain ⟨middle, same, others⟩ := exists_of_concat_eq split other
    cases middle with
    | nil =>
      obtain ⟨_, _, _, _, _, remark⟩ := stands.exists_remark same dagger
      cases remark.back
    | cons next middle =>
      obtain ⟨rfl, _⟩ := List.cons.inj others
      exact stands.remarkIn same dagger

end

/-- The scanner finds all tokens of a text or stops with one diagnostic. It stops at a character
exactly if nothing is open there and the character begins nothing, or begins a quoted text that is
never closed. If it does not stop, words, quoted texts and remarks are as long as they can be. -/
theorem scan_stops (file : String) (text : List Char) :
    ((∃ tokens, scan file text = .ok tokens) ∨
      (∃ index, StopsWith file text "LEX001" index (index + 1)) ∨
      ∃ index, StopsWith file text "LEX002" index text.length) ∧
    (∀ index, StopsWith file text "LEX001" index (index + 1) ↔
      BreaksAt file text index ∧ ∃ c, text[index]? = some c ∧
        c ∉ [' ', '\t', '\r', '\n', '—', ':', ',', '.', '&', '#', '“', '†'] ∧
        isWordChar c = false) ∧
    (∀ index, StopsWith file text "LEX002" index text.length ↔
      BreaksAt file text index ∧ text[index]? = some '“' ∧ '”' ∉ text.drop (index + 1)) ∧
    ∀ tokens, scan file text = .ok tokens → Lexed text tokens := by
  refine ⟨?_, ?_, stopsWith_iff_unfinished file text, fun tokens => lexed_of_scan⟩
  · rcases scan_cases file text with scanned | ⟨before, behind, rfl, stuck, breaks⟩
    · exact .inl scanned
    · cases stuck with
      | stray stray => exact .inr (.inl ⟨_, (stopsWith_stray breaks stray).mpr ⟨rfl, rfl, rfl⟩⟩)
      | unfinished unclosed =>
        exact .inr (.inr ⟨_, (stopsWith_unfinished breaks unclosed).mpr ⟨rfl, rfl, rfl⟩⟩)
  · intro index
    rw [stopsWith_iff_stray]
    simp only [stray_iff]

/-- The same character in a quoted text, in a remark, and where nothing is open. -/
theorem scan_stops_behind_remark :
    StopsWith "" "“ß” † ß\n# ß".toList "LEX001" 10 11 ∧
      ∃ tokens, scan "" "“ß” † ß\n# ".toList = .ok tokens ∧
        tokens.map Token.kind = [.string, .dagger, .string, .lineEnd, .pound, .textEnd] ∧
        Lexed "“ß” † ß\n# ".toList tokens := by
  have kinds : (scan "" "“ß” † ß\n# ".toList).toOption.map (List.map Token.kind) =
      some [.string, .dagger, .string, .lineEnd, .pound, .textEnd] := by
    decide +kernel
  cases scanned : scan "" "“ß” † ß\n# ".toList with
  | error fault =>
    rw [scanned] at kinds
    cases kinds
  | ok tokens =>
    rw [scanned] at kinds
    replace kinds := Option.some.inj kinds
    refine ⟨?_, tokens, rfl, kinds, (scan_stops "" _).2.2.2 tokens scanned⟩
    apply ((scan_stops "" "“ß” † ß\n# ß".toList).2.1 10).mpr
    refine ⟨?_, 'ß', by decide, by decide⟩
    obtain ⟨body, stands, rfl⟩ := scan_eq_ok_iff.mp scanned
    refine ⟨body, _, scanned, ?_⟩
    rintro ⟨front, mark, last, rfl, dagger⟩
    simp only [List.map_append, List.map_cons, List.map_nil, dagger] at kinds
    have second := congrArg (fun list => list.dropLast.dropLast.getLast?) kinds
    simp at second

end Marginalia
