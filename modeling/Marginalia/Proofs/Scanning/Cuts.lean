import Marginalia.Proofs.Scanning.Written

/-!
# Cutting a text between two tokens

A text can be cut between any two of its tokens, unless they are the mark and the text of one
remark (`Whole`). On either side of the cut stands a text of its own, with the same tokens at the
same places: what ends a word or a remark there is still what follows it (`Stands.exists_cut`).

In the other direction, a text that can be scanned goes on with another text unless the end of the
first runs into the beginning of the second: a remark takes in whatever follows on its line, and a
word takes in letters (`Stands.before`).
-/

namespace Marginalia

variable {file : String} {here : Position} {behind text : List Char}
  {front back signs tokens : List Token} {token : Token}

/-- The tokens do not end between the mark of a remark and its text. -/
def Whole (tokens : List Token) : Prop :=
  ∀ last ∈ tokens.getLast?, last.kind ≠ .dagger

theorem Whole.nil : Whole [] := by
  rintro last ⟨⟩

theorem Whole.of_append (whole : Whole (front ++ back)) : Whole back := by
  intro last mem
  apply whole last
  rw [List.getLast?_append, Option.mem_def.mp mem]
  rfl

theorem Whole.append (left : Whole front) (right : Whole back) : Whole (front ++ back) := by
  intro last mem
  rw [List.getLast?_append, Option.mem_def, Option.or_eq_some_iff] at mem
  rcases mem with mem | ⟨_, mem⟩
  · exact right last mem
  · exact left last mem

theorem Whole.of_last (front : List Token) (other : token.kind ≠ .dagger) :
    Whole (front ++ [token]) := by
  intro last mem
  rw [List.getLast?_concat, Option.mem_some_iff] at mem
  exact mem ▸ other

/-! ## Segments -/

theorem placedFrom_single (file : String) (here : Position) (token : Token) :
    placedFrom file here [token] = [token.placed file here] := rfl

theorem placedFrom_remark (file : String) (here : Position) (letters : List Char) :
    placedFrom file here [daggerSign, remarkSign letters] =
      [daggerSign.placed file here, (remarkSign letters).placed file (here.after '†')] := by
  simp [placedFrom, daggerSign, sign, Position.afterAll]

namespace Segment

/-- A segment is one token that stands by itself, or a remark. -/
theorem single_or_remark (segment : Segment signs text behind) :
    (∃ token, Lexeme token ∧ signs = [token] ∧ token.lexeme.toList = text) ∨
      ∃ letters, '\n' ∉ letters ∧ RemarkEnds behind ∧
        signs = [daggerSign, remarkSign letters] ∧ text = '†' :: letters := by
  cases segment with
  | mark mark => exact .inl ⟨_, .mark mark, rfl, String.toList_ofList⟩
  | lineEnd => exact .inl ⟨_, .lineEnd, rfl, String.toList_ofList⟩
  | word word ends => exact .inl ⟨_, .word word, rfl, String.toList_ofList⟩
  | quotation unclosed => exact .inl ⟨_, .quotation unclosed, rfl, String.toList_ofList⟩
  | remark unclosed ends => exact .inr ⟨_, unclosed, ends, rfl, rfl⟩

/-- A segment begins with no gap. -/
theorem isGap_head (segment : Segment signs text behind) :
    ∀ c ∈ text.head?, isGap c = false := by
  cases segment with
  | mark mark =>
    rintro c ⟨⟩
    exact isGap_of_ofMark? mark
  | word word _ =>
    intro c head
    exact isGap_of_isWordChar (word.all c (List.mem_of_mem_head? head))
  | _ =>
    rintro c ⟨⟩
    rfl

/-- What follows a segment may end sooner. -/
theorem of_append {more : List Char} (segment : Segment signs text (behind ++ more)) :
    Segment signs text behind := by
  cases segment with
  | mark mark => exact .mark mark
  | lineEnd => exact .lineEnd
  | word word ends => exact .word word ends.of_append
  | quotation unclosed => exact .quotation unclosed
  | remark unclosed ends => exact .remark unclosed ends.of_append

/-- What follows a segment may go on, if there is something. -/
theorem append (segment : Segment signs text behind) (some : behind ≠ []) (more : List Char) :
    Segment signs text (behind ++ more) := by
  cases segment with
  | mark mark => exact .mark mark
  | lineEnd => exact .lineEnd
  | word word ends => exact .word word (ends.append some more)
  | quotation unclosed => exact .quotation unclosed
  | remark unclosed ends => exact .remark unclosed (ends.append some more)

/-- No word goes on behind a segment that ends in a letter. -/
theorem wordEnds (segment : Segment signs text behind) {c : Char} (last : text.getLast? = some c)
    (letter : isWordChar c = true) : WordEnds behind := by
  cases segment with
  | mark mark =>
    rw [List.getLast?_singleton] at last
    cases last
    rw [isWordChar_of_ofMark? mark] at letter
    cases letter
  | lineEnd =>
    obtain rfl : '\n' = c := Option.some.inj last
    cases letter
  | word _ ends => exact ends
  | quotation _ =>
    rw [List.getLast?_concat] at last
    obtain rfl : '”' = c := Option.some.inj last
    cases letter
  | remark _ ends =>
    intro d head
    rw [ends d head]
    rfl

/-- A segment is cut nowhere but between the mark and the text of a remark. -/
theorem unsplit (segment : Segment signs text behind)
    (split : placedFrom file here signs = front ++ back) (whole : Whole front) :
    front = [] ∨ back = [] := by
  rcases segment.single_or_remark with ⟨token, _, rfl, _⟩ | ⟨letters, _, _, rfl, _⟩
  · rw [placedFrom_single] at split
    rcases List.append_eq_singleton_iff.mp split.symm with ⟨none, _⟩ | ⟨_, none⟩
    · exact .inl none
    · exact .inr none
  · rw [placedFrom_remark] at split
    rcases List.cons_eq_append_iff.mp split with ⟨none, _⟩ | ⟨more, rfl, others⟩
    · exact .inl none
    rcases List.append_eq_singleton_iff.mp others.symm with ⟨rfl, _⟩ | ⟨_, none⟩
    · exact absurd rfl (whole _ rfl)
    · exact .inr none

/-- The first token of a segment begins where the segment does. -/
theorem exists_first (segment : Segment signs text behind) (file : String) (here : Position) :
    ∃ first later, placedFrom file here signs = first :: later ∧ first.span.start = here := by
  rcases segment.single_or_remark with ⟨token, _, rfl, _⟩ | ⟨letters, _, _, rfl, _⟩
  · exact ⟨_, _, placedFrom_single file here token, rfl⟩
  · exact ⟨_, _, placedFrom_remark file here letters, rfl⟩

/-- The last token of a segment stops where the segment does. -/
theorem exists_last (segment : Segment signs text behind) (file : String) (here : Position) :
    ∃ last, (placedFrom file here signs).getLast? = some last ∧
      last.span.stop = here.afterAll text := by
  rcases segment.single_or_remark with ⟨token, _, rfl, rfl⟩ | ⟨letters, _, _, rfl, rfl⟩
  · rw [placedFrom_single, List.getLast?_singleton]
    exact ⟨_, rfl, rfl⟩
  · rw [placedFrom_remark, List.getLast?_cons_cons, List.getLast?_singleton]
    refine ⟨_, rfl, ?_⟩
    simp [Token.placed, remarkSign, sign, Position.afterAll]

end Segment

/-! ## Cuts -/

/-- The text is cut between the tokens in front and those at the back: it is `before`, some gaps
and `rest`, and there is no gap at the end of `before` or at the beginning of `rest`. -/
structure CutAt (file : String) (behind : List Char) (here : Position) (front back : List Token)
    (before gaps rest : List Char) : Prop where
  blank : ∀ c ∈ gaps, isGap c = true
  left : Stands file (gaps ++ rest ++ behind) here front before
  right : Stands file behind (here.afterAll (before ++ gaps)) back rest
  none : front = [] → before = []
  stop : ∀ last ∈ front.getLast?, last.span.stop = here.afterAll before
  solid : ∀ c ∈ rest.head?, isGap c = false

namespace CutAt

variable {before gaps rest : List Char}

theorem nil (file : String) (behind : List Char) (here : Position) :
    CutAt file behind here [] [] [] [] [] where
  blank := List.forall_mem_nil _
  left := .nil
  right := .nil
  none _ := rfl
  stop := by rintro last ⟨⟩
  solid := by rintro c ⟨⟩

/-- A text that begins with a segment is cut before it. -/
theorem first {taken others : List Char} (segment : Segment signs taken (others ++ behind))
    (stands : Stands file behind (here.afterAll taken) tokens others) :
    CutAt file behind here [] (placedFrom file here signs ++ tokens) [] [] (taken ++ others) where
  blank := List.forall_mem_nil _
  left := .nil
  right := .segment segment stands
  none _ := rfl
  stop := by rintro last ⟨⟩
  solid := forall_head_append segment.isGap_head segment.ne_nil others

/-- A gap before the first token stands in the cut, and any other one before it. -/
theorem gap {c : Char} (isGap : isGap c = true)
    (cut : CutAt file behind (here.after c) front back before gaps rest) :
    ∃ before' gaps', c :: (before ++ gaps ++ rest) = before' ++ gaps' ++ rest ∧
      CutAt file behind here front back before' gaps' rest := by
  cases front with
  | nil =>
    obtain rfl : before = [] := cut.none rfl
    refine ⟨[], c :: gaps, rfl, ?_⟩
    exact
      { blank := List.forall_mem_cons.mpr ⟨isGap, cut.blank⟩
        left := .nil
        right := cut.right
        none := fun _ => rfl
        stop := by rintro last ⟨⟩
        solid := cut.solid }
  | cons first front =>
    refine ⟨c :: before, gaps, rfl, ?_⟩
    exact
      { blank := cut.blank
        left := .gap isGap cut.left
        right := cut.right
        none := nofun
        stop := cut.stop
        solid := cut.solid }

/-- A segment whose tokens are all in front stands before the cut. -/
theorem segment {taken : List Char}
    (segment : Segment signs taken (before ++ gaps ++ rest ++ behind))
    (cut : CutAt file behind (here.afterAll taken) front back before gaps rest) :
    CutAt file behind here (placedFrom file here signs ++ front) back (taken ++ before) gaps
      rest := by
  obtain ⟨last, ends, stop⟩ := segment.exists_last file here
  constructor
  case blank => exact cut.blank
  case left =>
    apply Stands.segment _ cut.left
    simpa only [List.append_assoc] using segment
  case right =>
    have right := cut.right
    rwa [← Position.afterAll_append, ← List.append_assoc] at right
  case none =>
    intro empty
    rw [(List.append_eq_nil_iff.mp empty).1] at ends
    cases ends
  case stop =>
    intro other mem
    cases front with
    | nil =>
      obtain rfl : before = [] := cut.none rfl
      rw [List.append_nil, ends] at mem
      obtain rfl : last = other := Option.some.inj mem
      rw [List.append_nil, stop]
    | cons first front =>
      rw [List.getLast?_append, List.getLast?_cons] at mem
      rw [Position.afterAll_append]
      apply cut.stop other
      rw [List.getLast?_cons]
      exact mem
  case solid => exact cut.solid

end CutAt

/-- A remark stands in the text at its mark, with the other tokens at the back: the token behind
the mark is the text of the remark, which stands right behind it and goes up to the end of the
line. -/
structure RemarkAt (file : String) (behind : List Char) (here : Position) (mark : Token)
    (back others : List Token) (before letters rest : List Char) : Prop where
  unclosed : '\n' ∉ letters
  ends : RemarkEnds (rest ++ behind)
  mark : mark = daggerSign.placed file (here.afterAll before)
  back : back = (remarkSign letters).placed file (here.afterAll (before ++ ['†'])) :: others
  others : Stands file behind (here.afterAll (before ++ '†' :: letters)) others rest

theorem RemarkAt.further {mark : Token} {others : List Token} {before letters rest : List Char}
    (taken : List Char)
    (remark : RemarkAt file behind (here.afterAll taken) mark back others before letters rest) :
    RemarkAt file behind here mark back others (taken ++ before) letters rest := by
  constructor
  case unclosed => exact remark.unclosed
  case ends => exact remark.ends
  case mark => rw [Position.afterAll_append, remark.mark]
  case back => rw [List.append_assoc, Position.afterAll_append, remark.back]
  case others =>
    rw [List.append_assoc, Position.afterAll_append]
    exact remark.others

namespace Stands

/-- A text is cut between any two tokens but the mark and the text of a remark. -/
theorem exists_cut (stands : Stands file behind here tokens text) (split : tokens = front ++ back)
    (whole : Whole front) :
    ∃ before gaps rest, text = before ++ gaps ++ rest ∧
      CutAt file behind here front back before gaps rest := by
  induction stands generalizing front with
  | nil =>
    obtain ⟨rfl, rfl⟩ := List.append_eq_nil_iff.mp split.symm
    exact ⟨[], [], [], rfl, .nil file behind _⟩
  | gap isGap _ ih =>
    obtain ⟨before, gaps, rest, rfl, cut⟩ := ih split whole
    obtain ⟨before', gaps', same, cut'⟩ := cut.gap isGap
    exact ⟨before', gaps', rest, same, cut'⟩
  | @segment here signs tokens taken others segment stands ih =>
    have behindIt {more : List Token} (split : tokens = more ++ back) (whole : Whole more) :
        ∃ before gaps rest, taken ++ others = before ++ gaps ++ rest ∧
          CutAt file behind here (placedFrom file here signs ++ more) back before gaps rest := by
      obtain ⟨before, gaps, rest, rfl, cut⟩ := ih split whole
      refine ⟨taken ++ before, gaps, rest, ?_, cut.segment segment⟩
      simp only [List.append_assoc]
    -- The cut is among the later tokens, or it is right before or right behind this segment.
    rcases List.append_eq_append_iff.mp split with ⟨more, rfl, rfl⟩ | ⟨more, placed, rfl⟩
    · exact behindIt rfl whole.of_append
    · rcases segment.unsplit placed whole with rfl | rfl
      · rw [List.nil_append] at placed
        subst placed
        exact ⟨[], [], taken ++ others, rfl, .first segment stands⟩
      · rw [List.append_nil] at placed
        subst placed
        have cut := behindIt (List.nil_append tokens).symm .nil
        rwa [List.append_nil] at cut

/-- A text that begins with no gap begins with a segment, which its first tokens are. -/
theorem exists_segment (stands : Stands file behind here tokens text)
    (solid : ∀ c ∈ text.head?, isGap c = false) (some : tokens ≠ []) :
    ∃ signs others taken rest, tokens = placedFrom file here signs ++ others ∧
      text = taken ++ rest ∧ Segment signs taken (rest ++ behind) ∧
      Stands file behind (here.afterAll taken) others rest := by
  cases stands with
  | nil => exact absurd rfl some
  | gap gap _ =>
    rw [solid _ rfl] at gap
    cases gap
  | segment segment stands => exact ⟨_, _, _, _, rfl, rfl, segment, stands⟩

/-- A text without tokens is blank. -/
theorem blank (stands : Stands file behind here tokens text) (none : tokens = []) :
    ∀ c ∈ text, isGap c = true := by
  induction stands with
  | nil => exact List.forall_mem_nil _
  | gap gap _ ih => exact List.forall_mem_cons.mpr ⟨gap, ih none⟩
  | segment segment _ _ =>
    obtain ⟨last, ends, _⟩ := segment.exists_last file _
    rw [(List.append_eq_nil_iff.mp none).1] at ends
    cases ends

theorem tokens_of_nil (stands : Stands file behind here tokens text) (none : text = []) :
    tokens = [] := by
  cases stands with
  | nil => rfl
  | gap _ _ => cases none
  | segment segment _ => exact absurd (List.append_eq_nil_iff.mp none).1 segment.ne_nil

/-- No word goes on behind a text that ends in a letter. -/
theorem wordEnds (stands : Stands file behind here tokens text) {c : Char}
    (last : text.getLast? = some c) (letter : isWordChar c = true) : WordEnds behind := by
  induction stands with
  | nil => cases last
  | @gap _ _ rest d gap stands ih =>
    cases rest with
    | nil =>
      obtain rfl : d = c := Option.some.inj last
      rw [isGap_of_isWordChar letter] at gap
      cases gap
    | cons next rest => exact ih last
  | @segment _ _ _ taken rest segment stands ih =>
    cases rest with
    | nil =>
      rw [List.append_nil] at last
      exact segment.wordEnds last letter
    | cons next rest =>
      rw [List.getLast?_append, List.getLast?_cons] at last
      apply ih
      rw [List.getLast?_cons]
      exact last

/-- A remark stands at every dagger. -/
theorem exists_remark {mark : Token} (stands : Stands file behind here tokens text)
    (split : tokens = front ++ mark :: back) (dagger : mark.kind = .dagger) :
    ∃ before letters rest others, text = before ++ '†' :: letters ++ rest ∧
      RemarkAt file behind here mark back others before letters rest := by
  induction stands generalizing front with
  | nil => exact absurd split.symm (List.append_ne_nil_of_right_ne_nil _ (List.cons_ne_nil _ _))
  | @gap _ _ _ c _ _ ih =>
    obtain ⟨before, letters, rest, others, rfl, remark⟩ := ih split
    exact ⟨c :: before, letters, rest, others, rfl, remark.further [c]⟩
  | @segment here signs tokens taken rest segment stands ih =>
    have later {front : List Token} (split : tokens = front ++ mark :: back) :
        ∃ before letters rest' others, taken ++ rest = before ++ '†' :: letters ++ rest' ∧
          RemarkAt file behind here mark back others before letters rest' := by
      obtain ⟨before, letters, rest', others, rfl, remark⟩ := ih split
      refine ⟨taken ++ before, letters, rest', others, ?_, remark.further taken⟩
      simp only [List.append_assoc]
    rcases segment.single_or_remark with
      ⟨token, lexeme, rfl, _⟩ | ⟨letters, unclosed, ends, rfl, rfl⟩
    · rw [placedFrom_single] at split
      rcases List.cons_eq_append_iff.mp split with ⟨rfl, same⟩ | ⟨front, rfl, further⟩
      · obtain ⟨rfl, _⟩ := List.cons.inj same
        exact absurd dagger lexeme.kind_ne.1
      · exact later further
    · rw [placedFrom_remark] at split
      rcases List.cons_eq_append_iff.mp split with ⟨rfl, same⟩ | ⟨front, rfl, further⟩
      · obtain ⟨rfl, rfl⟩ := List.cons.inj same
        exact ⟨[], letters, rest, tokens, rfl, unclosed, ends, rfl, rfl, stands⟩
      rcases List.cons_eq_append_iff.mp further with ⟨rfl, same⟩ | ⟨front, rfl, furthest⟩
      · obtain ⟨rfl, _⟩ := List.cons.inj same
        cases dagger
      · exact later furthest

/-- Behind a remark at the end of a text the line ends. -/
theorem remarkEnds {mark last : Token} (stands : Stands file behind here tokens text)
    (split : tokens = front ++ [mark, last]) (dagger : mark.kind = .dagger) :
    RemarkEnds behind := by
  obtain ⟨before, letters, rest, others, _, remark⟩ := stands.exists_remark split dagger
  have none : others = [] := (List.cons.inj remark.back).2.symm
  have ends := remark.ends
  have gaps := remark.others.blank none
  cases rest with
  | nil => exact ends
  | cons c rest =>
    obtain rfl : c = '\n' := ends c rfl
    cases gaps _ List.mem_cons_self

/-- No token but the text of a remark stands behind the mark of one. -/
theorem whole_of_kind (stands : Stands file behind here tokens text)
    (split : tokens = front ++ token :: back) (other : token.kind ≠ .string) : Whole front := by
  intro mark last dagger
  obtain ⟨others, rfl⟩ := List.getLast?_eq_some_iff.mp last
  rw [List.append_assoc] at split
  obtain ⟨_, _, _, _, _, remark⟩ := stands.exists_remark split dagger
  obtain ⟨rfl, _⟩ := List.cons.inj remark.back
  exact other rfl

/-- A text goes on with another one that continues no remark and no word. -/
theorem before (stands : Stands file [] here tokens text) (ends : WordEnds behind)
    (outside : ∀ front mark last, tokens = front ++ [mark, last] → mark.kind ≠ .dagger) :
    Stands file behind here tokens text := by
  induction stands with
  | nil => exact .nil
  | gap gap _ ih => exact .gap gap (ih outside)
  | @segment here signs tokens taken rest segment stands ih =>
    have others : Stands file behind (here.afterAll taken) tokens rest := by
      apply ih
      intro front mark last split
      apply outside (placedFrom file here signs ++ front) mark last
      rw [split, List.append_assoc]
    refine .segment ?_ others
    rw [List.append_nil] at segment
    -- Only a segment at the very end of the text comes to lie before what follows.
    cases rest with
    | cons next rest => exact segment.append (List.cons_ne_nil _ _) behind
    | nil =>
      obtain rfl : tokens = [] := stands.tokens_of_nil rfl
      cases segment with
      | mark mark => exact .mark mark
      | lineEnd => exact .lineEnd
      | word word _ => exact .word word ends
      | quotation unclosed => exact .quotation unclosed
      | remark _ _ => exact absurd rfl (outside [] _ _ rfl)

/-- A text stands by itself, whatever follows it. -/
theorem alone (stands : Stands file behind here tokens text) : Stands file [] here tokens text := by
  induction stands with
  | nil => exact .nil
  | gap gap _ ih => exact .gap gap ih
  | segment segment _ ih =>
    refine .segment ?_ ih
    rw [List.append_nil]
    exact segment.of_append

end Stands

/-- The first token behind a cut begins where the gaps end. -/
theorem CutAt.start {before gaps rest : List Char}
    (cut : CutAt file behind here front (token :: back) before gaps rest) :
    token.span.start = here.afterAll (before ++ gaps) := by
  obtain ⟨signs, others, taken, tail, same, _, segment, _⟩ :=
    cut.right.exists_segment cut.solid (List.cons_ne_nil _ _)
  obtain ⟨first, later, placed, start⟩ :=
    segment.exists_first file (here.afterAll (before ++ gaps))
  rw [placed] at same
  obtain ⟨rfl, _⟩ := List.cons.inj same
  exact start

/-- No word goes on behind a cut from before it. -/
theorem CutAt.wordEnds {before gaps rest : List Char} {c : Char}
    (cut : CutAt file behind here front back before gaps rest)
    (last : (before ++ gaps).getLast? = some c) (letter : isWordChar c = true) :
    WordEnds (rest ++ behind) := by
  rcases List.eq_nil_or_concat gaps with rfl | ⟨others, gap, rfl⟩
  · rw [List.append_nil] at last
    exact cut.left.wordEnds last letter
  · rw [List.concat_eq_append, ← List.append_assoc, List.getLast?_concat] at last
    obtain rfl : gap = c := Option.some.inj last
    have blank := cut.blank gap (by simp)
    rw [isGap_of_isWordChar letter] at blank
    cases blank

end Marginalia
