import Marginalia.Proofs.Reading.Runs
import Marginalia.Proofs.Scanning.Written
import Mathlib.Data.List.Chain
import Mathlib.Data.List.Infix

/-!
# Writing in the margin

A text that is written at the end of a line makes or lengthens a remark there, whatever the line
holds: if no quoted text goes over the end of a line or looks like a remark, then a line either
ends in a remark already, or has no dagger outside its quoted texts. So writing into the margins of
a text keeps its tokens, but for the remarks at the ends of lines (`Noted`).
-/

namespace Marginalia

/-! ## Quoted texts -/

/-- The quoted texts among some tokens behind one of the kind `last`. The text of a remark, which
stands right behind its dagger, is none. -/
def quotationsBehind (last : TokenKind) : List Token → List Token
  | [] => []
  | token :: rest =>
    if token.kind = .string ∧ last ≠ .dagger then token :: quotationsBehind token.kind rest
    else quotationsBehind token.kind rest

/-- The quoted texts among some tokens. -/
def quotations (tokens : List Token) : List Token :=
  quotationsBehind .lineEnd tokens

/-- Every quoted text stands on a single line and does not look like a remark. -/
def QuotesPlainly (tokens : List Token) : Prop :=
  ∀ token ∈ quotations tokens, ∀ text ∈ token.literal,
    '\n' ∉ text.toList ∧ ¬ [' ', '†'] <:+: text.toList

instance (tokens : List Token) : Decidable (QuotesPlainly tokens) :=
  inferInstanceAs (Decidable (∀ token ∈ quotations tokens, ∀ text ∈ token.literal,
    '\n' ∉ text.toList ∧ ¬ [' ', '†'] <:+: text.toList))

section Quotations

variable {signs others : List Token} {token : Token} {letters : List Char}

theorem quotationsBehind_of_ne {last : TokenKind} (other : last ≠ .dagger) (signs : List Token) :
    quotationsBehind last signs = quotations signs := by
  cases signs with
  | nil => rfl
  | cons token signs => simp [quotations, quotationsBehind, other]

theorem quotations_cons (other : token.kind ≠ .dagger) (plain : token.kind ≠ .string)
    (signs : List Token) : quotations (token :: signs) = quotations signs := by
  rw [quotations, quotationsBehind, if_neg fun both => plain both.1, quotationsBehind_of_ne other]

theorem quotations_string (kind : token.kind = .string) (signs : List Token) :
    quotations (token :: signs) = token :: quotations signs := by
  have other : token.kind ≠ .dagger := kind ▸ by decide
  rw [quotations, quotationsBehind, if_pos ⟨kind, by decide⟩, quotationsBehind_of_ne other]

theorem quotations_remark {text : Token} (kind : token.kind = .dagger)
    (textKind : text.kind = .string) (signs : List Token) :
    quotations (token :: text :: signs) = quotations signs := by
  have other : text.kind ≠ .dagger := textKind ▸ by decide
  rw [quotations, quotationsBehind, if_neg (by simp [kind]), quotationsBehind,
    if_neg (by simp [kind]), quotationsBehind_of_ne other]

theorem quotationsBehind_append (last : TokenKind) (signs others : List Token) :
    ∃ more, quotationsBehind last (signs ++ others) = quotationsBehind last signs ++ more := by
  induction signs generalizing last with
  | nil => exact ⟨_, rfl⟩
  | cons token signs ih =>
    obtain ⟨more, same⟩ := ih token.kind
    refine ⟨more, ?_⟩
    rw [List.cons_append, quotationsBehind, quotationsBehind]
    rw [same]
    split <;> rfl

theorem quotationsBehind_append_lineEnd (last : TokenKind) (signs others : List Token) :
    ∃ front, quotationsBehind last (signs ++ lineEndSign :: others) =
      front ++ quotations others := by
  induction signs generalizing last with
  | nil => exact ⟨[], rfl⟩
  | cons token signs ih =>
    obtain ⟨front, same⟩ := ih token.kind
    rw [List.cons_append, quotationsBehind, same]
    split
    · exact ⟨token :: front, rfl⟩
    · exact ⟨front, rfl⟩

end Quotations

namespace QuotesPlainly

variable {signs others : List Token} {token : Token} {letters : List Char}

theorem of_cons (plainly : QuotesPlainly (token :: signs)) (other : token.kind ≠ .dagger)
    (plain : token.kind ≠ .string) : QuotesPlainly signs := by
  rwa [QuotesPlainly, quotations_cons other plain] at plainly

theorem of_quotedSign (plainly : QuotesPlainly (quotedSign letters :: signs)) :
    ('\n' ∉ letters ∧ ¬ [' ', '†'] <:+: letters) ∧ QuotesPlainly signs := by
  rw [QuotesPlainly, quotations_string rfl, List.forall_mem_cons] at plainly
  have first := plainly.1 (String.ofList letters) rfl
  rw [String.toList_ofList] at first
  exact ⟨first, plainly.2⟩

theorem of_remarkSign (plainly : QuotesPlainly (daggerSign :: remarkSign letters :: signs)) :
    QuotesPlainly signs := by
  rwa [QuotesPlainly, quotations_remark rfl rfl] at plainly

theorem of_append (plainly : QuotesPlainly (signs ++ others)) : QuotesPlainly signs := by
  obtain ⟨more, same⟩ := quotationsBehind_append .lineEnd signs others
  refine fun token mem => plainly token ?_
  rw [quotations, same]
  exact List.mem_append_left more mem

theorem of_append_lineEnd (plainly : QuotesPlainly (signs ++ lineEndSign :: others)) :
    QuotesPlainly others := by
  obtain ⟨front, same⟩ := quotationsBehind_append_lineEnd .lineEnd signs others
  refine fun token mem => plainly token ?_
  rw [quotations, same]
  exact List.mem_append_right front mem

end QuotesPlainly

/-! ## Tokens with notes -/

/-- No `else` is the first token of a line. -/
def NoElseFirst (tokens : List Token) : Prop :=
  tokens.IsChain fun first second => first.kind = .lineEnd → second.kind ≠ .elseWord

instance (tokens : List Token) : Decidable (NoElseFirst tokens) :=
  inferInstanceAs (Decidable (tokens.IsChain fun first second =>
    first.kind = .lineEnd → second.kind ≠ .elseWord))

namespace NoElseFirst

variable {signs others : List Token} {token : Token}

theorem of_cons (free : NoElseFirst (token :: signs)) : NoElseFirst signs :=
  List.isChain_of_isChain_cons free

theorem next (free : NoElseFirst (token :: signs)) (kind : token.kind = .lineEnd) :
    nextKind signs ≠ .elseWord := by
  cases signs with
  | nil => decide
  | cons other signs => exact (List.isChain_cons_cons.mp free).1 kind

theorem of_append (free : NoElseFirst (signs ++ others)) :
    NoElseFirst signs ∧ NoElseFirst others := by
  obtain ⟨left, right, _⟩ := List.isChain_append.mp free
  exact ⟨left, right⟩

end NoElseFirst

/-- The second tokens are the first with other remarks, and with more of them at the ends of
lines. -/
inductive Noted : List Token → List Token → Prop
  | nil : Noted [] []
  | plain {signs signs' : List Token} {token : Token} :
    token.kind ≠ .lineEnd → token.kind ≠ .dagger → Noted signs signs' →
    Noted (token :: signs) (token :: signs')
  | lineEnd {signs signs' : List Token} {token : Token} :
    token.kind = .lineEnd → nextKind signs ≠ .elseWord → Noted signs signs' →
    Noted (token :: signs) (token :: signs')
  | remark {signs signs' : List Token} {dagger text text' : Token} :
    dagger.kind = .dagger → text.kind = .string → text'.kind = .string → Noted signs signs' →
    Noted (dagger :: text :: signs) (dagger :: text' :: signs')
  | note {signs signs' : List Token} {dagger text : Token} :
    nextKind signs ∈ [.lineEnd, .textEnd] → dagger.kind = .dagger → text.kind = .string →
    Noted signs signs' → Noted signs (dagger :: text :: signs')

section Noted

variable {first first' second second' signs signs' : List Token} {text : List Char}

/-- Notes on two lines are notes on both of them. -/
theorem Noted.append_lineEnd (noted : Noted first first') (below : nextKind second ≠ .elseWord)
    (notedToo : Noted second second') :
    Noted (first ++ lineEndSign :: second) (first' ++ lineEndSign :: second') := by
  induction noted with
  | nil => exact .lineEnd rfl below notedToo
  | plain unbroken other _ ih => exact .plain unbroken other ih
  | @lineEnd signs _ token kind next _ ih =>
    refine .lineEnd kind ?_ ih
    cases signs with
    | nil => exact (by decide : TokenKind.lineEnd ≠ .elseWord)
    | cons token signs => exact next
  | remark kind textKind otherKind _ ih => exact .remark kind textKind otherKind ih
  | @note signs _ _ _ next kind textKind _ ih =>
    refine .note ?_ kind textKind ih
    cases signs with
    | nil => exact List.mem_cons_self
    | cons token signs => exact next

theorem kind_mark_ne {c : Char} {kind : TokenKind} (mark : TokenKind.ofMark? c = some kind) :
    kind ≠ .lineEnd ∧ kind ≠ .dagger ∧ kind ≠ .string := by
  have apart : ∀ kind ∈ markKinds, kind ≠ .lineEnd ∧ kind ≠ .dagger ∧ kind ≠ .string := by decide
  exact apart kind (ofMark?_mem mark)

theorem kind_wordSign_ne (letters : List Char) :
    (wordSign letters).kind ≠ .lineEnd ∧ (wordSign letters).kind ≠ .dagger ∧
      (wordSign letters).kind ≠ .string := by
  have apart : ∀ kind ∈ wordKinds, kind ≠ .lineEnd ∧ kind ≠ .dagger ∧ kind ≠ .string := by decide
  exact apart _ (ofWord_mem _)

theorem Written.noted_self (written : Written signs text) (free : NoElseFirst signs) :
    Noted signs signs := by
  induction written with
  | nil => exact .nil
  | gap _ _ ih => exact ih free
  | mark mark _ ih =>
    obtain ⟨unbroken, other, _⟩ := kind_mark_ne mark
    exact .plain unbroken other (ih free.of_cons)
  | lineEnd _ ih => exact .lineEnd rfl (free.next rfl) (ih free.of_cons)
  | @word _ _ letters word _ _ ih =>
    obtain ⟨unbroken, other, _⟩ := kind_wordSign_ne letters
    exact .plain unbroken other (ih free.of_cons)
  | quotation closed _ ih => exact .plain nofun nofun (ih free.of_cons)
  | remark _ _ _ ih => exact .remark rfl rfl rfl (ih free.of_cons.of_cons)

end Noted

/-! ## The lines of a text -/

section Lines

variable {signs : List Token} {text line rest letters more : List Char} {c : Char}

theorem exists_of_append_eq (free : c ∉ letters) (whole : letters ++ rest = line ++ c :: more) :
    ∃ tail, line = letters ++ tail ∧ rest = tail ++ c :: more := by
  rcases List.append_eq_append_iff.mp whole with ⟨tail, same, split⟩ | ⟨tail, same, split⟩
  · exact ⟨tail, same, split⟩
  · cases tail with
    | nil => exact ⟨[], by rw [same, List.append_nil, List.append_nil], split.symm⟩
    | cons d tail =>
      obtain rfl : c = d := (List.cons.inj split).1
      rw [same] at free
      exact absurd (List.mem_append_right line List.mem_cons_self) free

/-- A text whose quoted texts each stand on one line is written line by line. -/
theorem Written.exists_of_lineFeed (written : Written signs text) (plainly : QuotesPlainly signs)
    (whole : text = line ++ '\n' :: rest) (single : '\n' ∉ line) :
    ∃ first second, signs = first ++ lineEndSign :: second ∧ Written first line ∧
      Written second rest := by
  induction written generalizing line with
  | nil => exact absurd whole.symm (List.append_ne_nil_of_right_ne_nil _ (List.cons_ne_nil _ _))
  | @gap signs behind c gap written ih =>
    have free : '\n' ∉ [c] := by
      rw [List.mem_singleton]
      rintro rfl
      cases gap
    obtain ⟨tail, rfl, split⟩ := exists_of_append_eq free whole
    obtain ⟨first, second, rfl, above, below⟩ := ih plainly split fun mem =>
      single (List.mem_cons_of_mem _ mem)
    exact ⟨first, second, rfl, .gap gap above, below⟩
  | @mark signs behind c kind mark written ih =>
    have free : '\n' ∉ [c] := by
      rw [List.mem_singleton]
      rintro rfl
      cases mark
    obtain ⟨_, other, plain⟩ := kind_mark_ne mark
    obtain ⟨tail, rfl, split⟩ := exists_of_append_eq free whole
    obtain ⟨first, second, rfl, above, below⟩ := ih (plainly.of_cons other plain) split fun mem =>
      single (List.mem_cons_of_mem _ mem)
    exact ⟨_ :: first, second, rfl, .mark mark above, below⟩
  | @lineEnd signs behind written ih =>
    cases line with
    | nil =>
      obtain rfl : behind = rest := (List.cons.inj whole).2
      exact ⟨[], signs, rfl, .nil, written⟩
    | cons c line =>
      obtain rfl : '\n' = c := (List.cons.inj whole).1
      exact absurd List.mem_cons_self single
  | @word signs behind letters word ends written ih =>
    have free : '\n' ∉ letters := fun mem => by
      have letter := word.all _ mem
      cases letter
    obtain ⟨_, other, plain⟩ := kind_wordSign_ne letters
    obtain ⟨tail, rfl, rfl⟩ := exists_of_append_eq free whole
    obtain ⟨first, second, rfl, above, below⟩ := ih (plainly.of_cons other plain) rfl fun mem =>
      single (List.mem_append_right _ mem)
    exact ⟨_ :: first, second, rfl, .word word ends.of_append above, below⟩
  | @quotation signs behind letters closed written ih =>
    obtain ⟨⟨unbroken, _⟩, plainly⟩ := plainly.of_quotedSign
    have free : '\n' ∉ '“' :: letters ++ ['”'] := by simp [unbroken]
    have whole : '“' :: letters ++ ['”'] ++ behind = line ++ '\n' :: rest := by
      rw [← whole, List.append_assoc]
      rfl
    obtain ⟨tail, rfl, split⟩ := exists_of_append_eq free whole
    obtain ⟨first, second, rfl, above, below⟩ := ih plainly split fun mem =>
      single (List.mem_append_right _ mem)
    refine ⟨_ :: first, second, rfl, ?_, below⟩
    rw [List.append_assoc]
    exact .quotation closed above
  | @remark signs behind letters unbroken ends written ih =>
    have free : '\n' ∉ '†' :: letters := by simp [unbroken]
    obtain ⟨tail, rfl, rfl⟩ := exists_of_append_eq free whole
    obtain ⟨first, second, rfl, above, below⟩ := ih plainly.of_remarkSign rfl fun mem =>
      single (List.mem_append_right _ mem)
    refine ⟨_ :: _ :: first, second, rfl, .remark unbroken ?_ above, below⟩
    intro c mem
    refine ends c ?_
    cases tail with
    | nil => cases mem
    | cons d tail => exact mem

/-- A line feed between two texts is a token between those of the texts. -/
theorem Written.append_lineFeed {first second : List Token} (above : Written first line)
    (below : Written second rest) :
    Written (first ++ lineEndSign :: second) (line ++ '\n' :: rest) := by
  induction above with
  | nil => exact .lineEnd below
  | gap gap _ ih => exact .gap gap ih
  | mark mark _ ih => exact .mark mark ih
  | lineEnd _ ih => exact .lineEnd ih
  | @word signs behind letters word ends _ ih =>
    rw [List.append_assoc]
    refine .word word ?_ ih
    cases behind with
    | nil => rintro c ⟨⟩; rfl
    | cons d behind => exact ends
  | quotation closed _ ih =>
    rw [List.append_assoc]
    exact .quotation closed ih
  | @remark signs behind letters unbroken ends _ ih =>
    rw [List.append_assoc]
    refine .remark unbroken ?_ ih
    cases behind with
    | nil => rintro c ⟨⟩; rfl
    | cons d behind => exact ends

end Lines

/-! ## The end of a line -/

section Margin

variable {signs : List Token} {line line' letters more : List Char} {c : Char}

theorem dagger_infix_of_append (free : ' ' ∉ letters) (found : [' ', '†'] <:+: letters ++ more) :
    [' ', '†'] <:+: more := by
  induction letters with
  | nil => exact found
  | cons c letters ih =>
    rw [List.cons_append, List.infix_cons_iff] at found
    rcases found with ⟨rest, whole⟩ | found
    · obtain rfl : ' ' = c := (List.cons.inj whole).1
      exact absurd List.mem_cons_self free
    · exact ih (fun mem => free (List.mem_cons_of_mem _ mem)) found

theorem dagger_infix_of_quotation (found : [' ', '†'] <:+: letters ++ '”' :: more) :
    [' ', '†'] <:+: letters ∨ [' ', '†'] <:+: more := by
  induction letters with
  | nil => exact .inr (dagger_infix_of_append (by decide : ' ' ∉ ['”']) found)
  | cons c letters ih =>
    rw [List.cons_append, List.infix_cons_iff] at found
    rcases found with ⟨rest, whole⟩ | found
    · obtain ⟨rfl, behind⟩ := List.cons.inj whole
      cases letters with
      | nil => cases behind
      | cons d letters =>
        obtain rfl : '†' = d := (List.cons.inj behind).1
        exact .inl ⟨[], letters, rfl⟩
    · rcases ih found with inside | outside
      · exact .inl (List.infix_cons inside)
      · exact .inr outside

theorem Written.eq_nil (written : Written signs []) : signs = [] := by
  generalize none : ([] : List Char) = text at written
  cases written with
  | nil => rfl
  | word word _ _ => exact absurd (List.append_eq_nil_iff.mp none.symm).1 word.ne_nil
  | gap _ _ | mark _ _ | lineEnd _ | quotation _ _ | remark _ _ _ => cases none

/-- Whatever is written behind the line belongs to a remark. -/
def EndsInRemark (signs : List Token) (line : List Char) : Prop :=
  line ≠ [] ∧ ∀ more, '\n' ∉ more → ∃ signs', Written signs' (line ++ more) ∧ Noted signs signs'

/-- A dagger behind the line begins a remark, and no other dagger has begun one. -/
def EndsOpen (signs : List Token) (line : List Char) : Prop :=
  ¬ ['†'] <+: line ∧ ¬ [' ', '†'] <:+: line ∧ ∀ more, '\n' ∉ more →
    ∃ signs', Written signs' (line ++ ' ' :: '†' :: more) ∧ Noted signs signs'

/-- A token before the line changes nothing about its end. -/
theorem endsInRemark_or_endsOpen_cons {token : Token} {piece : List Char}
    (unbroken : token.kind ≠ .lineEnd) (other : token.kind ≠ .dagger) (some : piece ≠ [])
    (head : ¬ ['†'] <+: piece ++ line)
    (clean : [' ', '†'] <:+: piece ++ line → [' ', '†'] <:+: line)
    (longer : ∀ {signs' more}, line ≠ [] → Written signs' (line ++ more) →
      Written (token :: signs') (piece ++ (line ++ more)))
    (opens : ∀ {signs' more}, Written signs' (line ++ ' ' :: more) →
      Written (token :: signs') (piece ++ (line ++ ' ' :: more)))
    (ends : EndsInRemark signs line ∨ EndsOpen signs line) :
    EndsInRemark (token :: signs) (piece ++ line) ∨ EndsOpen (token :: signs) (piece ++ line) := by
  rcases ends with ⟨there, extend⟩ | ⟨_, later, extend⟩
  · refine .inl ⟨List.append_ne_nil_of_left_ne_nil some line, fun more free => ?_⟩
    obtain ⟨signs', written, noted⟩ := extend more free
    rw [List.append_assoc]
    exact ⟨token :: signs', longer there written, .plain unbroken other noted⟩
  · refine .inr ⟨head, fun found => later (clean found), fun more free => ?_⟩
    obtain ⟨signs', written, noted⟩ := extend more free
    rw [List.append_assoc]
    exact ⟨token :: signs', opens written, .plain unbroken other noted⟩

/-- Nor does a gap. -/
theorem endsInRemark_or_endsOpen_gap (gap : isGap c = true)
    (ends : EndsInRemark signs line ∨ EndsOpen signs line) :
    EndsInRemark signs (c :: line) ∨ EndsOpen signs (c :: line) := by
  rcases ends with ⟨_, extend⟩ | ⟨head, later, extend⟩
  · refine .inl ⟨List.cons_ne_nil _ _, fun more free => ?_⟩
    obtain ⟨signs', written, noted⟩ := extend more free
    exact ⟨signs', .gap gap written, noted⟩
  · refine .inr ⟨?_, ?_, fun more free => ?_⟩
    · rintro ⟨_, whole⟩
      obtain rfl : '†' = c := (List.cons.inj whole).1
      cases gap
    · rw [List.infix_cons_iff]
      rintro (⟨more, whole⟩ | found)
      · exact head ⟨more, (List.cons.inj whole).2⟩
      · exact later found
    · obtain ⟨signs', written, noted⟩ := extend more free
      exact ⟨signs', .gap gap written, noted⟩

/-- Behind a line without tokens a remark may be put. -/
theorem endsOpen_nil : EndsOpen [] [] := by
  refine ⟨by decide, by decide, fun more free => ⟨[daggerSign, remarkSign more], ?_, ?_⟩⟩
  · have remark : Written [daggerSign, remarkSign more] ('†' :: more ++ []) :=
      .remark free (by rintro c ⟨⟩) .nil
    rw [List.append_nil] at remark
    exact .gap rfl remark
  · exact .note (by decide) rfl rfl .nil

/-- A remark takes in what is put behind it. -/
theorem endsInRemark_remark (single : '\n' ∉ letters) :
    EndsInRemark [daggerSign, remarkSign letters] ('†' :: letters) := by
  refine ⟨List.cons_ne_nil _ _, fun more free => ?_⟩
  refine ⟨[daggerSign, remarkSign (letters ++ more)], ?_, .remark rfl rfl rfl .nil⟩
  have longer : Written [daggerSign, remarkSign (letters ++ more)]
      ('†' :: (letters ++ more) ++ []) :=
    .remark (by simp [single, free]) (by rintro c ⟨⟩) .nil
  rwa [List.append_nil] at longer

/-- A line whose quotations stay on it ends inside of a remark, or so that a remark may be put
behind it. The induction is on how the line is written, and only a dagger leads from the second case
to the first. -/
theorem Written.endsInRemark_or_endsOpen (written : Written signs line) (single : '\n' ∉ line)
    (plainly : QuotesPlainly signs) : EndsInRemark signs line ∨ EndsOpen signs line := by
  induction written with
  | nil => exact .inr endsOpen_nil
  | gap gap _ ih =>
    exact endsInRemark_or_endsOpen_gap gap
      (ih (fun mem => single (List.mem_cons_of_mem _ mem)) plainly)
  | @mark signs rest c kind mark written ih =>
    obtain ⟨unbroken, other, plain⟩ := kind_mark_ne mark
    have free : ' ' ∉ [c] := by
      rw [List.mem_singleton]
      rintro rfl
      cases mark
    have head : ¬ ['†'] <+: [c] ++ rest := by
      rintro ⟨_, whole⟩
      obtain rfl : '†' = c := (List.cons.inj whole).1
      cases mark
    exact endsInRemark_or_endsOpen_cons unbroken other (List.cons_ne_nil c []) head
      (dagger_infix_of_append free) (fun _ => .mark mark) (.mark mark)
      (ih (fun mem => single (List.mem_cons_of_mem _ mem)) (plainly.of_cons other plain))
  | lineEnd _ _ => exact absurd List.mem_cons_self single
  | @word signs rest letters word ends written ih =>
    obtain ⟨unbroken, other, plain⟩ := kind_wordSign_ne letters
    have free : ∀ c ∈ letters, c ≠ ' ' ∧ c ≠ '†' := by
      intro c mem
      have letter := word.all c mem
      constructor <;> rintro rfl <;> cases letter
    have head : ¬ ['†'] <+: letters ++ rest := by
      rintro ⟨_, whole⟩
      cases letters with
      | nil => exact word.ne_nil rfl
      | cons c letters => exact (free c List.mem_cons_self).2 (List.cons.inj whole).1.symm
    refine endsInRemark_or_endsOpen_cons unbroken other word.ne_nil head
      (dagger_infix_of_append fun mem => (free _ mem).1 rfl) (fun some => ?_) ?_
      (ih (fun mem => single (List.mem_append_right _ mem)) (plainly.of_cons other plain))
    · exact .word word (ends.append some _)
    · refine .word word ?_
      cases rest with
      | nil => rintro c ⟨⟩; rfl
      | cons d rest => exact ends
  | @quotation signs rest letters closed written ih =>
    obtain ⟨⟨_, clean⟩, plainly⟩ := plainly.of_quotedSign
    have split : ∀ text, '“' :: letters ++ '”' :: text = ('“' :: letters ++ ['”']) ++ text := by
      intro text
      rw [List.append_assoc]
      rfl
    rw [split] at single ⊢
    refine endsInRemark_or_endsOpen_cons nofun nofun (List.cons_ne_nil _ _) ?_ ?_ (fun _ => ?_) ?_
      (ih (fun mem => single (List.mem_append_right _ mem)) plainly)
    · rintro ⟨_, whole⟩
      exact absurd (List.cons.inj whole).1 (by decide)
    · rw [← split]
      intro found
      have behind : [' ', '†'] <:+: letters ++ '”' :: rest :=
        dagger_infix_of_append (by decide : ' ' ∉ ['“']) found
      exact (dagger_infix_of_quotation behind).resolve_left clean
    · rw [← split]
      exact .quotation closed
    · intro signs' more
      rw [← split]
      exact .quotation closed
  | @remark signs rest letters unbroken ends written ih =>
    -- on a single line nothing follows a remark
    have last : rest = [] := by
      cases rest with
      | nil => rfl
      | cons c rest =>
        obtain rfl : c = '\n' := ends c rfl
        exact absurd (List.mem_append_right _ List.mem_cons_self) single
    subst last
    obtain rfl := written.eq_nil
    rw [List.append_nil]
    exact .inl (endsInRemark_remark unbroken)

/-- The second line is the first with something in its margin, or without. -/
inductive InMargin (line : List Char) : List Char → Prop
  | same : InMargin line line
  | longer {more : List Char} :
    [' ', '†'] <:+: line → '\n' ∉ more → InMargin line (line ++ more)
  | opened {more : List Char} :
    ¬ [' ', '†'] <:+: line → '\n' ∉ more → InMargin line (line ++ ' ' :: '†' :: more)

theorem Written.exists_noted_line (written : Written signs line) (single : '\n' ∉ line)
    (plainly : QuotesPlainly signs) (free : NoElseFirst signs) (margin : InMargin line line') :
    ∃ signs', Written signs' line' ∧ Noted signs signs' := by
  have ends := written.endsInRemark_or_endsOpen single plainly
  cases margin with
  | same => exact ⟨signs, written, written.noted_self free⟩
  | @longer more found unbroken =>
    rcases ends with ⟨_, extend⟩ | ⟨_, none, _⟩
    · exact extend more unbroken
    · exact absurd found none
  | @opened more none unbroken =>
    rcases ends with ⟨_, extend⟩ | ⟨_, _, extend⟩
    · exact extend (' ' :: '†' :: more) (by simp [unbroken])
    · exact extend more unbroken

/-- Writing in the margins of a text gives its tokens with notes. -/
theorem Written.exists_noted {lines lines' : List (List Char)}
    (margins : List.Forall₂ InMargin lines lines') (some : lines ≠ [])
    (single : ∀ line ∈ lines, '\n' ∉ line) {signs : List Token}
    (written : Written signs (joinLines lines)) (plainly : QuotesPlainly signs)
    (free : NoElseFirst signs) :
    ∃ signs', Written signs' (joinLines lines') ∧ Noted signs signs' := by
  induction margins generalizing signs with
  | nil => exact absurd rfl some
  | @cons line line' lines lines' margin margins ih =>
    have here := single line List.mem_cons_self
    cases margins with
    | nil => exact written.exists_noted_line here plainly free margin
    | @cons next next' lines lines' first rest =>
      obtain ⟨above, below, rfl, writtenAbove, writtenBelow⟩ :=
        written.exists_of_lineFeed plainly rfl here
      obtain ⟨freeAbove, freeBelow⟩ := free.of_append
      obtain ⟨above', writtenAbove', notedAbove⟩ :=
        writtenAbove.exists_noted_line here plainly.of_append freeAbove margin
      obtain ⟨below', writtenBelow', notedBelow⟩ :=
        ih (List.cons_ne_nil _ _) (fun line mem => single line (List.mem_cons_of_mem _ mem))
          writtenBelow plainly.of_append_lineEnd freeBelow.of_cons
      exact ⟨above' ++ lineEndSign :: below', writtenAbove'.append_lineFeed writtenBelow',
        notedAbove.append_lineEnd (freeBelow.next rfl) notedBelow⟩

end Margin

end Marginalia
