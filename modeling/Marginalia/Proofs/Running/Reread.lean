import Marginalia.Proofs.Reading.Joined
import Marginalia.Proofs.Reading.Noted
import Marginalia.Proofs.Reading.Remarks
import Marginalia.Proofs.Running.Unbroken

/-!
# Reading the echo of a run

What a run prints goes into the margins of its source. If every quoted text of the source stands on
one line and does not look like a remark, then nothing that is printed has a line feed, and all of
it falls into remarks; if no line begins with an `else`, a remark may stand at the end of each line.
So the echo is read as the program that was run, up to its remarks (`Source.run_reread`).

The one thing that can come between is the limit of the reader. A remark in a block that was empty
is one level deeper than the block, so the echo can need one level more than the source.
-/

namespace Marginalia

/-! ## The lines of an echo -/

/-- A text that is cut at every mark has no mark left in its pieces. -/
theorem not_mem_of_mem_piecesAt {mark : Char} {text piece : List Char}
    (mem : piece ∈ piecesAt mark text) : mark ∉ piece := by
  induction text generalizing piece with
  | nil =>
    rw [piecesAt, List.mem_singleton] at mem
    subst mem
    exact List.not_mem_nil
  | cons c rest ih =>
    rw [piecesAt] at mem
    split at mem
    case isTrue met =>
      rcases List.mem_cons.mp mem with rfl | behind
      · exact List.not_mem_nil
      · exact ih behind
    case isFalse other =>
      cases found : piecesAt mark rest with
      | nil => exact absurd found (piecesAt_ne_nil mark rest)
      | cons first pieces =>
        rw [found] at mem ih
        rcases List.mem_cons.mp mem with rfl | behind
        · rw [List.mem_cons, not_or]
          exact ⟨fun same => other same.symm, ih List.mem_cons_self⟩
        · exact ih (List.mem_cons_of_mem _ behind)

theorem inMargin_annotated (line : List Char) {texts : List String}
    (unbroken : ∀ text ∈ texts, '\n' ∉ text.toList) : InMargin line (annotated line texts) := by
  have more : '\n' ∉ texts.flatMap String.toList := by
    rw [List.mem_flatMap]
    rintro ⟨text, mem, found⟩
    exact unbroken text mem found
  unfold annotated
  split
  · exact .same
  · split
    next found =>
      rw [List.append_nil]
      exact .longer found more
    next none =>
      rw [List.append_assoc]
      exact .opened none more

theorem inMargin_annotatedLines (text : List Char) {trace : List (Int × String)}
    (unbroken : ∀ entry ∈ trace, '\n' ∉ entry.2.toList) :
    List.Forall₂ InMargin (splitLines text) (annotatedLines text trace) := by
  refine List.forall₂_iff_get.mpr ⟨(List.length_mapIdx).symm, fun index here there => ?_⟩
  simp only [annotatedLines, List.get_eq_getElem, List.getElem_mapIdx]
  refine inMargin_annotated _ fun text mem => ?_
  obtain ⟨entry, found, rfl⟩ := List.mem_map.mp mem
  exact unbroken entry (List.mem_of_mem_filter found)

/-! ## Tokens without their places -/

theorem quotationsBehind_erased (last : TokenKind) (tokens : List Token) :
    quotationsBehind last (tokens.map Token.erased) =
      (quotationsBehind last tokens).map Token.erased := by
  induction tokens generalizing last with
  | nil => rfl
  | cons token tokens ih =>
    rw [List.map_cons, quotationsBehind, quotationsBehind, ih, apply_ite (List.map _)]
    rfl

theorem QuotesPlainly.erased {tokens : List Token} (plainly : QuotesPlainly tokens) :
    QuotesPlainly (tokens.map Token.erased) := by
  intro token mem
  rw [quotations, quotationsBehind_erased] at mem
  obtain ⟨found, there, rfl⟩ := List.mem_map.mp mem
  exact plainly found there

theorem NoElseFirst.erased {tokens : List Token} (free : NoElseFirst tokens) :
    NoElseFirst (tokens.map Token.erased) :=
  (List.isChain_map Token.erased).mpr free

/-- Tokens without their places derive the program without its places. -/
theorem Derives.erased {tokens : List Token} {program : Program} (derives : Derives tokens program)
    (nearest : program.NearestElse) (inside : ∀ token ∈ tokens, token.kind ≠ .textEnd) :
    Derives (tokens.map Token.erased) program.erased := by
  have ends : endSign.kind = .textEnd := rfl
  have read := derives.parseWithin inside ends nearest program.nesting
  have moved := Program.parseWithin_moved joins_nowhere program.nesting (tokens ++ [endSign])
  rw [read, if_pos (Nat.le_refl _), List.map_append] at moved
  have erasedInside : ∀ token ∈ tokens.map Token.erased, token.kind ≠ .textEnd :=
    List.forall_mem_map.mpr inside
  exact ((Program.parseWithin_iff_derives erasedInside ends).mp moved).1

/-- What tokens derive without their places they derive with them. -/
theorem Derives.exists_of_erased {tokens : List Token} {program : Program}
    (derives : Derives (tokens.map Token.erased) program) (nearest : program.NearestElse)
    (inside : ∀ token ∈ tokens, token.kind ≠ .textEnd) :
    ∃ again : Program, again.erased = program ∧ Derives tokens again ∧ again.NearestElse := by
  have ends : endSign.kind = .textEnd := rfl
  have erasedInside : ∀ token ∈ tokens.map Token.erased, token.kind ≠ .textEnd :=
    List.forall_mem_map.mpr inside
  have read := derives.parseWithin erasedInside ends nearest program.nesting
  have moved := Program.parseWithin_moved joins_nowhere program.nesting (tokens ++ [endSign])
  rw [List.map_append] at moved
  rw [if_pos (Nat.le_refl _)] at read
  cases found : Program.parseWithin program.nesting (tokens ++ [endSign]) with
  | error fault =>
    rw [found] at moved
    cases read.symm.trans moved
  | ok again =>
    rw [found] at moved
    obtain ⟨derivesAgain, nearestAgain, _⟩ :=
      (Program.parseWithin_iff_derives inside ends).mp found
    exact ⟨again, (Except.ok.inj (read.symm.trans moved)).symm, derivesAgain, nearestAgain⟩

/-- A text that is written in tokens with notes is read as the program that they derive without
them, up to places and remarks. -/
theorem Derives.exists_reread {body signs : List Token} {program : Program} {text : List Char}
    (derives : Derives body program) (nearest : program.NearestElse)
    (inside : ∀ token ∈ body, token.kind ≠ .textEnd)
    (noted : Noted (body.map Token.erased) signs) (written : Written signs text) (file : String) :
    ∃ (tokens : List Token) (again : Program), scan file text = .ok tokens ∧
      again.bare = program.bare ∧ ∀ limit, Program.parseWithin limit tokens =
        if again.nesting ≤ limit then .ok again else .error .tooDeep := by
  obtain ⟨program', derivesNoted, same⟩ := (derives.erased nearest inside).exists_noted noted
  rw [Program.bare_erased] at same
  obtain ⟨tokens, scanned, places⟩ := scan_of_written file written
  obtain ⟨front, back, rfl, frontPlaces, lastPlace⟩ := List.map_eq_append_iff.mp places
  obtain ⟨last, rfl, lastErased⟩ := List.map_eq_singleton_iff.mp lastPlace
  have frontInside : ∀ token ∈ front, token.kind ≠ .textEnd := fun token mem =>
    written.kind_ne_textEnd token.erased (frontPlaces ▸ List.mem_map_of_mem mem)
  have ends : last.kind = .textEnd := congrArg Token.kind lastErased
  rw [← frontPlaces] at derivesNoted
  obtain ⟨again, erased, derivesAgain, nearestAgain⟩ :=
    derivesNoted.exists_of_erased (Program.nearestElse_of_bare same nearest) frontInside
  refine ⟨_, again, scanned, ?_, derivesAgain.parseWithin frontInside ends nearestAgain⟩
  rw [← Program.bare_erased, erased, same]

/-! ## The echo as a source -/

namespace Source

variable {limits : Limits} {source : Source} {parsed : Parsed} {run : Run}

/-- The tokens of a source that can be read, but for the end of the text, are those that its text is
written in, and they derive the program. -/
theorem exists_derives_of_parseUnder (read : source.parseUnder limits = .ok parsed) :
    ∃ body final, parsed.tokens = body ++ [final] ∧
      Written (body.map Token.erased) source.text.toList ∧
      (∀ token ∈ body, token.kind ≠ .textEnd) ∧ Derives body parsed.program ∧
      parsed.program.NearestElse := by
  obtain ⟨scanned, programRead⟩ := parseUnder_eq_ok_iff.mp read
  obtain ⟨body, final, whole, ends, written⟩ := exists_of_scan scanned
  have inside : ∀ token ∈ body, token.kind ≠ .textEnd := fun token mem =>
    written.kind_ne_textEnd token.erased (List.mem_map_of_mem mem)
  rw [whole] at programRead
  obtain ⟨derives, nearest, _⟩ := (Program.parseWithin_iff_derives inside ends).mp programRead
  exact ⟨body, final, whole, written, inside, derives, nearest⟩

/-- The echo of a run is read as the program that was run, up to its places and remarks, if the
quoted texts of the source stand on one line each and do not look like remarks, and no line begins
with an `else`. -/
theorem run_reread (file : String) (ran : source.runUnder limits none = .ok (parsed, run))
    (plainly : QuotesPlainly parsed.tokens) (free : NoElseFirst parsed.tokens) :
    ∃ again : Parsed, again.program.bare = parsed.program.bare ∧
      again.program.nesting ≤ parsed.program.nesting + 1 ∧
      (Source.mk run.machine.echo file).scan = .ok again.tokens ∧
      (∀ limit, Program.parseWithin limit again.tokens =
        if again.program.nesting ≤ limit then .ok again.program else .error .tooDeep) ∧
      ∀ rereading : Limits, (Source.mk run.machine.echo file).parseUnder rereading =
        if again.program.nesting ≤ rereading.depth then .ok again else .error .tooDeep := by
  obtain ⟨read, _⟩ := runUnder_eq_ok_iff.mp ran
  obtain ⟨body, final, whole, written, inside, derives, nearest⟩ :=
    exists_derives_of_parseUnder read
  rw [whole] at plainly free
  -- neither the program nor what it prints has a line feed to give
  have names : ∀ token ∈ body, token.kind = .name → '\n' ∉ token.lexeme.toList :=
    fun token mem => written.names_unbroken token.erased (List.mem_map_of_mem mem)
  have quoted : ∀ token ∈ quotations body, ∀ text ∈ token.literal, '\n' ∉ text.toList :=
    fun token mem text found => (plainly.of_append token mem text found).1
  have unbroken := trace_unbroken ran (derives.allUnbroken ⟨names, quoted⟩) nofun
  -- so the lines of the echo are those of the source with something in their margins
  have margins := inMargin_annotatedLines source.text.toList unbroken
  rw [← joinLines_splitLines source.text.toList] at written
  obtain ⟨signs, writtenEcho, noted⟩ := written.exists_noted margins (piecesAt_ne_nil _ _)
    (fun _ => not_mem_of_mem_piecesAt) plainly.of_append.erased free.of_append.1.erased
  rw [← echo_of_run ran] at writtenEcho
  obtain ⟨tokens, again, scanned, bare, reads⟩ :=
    derives.exists_reread nearest inside noted writtenEcho file
  have scannedEcho : (Source.mk run.machine.echo file).scan = .ok tokens := by
    rw [Source.scan, Machine.echo, String.toList_ofList]
    exact scanned
  refine ⟨⟨tokens, again⟩, bare, Program.nesting_le_of_bare bare, scannedEcho, reads,
    fun rereading => ?_⟩
  rw [parseUnder, scannedEcho]
  change (Program.parseWithin rereading.depth tokens).bind _ = _
  rw [reads]
  split <;> rfl

/-- The `else` is on the line of its condition, a block is empty, and two lines are printed on. -/
theorem run_reread_empty_block :
    ∃ parsed run again,
      (Source.mk "if—true— a else b : :\n. .\nprint—f, c— † old" "").run none =
        .ok (parsed, run) ∧
      run.machine.echo = "if—true— a else b : : † a\n. .\nprint—f, c— † old f c" ∧
      (Source.mk run.machine.echo "").parse = .ok again ∧
      again.program.bare = parsed.program.bare := by
  have tested : (((Source.mk "if—true— a else b : :\n. .\nprint—f, c— † old" "").run none).map
      fun (parsed, run) => decide (QuotesPlainly parsed.tokens ∧ NoElseFirst parsed.tokens ∧
        parsed.program.nesting < depthLimit ∧
        run.machine.echo = "if—true— a else b : : † a\n. .\nprint—f, c— † old f c")).toOption =
      some true := by
    decide +kernel
  cases ran : (Source.mk "if—true— a else b : :\n. .\nprint—f, c— † old" "").run none with
  | error fault =>
    rw [ran] at tested
    cases tested
  | ok result =>
    obtain ⟨parsed, run⟩ := result
    rw [ran] at tested
    obtain ⟨plainly, free, shallow, echo⟩ := of_decide_eq_true (Option.some.inj tested)
    obtain ⟨again, same, nesting, _, _, reads⟩ := run_reread "" ran plainly free
    have fits : again.program.nesting ≤ depthLimit := by omega
    exact ⟨parsed, run, again, rfl, echo, (reads .standard).trans (if_pos fits), same⟩

end Source

end Marginalia
