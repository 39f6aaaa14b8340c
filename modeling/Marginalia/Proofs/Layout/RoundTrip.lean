import Marginalia.Proofs.Layout.Spelled
import Marginalia.Proofs.Layout.Stranded
import Marginalia.Proofs.Reading.Blame
import Marginalia.Proofs.Reading.Sources

/-!
# Reading a layout again

A source that can be read has a layout, and the layout is scanned as the signs of
the program (`Source.exists_layout`). What the reader makes of these signs is
known from `Grammar.reads_signs` and `Program.parseWithin_signs_of_strandsElse`;
that the tokens of the layout have places, unlike the signs, makes no difference
to it (`Program.parseWithin_moved`).

So the layout is read as the same program exactly if the program strands no
`else`. Otherwise it is refused at one.
-/

namespace Marginalia

open Grammar

namespace Source

variable {source : Source} {parsed : Parsed}

/-- The tokens of a source that can be read, but for the end of the text, are tokens of its text
from which the grammar derives the program. -/
theorem scanned_reads_of_parseUnder {limits : Limits}
    (read : source.parseUnder limits = .ok parsed) :
    ∃ final, parsed.tokens = parsed.tokens.dropLast ++ [final] ∧
      Scanned parsed.tokens.dropLast ∧
      Reads limits.depth parsed.tokens.dropLast parsed.program := by
  obtain ⟨scanned, programRead⟩ := parseUnder_eq_ok_iff.mp read
  obtain ⟨body, final, whole, ends, written⟩ := exists_of_scan scanned
  have inside : ∀ token ∈ body, token.kind ≠ .textEnd := fun token mem =>
    written.kind_ne_textEnd token.erased (List.mem_map_of_mem mem)
  rw [whole] at programRead
  rw [whole, List.dropLast_concat]
  exact ⟨final, rfl, ⟨_, written⟩, (Program.parseWithin_eq_ok_iff inside ends).mp programRead⟩

/-- A source that can be read is derived by the grammar from the tokens of its text. -/
theorem exists_of_parse (read : source.parse = .ok parsed) :
    ∃ tokens, Scanned tokens ∧ Reads depthLimit tokens parsed.program := by
  obtain ⟨_, _, both⟩ := scanned_reads_of_parseUnder read
  exact ⟨_, both⟩

/-- The tokens of a text that is written in the signs of a program are read like the signs. -/
theorem parse_of_written {text : String} {program : Program} (file : String)
    (written : Written program.signs text.toList) :
    ∃ tokens, (Source.mk text file).scan = .ok tokens ∧
      Program.parse (program.signs ++ [endSign]) =
        ((Program.parse tokens).map Program.erased).mapError (Fault.moved fun _ => .nowhere) := by
  obtain ⟨tokens, scanned, places⟩ := scan_of_written file written
  refine ⟨tokens, scanned, ?_⟩
  rw [← places]
  exact Program.parseWithin_moved joins_nowhere depthLimit tokens

/-- A layout that strands no `else` is read as the program it was made from. -/
theorem parse_layout {text : String} {tokens : List Token} {program : Program} (file : String)
    (read : Reads depthLimit tokens program) (written : Written program.signs text.toList)
    (safe : program.strandsElse = false) :
    ∃ again, (Source.mk text file).parse = .ok again ∧ again.program.erased = program.erased := by
  obtain ⟨found, scanned, same⟩ := parse_of_written file written
  have signsRead := (Program.parseWithin_eq_ok_iff written.kind_ne_textEnd
    (show endSign.kind = .textEnd from rfl)).mpr (reads_signs read safe)
  rw [Program.parse, signsRead] at same
  cases reread : Program.parse found with
  | error fault =>
    rw [reread] at same
    cases same
  | ok again =>
    rw [reread] at same
    refine ⟨⟨found, again⟩, parse_eq_ok_iff.mpr ⟨scanned, reread⟩, ?_⟩
    exact (Except.ok.inj same).symm

/-- A layout that strands an `else` is refused at one. -/
theorem parse_layout_of_strandsElse {text : String} {tokens : List Token} {program : Program}
    (file : String) (read : Reads depthLimit tokens program)
    (written : Written program.signs text.toList) (stranded : program.strandsElse = true) :
    ∃ found token, (Source.mk text file).scan = .ok found ∧ token ∈ found ∧
      token.kind = .elseWord ∧
      (Source.mk text file).parse = .error (.parse .noExpression token) := by
  obtain ⟨found, scanned, same⟩ := parse_of_written file written
  have refused := Program.parseWithin_signs_of_strandsElse read stranded written.kind_ne_textEnd
    (show endSign.kind = .textEnd from rfl)
  rw [Program.parse, refused] at same
  cases reread : Program.parse found with
  | ok again =>
    rw [reread] at same
    cases same
  | error fault =>
    rw [reread] at same
    have stopped : strandedFault = fault.moved fun _ => .nowhere := Except.error.inj same
    cases fault with
    | parse cause token =>
      obtain ⟨rfl, place⟩ := Fault.parse.inj stopped
      refine ⟨found, token, scanned, Program.mem_of_parseWithin_eq_error reread, ?_, ?_⟩
      · exact (congrArg Token.kind place).symm
      · rw [parse, parseUnder, scanned]
        change (Program.parse found).bind _ = _
        rw [reread]
        rfl
    | _ => cases stopped

/-- The canonical text of a source is the layout of its program, unless the program is too deep. -/
theorem format_of_parse {text : String} (read : source.parse = .ok parsed)
    (laidOut : parsed.program.layout = .ok text) :
    source.format =
      if depthLimit < Stmt.depths parsed.program then .error .tooDeep else .ok text := by
  rw [format, read]
  change parsed.program.checkDepth.bind (fun _ => parsed.program.layout) = _
  rw [Program.checkDepth, laidOut]
  split <;> rfl

/-- Sources of the same program have the same canonical text. -/
theorem format_congr {other : Source} {again : Parsed} (read : source.parse = .ok parsed)
    (reread : other.parse = .ok again) (same : again.program.erased = parsed.program.erased) :
    other.format = source.format := by
  rw [format, format, read, reread]
  change again.program.checkDepth.bind (fun _ => again.program.layout) =
    parsed.program.checkDepth.bind (fun _ => parsed.program.layout)
  rw [Program.checkDepth, Program.checkDepth, Program.depths_congr same, Program.layout_congr same]

/-- What a test of a source's program says about a source that can be read. -/
theorem exists_of_map_parse {test : Program → Bool}
    (passed : (source.parse.map fun parsed => test parsed.program).toOption = some true) :
    ∃ parsed, source.parse = .ok parsed ∧ test parsed.program = true := by
  cases read : source.parse with
  | error fault =>
    rw [read] at passed
    cases passed
  | ok parsed =>
    rw [read] at passed
    exact ⟨parsed, rfl, Option.some.inj passed⟩

/-- The canonical text of a source can be read exactly if the program strands no `else`. If it can
be read, it is the same program, and it is its own canonical text. -/
theorem format_readable_iff (read : source.parse = .ok parsed) :
    ∃ text, source.format =
        (if depthLimit < Stmt.depths parsed.program then .error .tooDeep else .ok text) ∧
      ∀ file,
        ((∃ again, (Source.mk text file).parse = .ok again) ↔
          parsed.program.strandsElse = false) ∧
        ∀ again, (Source.mk text file).parse = .ok again →
          again.program.erased = parsed.program.erased ∧
            (Source.mk text file).format = source.format := by
  obtain ⟨tokens, scanned, derived⟩ := exists_of_parse read
  obtain ⟨text, laidOut, written⟩ := exists_layout derived scanned
  refine ⟨text, format_of_parse read laidOut, fun file => ?_⟩
  cases stranded : parsed.program.strandsElse with
  | false =>
    obtain ⟨again, reread, same⟩ := parse_layout file derived written stranded
    refine ⟨⟨fun _ => rfl, fun _ => ⟨again, reread⟩⟩, fun other otherRead => ?_⟩
    obtain rfl : again = other := Except.ok.inj (reread.symm.trans otherRead)
    exact ⟨same, format_congr read reread same⟩
  | true =>
    obtain ⟨_, token, _, _, _, refused⟩ :=
      parse_layout_of_strandsElse file derived written stranded
    have unreadable : ∀ again, (Source.mk text file).parse ≠ .ok again := by
      intro again reread
      rw [refused] at reread
      cases reread
    refine ⟨⟨fun ⟨again, reread⟩ => absurd reread (unreadable again), nofun⟩, ?_⟩
    exact fun again reread => absurd reread (unreadable again)

/-- In the canonical text of this source the `else` stands behind a bare `&` and has no `if`, so the
text is refused although the source is read. -/
theorem format_readable_iff_stranded :
    ∃ text, (Source.mk "if—a— &\nelse b" "").format = .ok text ∧
      ¬ ∃ again, (Source.mk text "").parse = .ok again := by
  obtain ⟨parsed, read, stranded⟩ :=
    @exists_of_map_parse ⟨"if—a— &\nelse b", ""⟩ (·.strandsElse) (by decide +kernel)
  obtain ⟨again, reread, shallow⟩ :=
    @exists_of_map_parse ⟨"if—a— &\nelse b", ""⟩ (decide <| Stmt.depths · ≤ depthLimit)
      (by decide +kernel)
  obtain rfl : parsed = again := Except.ok.inj (read.symm.trans reread)
  obtain ⟨text, formatted, readable⟩ := format_readable_iff read
  rw [if_neg (Nat.not_lt_of_le (of_decide_eq_true shallow))] at formatted
  refine ⟨text, formatted, fun accepted => ?_⟩
  have safe := (readable "").1.mp accepted
  rw [safe] at stranded
  cases stranded

/-- The canonical text of a source that strands no `else` is read as the same program and is its
own canonical text. Where the source strands one, reading the canonical text stops with PAR001 at an
`else`. -/
theorem format_limit (read : source.parse = .ok parsed) :
    ∃ text, source.format =
        (if depthLimit < Stmt.depths parsed.program then .error .tooDeep else .ok text) ∧
      ∀ file,
        (parsed.program.strandsElse = false →
          ∃ again, (Source.mk text file).parse = .ok again ∧
            again.program.erased = parsed.program.erased ∧
            (Source.mk text file).format = source.format) ∧
        (parsed.program.strandsElse = true →
          ∃ tokens token fault diagnostic,
            (Source.mk text file).scan = .ok tokens ∧ token ∈ tokens ∧ token.kind = .elseWord ∧
            (Source.mk text file).parse = .error fault ∧ fault.diagnostic? = some diagnostic ∧
            diagnostic.stage = .parse ∧ diagnostic.code = "PAR001" ∧
            diagnostic.span = some token.span) := by
  obtain ⟨tokens, scanned, derived⟩ := exists_of_parse read
  obtain ⟨text, laidOut, written⟩ := exists_layout derived scanned
  refine ⟨text, format_of_parse read laidOut, fun file => ⟨fun safe => ?_, fun stranded => ?_⟩⟩
  · obtain ⟨again, reread, same⟩ := parse_layout file derived written safe
    exact ⟨again, reread, same, format_congr read reread same⟩
  · obtain ⟨found, token, rescanned, mem, kind, refused⟩ :=
      parse_layout_of_strandsElse file derived written stranded
    exact ⟨found, token, _, _, rescanned, mem, kind, refused, rfl, rfl, rfl, rfl⟩

/-- The return in front of this `else` is inside of a block, so the source strands none and comes
back from its canonical text. -/
theorem format_limit_nested :
    ∃ text parsed again,
      (Source.mk "to f—x—:\nif—x— :\n& x . else &\n.\nf—“a”—" "").parse = .ok parsed ∧
      (Source.mk text "").parse = .ok again ∧ again.program.erased = parsed.program.erased := by
  obtain ⟨parsed, read, safe⟩ :=
    @exists_of_map_parse ⟨"to f—x—:\nif—x— :\n& x . else &\n.\nf—“a”—", ""⟩
      (! ·.strandsElse) (by decide +kernel)
  obtain ⟨text, _, limit⟩ := format_limit read
  obtain ⟨again, reread, same, _⟩ := (limit "").1 (by simpa using safe)
  exact ⟨text, parsed, again, read, reread, same⟩

end Source

end Marginalia
