import Marginalia.Proofs.Layout.RoundTrip
import Marginalia.Proofs.Reading.Followed
import Marginalia.Proofs.Scanning.Joined

/-!
# Reading two sources with a line feed between them

Nothing that one source begins reaches over a line feed into the next one: not a word or a
remark, and, if the second source can be read by itself, not a condition that waits for an
`else` either. So two sources can be read one by one or together (`Source.parse_joined`); what
belongs to the second is then further down, and otherwise nothing changes.
-/

namespace Marginalia

theorem Program.nesting_append (program other : Program) :
    nesting (program ++ other) = max program.nesting other.nesting := by
  change Stmt.linesNesting (program ++ other) =
    max (Stmt.linesNesting program) (Stmt.linesNesting other)
  induction program with
  | nil => exact (Nat.zero_max _).symm
  | cons statement rest ih =>
    rw [List.cons_append, Stmt.linesNesting, Stmt.linesNesting, ih, Nat.max_assoc]

theorem Program.NearestElse.append {program other : Program} (first : program.NearestElse)
    (second : other.NearestElse) : Program.NearestElse (program ++ other) := by
  refine Stmt.allNearestElse_iff.mpr fun statement mem => ?_
  rcases List.mem_append.mp mem with early | late
  · exact Stmt.allNearestElse_iff.mp first statement early
  · exact Stmt.allNearestElse_iff.mp second statement late

/-- Two programs with a line end between them are read as one. -/
theorem Program.parse_append_lineEnd {body others : List Token} {final last lineEnd : Token}
    {program other : Program} (inside : ∀ token ∈ body, token.kind ≠ .textEnd)
    (ends : final.kind = .textEnd) (kind : lineEnd.kind = .lineEnd)
    (otherInside : ∀ token ∈ others, token.kind ≠ .textEnd) (otherEnds : last.kind = .textEnd)
    (first : Program.parse (body ++ [final]) = .ok program)
    (second : Program.parse (others ++ [last]) = .ok other) :
    Program.parse (body ++ lineEnd :: (others ++ [last])) = .ok (program ++ other) := by
  obtain ⟨derives, nearest, fits⟩ := (Program.parseWithin_iff_derives inside ends).mp first
  obtain ⟨otherDerives, otherNearest, otherFits⟩ :=
    (Program.parseWithin_iff_derives otherInside otherEnds).mp second
  have allInside : ∀ token ∈ body ++ lineEnd :: others, token.kind ≠ .textEnd := by
    intro token mem
    rcases List.mem_append.mp mem with early | late
    · exact inside token early
    rcases List.mem_cons.mp late with rfl | later
    · rw [kind]
      decide
    · exact otherInside token later
  have allFits : Program.nesting (program ++ other) ≤ depthLimit := by
    rw [Program.nesting_append]
    omega
  have both : Program.parse ((body ++ lineEnd :: others) ++ [last]) = .ok (program ++ other) :=
    (Program.parseWithin_iff_derives allInside otherEnds).mpr
      ⟨derives.append kind otherDerives, nearest.append otherNearest, allFits⟩
  rwa [List.append_assoc, List.cons_append] at both

/-- What is read from some tokens is read from them elsewhere. -/
theorem Program.parse_moved_of_ok {move : Span → Span} (joins : Joins move) {tokens : List Token}
    {program : Program} (read : Program.parse tokens = .ok program) :
    Program.parse (tokens.map (Token.moved move)) = .ok (program.map (Stmt.moved move)) := by
  have elsewhere := Program.parseWithin_moved joins depthLimit tokens
  rwa [show Program.parseWithin depthLimit tokens = .ok program from read] at elsewhere

namespace Source

variable {file above : String} {tokens : List Token}

/-- The tokens of a source are those of its text and, behind them, the end of the text. -/
theorem exists_inside_of_scan {source : Source} (scanned : source.scan = .ok tokens) :
    ∃ body final, tokens = body ++ [final] ∧ final.kind = .textEnd ∧
      ∀ token ∈ body, token.kind ≠ .textEnd := by
  obtain ⟨body, final, whole, ends, written⟩ := exists_of_scan scanned
  exact ⟨body, final, whole, ends, fun token mem =>
    written.kind_ne_textEnd token.erased (List.mem_map_of_mem mem)⟩

theorem scan_joined (scanned : (Source.mk above file).scan = .ok tokens) (text : String) :
    (Source.mk (above ++ "\n" ++ text) file).scan =
      match (Source.mk text file).scan with
      | .ok others => .ok (tokens.dropLast ++ lineEndBelow file above.toList ::
          others.map (Token.moved (Span.below above.toList)))
      | .error fault => .error (fault.moved (Span.below above.toList)) := by
  have chars : (above ++ "\n" ++ text).toList = above.toList ++ '\n' :: text.toList := by
    rw [String.toList_append, String.toList_append, List.append_assoc]
    rfl
  rw [Source.scan, chars]
  exact scan_append_lineFeed scanned text.toList

/-- Two texts with a line feed between them have the tokens of both, those of the second further
down, and a line end between. If both texts can be read, the program of the two is that of
the first and, further down, that of the second. -/
theorem parse_joined (file above text : String) :
    (∀ first second, (Source.mk above file).parse = .ok first →
      (Source.mk text file).parse = .ok second →
      ∃ both, (Source.mk (above ++ "\n" ++ text) file).parse = .ok both ∧
        both.program =
          first.program ++ second.program.map (Stmt.moved (Span.below above.toList))) ∧
    (∀ tokens, (Source.mk above file).scan = .ok tokens →
      ∃ body final, tokens = body ++ [final] ∧ final.kind = .textEnd ∧
        (Source.mk (above ++ "\n" ++ text) file).scan =
          match (Source.mk text file).scan with
          | .ok others => .ok (body ++ lineEndBelow file above.toList ::
              others.map (Token.moved (Span.below above.toList)))
          | .error fault => .error (fault.moved (Span.below above.toList))) := by
  refine ⟨fun first second firstRead secondRead => ?_, fun tokens scanned => ?_⟩
  · obtain ⟨firstScanned, firstProgram⟩ := parse_eq_ok_iff.mp firstRead
    obtain ⟨secondScanned, secondProgram⟩ := parse_eq_ok_iff.mp secondRead
    have joined := scan_joined firstScanned text
    obtain ⟨body, final, whole, ends, inside⟩ := exists_inside_of_scan firstScanned
    obtain ⟨others, last, otherWhole, otherEnds, otherInside⟩ :=
      exists_inside_of_scan secondScanned
    rw [whole] at firstProgram
    rw [secondScanned, whole, List.dropLast_concat] at joined
    have further := Program.parse_moved_of_ok (joins_below above.toList) secondProgram
    rw [otherWhole, List.map_append] at further
    have movedInside : ∀ token ∈ others.map (Token.moved (Span.below above.toList)),
        token.kind ≠ .textEnd := by
      intro token mem
      obtain ⟨origin, inOthers, rfl⟩ := List.mem_map.mp mem
      exact otherInside origin inOthers
    have kind : (lineEndBelow file above.toList).kind = .lineEnd := rfl
    have together : Program.parse (body ++ lineEndBelow file above.toList ::
        second.tokens.map (Token.moved (Span.below above.toList))) =
        .ok (first.program ++ second.program.map (Stmt.moved (Span.below above.toList))) := by
      rw [otherWhole, List.map_append]
      exact Program.parse_append_lineEnd inside ends kind movedInside otherEnds firstProgram further
    exact ⟨⟨_, _⟩, parse_eq_ok_iff.mpr ⟨joined, together⟩, rfl⟩
  · obtain ⟨body, final, whole, ends, _⟩ := exists_inside_of_scan scanned
    have joined := scan_joined scanned text
    rw [whole, List.dropLast_concat] at joined
    exact ⟨body, final, whole, ends, joined⟩

/-- The first text ends in a return without a value, and the second one begins with a remark. -/
theorem parse_joined_return :
    ∃ first second both, (Source.mk "if—a— &" "page").parse = .ok first ∧
      (Source.mk "† b\nc" "page").parse = .ok second ∧
      (Source.mk ("if—a— &" ++ "\n" ++ "† b\nc") "page").parse = .ok both ∧
      both.program.length = 3 ∧ both.program =
        first.program ++ second.program.map (Stmt.moved (Span.below "if—a— &".toList)) := by
  have firstLength :
      (Source.mk "if—a— &" "page").parse.toOption.map (·.program.length) = some 1 := by
    decide +kernel
  have secondLength :
      (Source.mk "† b\nc" "page").parse.toOption.map (·.program.length) = some 2 := by
    decide +kernel
  cases firstRead : (Source.mk "if—a— &" "page").parse with
  | error fault =>
    rw [firstRead] at firstLength
    cases firstLength
  | ok first =>
    cases secondRead : (Source.mk "† b\nc" "page").parse with
    | error fault =>
      rw [secondRead] at secondLength
      cases secondLength
    | ok second =>
      rw [firstRead] at firstLength
      rw [secondRead] at secondLength
      obtain ⟨both, read, program⟩ :=
        (parse_joined "page" "if—a— &" "† b\nc").1 first second firstRead secondRead
      refine ⟨first, second, both, rfl, rfl, read, ?_, program⟩
      have one : first.program.length = 1 := Option.some.inj firstLength
      have two : second.program.length = 2 := Option.some.inj secondLength
      rw [program, List.length_append, List.length_map, one, two]

end Source

end Marginalia
