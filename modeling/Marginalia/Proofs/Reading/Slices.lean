import Marginalia.Proofs.Reading.Parts
import Marginalia.Proofs.Reading.Places
import Marginalia.Proofs.Running.Outcomes
import Marginalia.Proofs.Scanning.Tiling

/-!
# The text of a statement

The span of a statement cuts out of the text just what the statement was read from. Read by itself,
that piece of text is this statement again, but for its places, and nothing else: the tokens of the
piece are those of the statement (`Stands.written_within`), and these derive it with nothing behind
them. The spans of the statements in one place are in order, and inside the span of the statement
around them.
-/

namespace Marginalia

variable {file : String} {text : List Char} {front part behind body : List Token} {span : Span}

theorem Sections.within_cut_append {before taken rest : List Char}
    (first : span.start = Position.origin.afterAll before)
    (last : span.stop = Position.origin.afterAll (before ++ taken)) :
    (Sections.cut (before ++ taken ++ rest) span).within = taken := by
  change slice _ (reach _ span.start.index) (reach _ span.stop.index) = taken
  rw [first, last, Position.index_origin_afterAll, Position.index_origin_afterAll, reach_natCast,
    reach_natCast, slice, List.take_left, List.drop_left]

/-- A part of the tokens of a text is what the piece of the text is written in that they frame. -/
theorem Stands.written_within (stands : Stands file [] .origin body text)
    (split : body = front ++ part ++ behind) (whole : Whole front) (frames : Frames part span) :
    Written (part.map Token.erased) (Sections.cut text span).within := by
  rw [List.append_assoc] at split
  obtain ⟨before, gaps, rest, rfl, cut⟩ := stands.exists_cut split whole
  obtain ⟨taken, blanks, others, rfl, inner⟩ := cut.right.exists_cut rfl frames.whole
  obtain ⟨first, later, rfl, begins⟩ := frames.begins
  obtain ⟨earlier, last, ends, _, stops⟩ := frames.ends
  have start : first.span.start = Position.origin.afterAll (before ++ gaps) := cut.start
  have stop : last.span.stop = Position.origin.afterAll (before ++ gaps ++ taken) := by
    rw [Position.afterAll_append _ (before ++ gaps)]
    apply inner.stop
    rw [ends, List.getLast?_concat]
    rfl
  have within : (Sections.cut (before ++ gaps ++ (taken ++ blanks ++ others)) span).within =
      taken := by
    have cutOut := @Sections.within_cut_append span (before ++ gaps) taken (blanks ++ others)
      (begins.trans start) (stops.trans stop)
    rwa [List.append_assoc, ← List.append_assoc taken] at cutOut
  rw [within]
  exact inner.left.written

namespace Source

variable {limits : Limits} {source : Source} {parsed : Parsed} {statement : Stmt}

/-- The text that a span cuts out of a source. -/
def cutOut (source : Source) (span : Span) : String :=
  String.ofList (Sections.cut source.text.toList span).within

/-- A text that is written in the tokens of a statement is read as this statement. -/
theorem exists_reread (covers : Covers part statement) (nearest : statement.NearestElse)
    (fits : statement.lineNesting ≤ limits.depth) (inside : ∀ token ∈ part, token.kind ≠ .textEnd)
    (written : Written (part.map Token.erased) text) (file : String) :
    ∃ again, (Source.mk (String.ofList text) file).parseUnder limits = .ok again ∧
      again.program.erased = [statement.erased] := by
  have one : Program.nesting [statement] ≤ limits.depth :=
    Stmt.linesNesting_le_iff.mpr (List.forall_mem_singleton.mpr fits)
  have alone : Program.parseWithin limits.depth (part ++ [endSign]) = .ok [statement] :=
    (Program.parseWithin_iff_derives inside (show endSign.kind = .textEnd from rfl)).mpr
      ⟨.cons covers.derived .nil, ⟨nearest, trivial⟩, one⟩
  obtain ⟨tokens, scanned, places⟩ := scan_of_written file written
  -- Both lists of tokens are read alike, since the reader does not look at places.
  have same : (part ++ [endSign]).map Token.erased = tokens.map Token.erased := by
    rw [places, List.map_append]
    rfl
  have erased := Program.parseWithin_moved joins_nowhere limits.depth (part ++ [endSign])
  have erasedAgain := Program.parseWithin_moved joins_nowhere limits.depth tokens
  change Program.parseWithin _ ((part ++ [endSign]).map Token.erased) = _ at erased
  change Program.parseWithin _ (tokens.map Token.erased) = _ at erasedAgain
  rw [← same, erased, alone] at erasedAgain
  cases reread : Program.parseWithin limits.depth tokens with
  | error fault =>
    rw [reread] at erasedAgain
    cases erasedAgain
  | ok program =>
    rw [reread] at erasedAgain
    refine ⟨⟨tokens, program⟩, parseUnder_eq_ok_iff.mpr ⟨?_, reread⟩, ?_⟩
    · rwa [Source.scan, String.toList_ofList]
    · exact (Except.ok.inj erasedAgain).symm

/-- The tokens of a source, but for the end of the text, with their places, and what the grammar
derives from them. -/
theorem exists_stands_of_parseUnder (read : source.parseUnder limits = .ok parsed) :
    ∃ body, Stands source.file [] .origin body source.text.toList ∧
      (∀ token ∈ body, token.kind ≠ .textEnd) ∧ InOrder body ∧
      Derives body parsed.program ∧ parsed.program.NearestElse ∧
      parsed.program.nesting ≤ limits.depth := by
  obtain ⟨scanned, programRead⟩ := parseUnder_eq_ok_iff.mp read
  obtain ⟨body, stands, whole⟩ := scan_eq_ok_iff.mp scanned
  have tiles := scan_tiles scanned
  have inside : ∀ token ∈ body, token.kind ≠ .textEnd := fun token mem =>
    stands.written.kind_ne_textEnd token.erased (List.mem_map_of_mem mem)
  rw [whole] at programRead tiles
  have order : InOrder (body ++ _) :=
    ⟨tiles.ordered, fun token mem => (tiles.lexemes token mem).1⟩
  refine ⟨body, stands, inside, order.sublist (List.sublist_append_left _ _), ?_⟩
  exact (Program.parseWithin_iff_derives inside rfl).mp programRead

/-- The text of a statement, at whatever depth, is read as this statement and no other. The
statements at the top and those in one statement are in order and do not overlap, and each lies
inside the statement around it. -/
theorem statements_reread (read : source.parseUnder limits = .ok parsed) :
    (∀ statement, parsed.program.Has statement → ∀ file, ∃ again,
      (Source.mk (source.cutOut statement.span) file).parseUnder limits = .ok again ∧
        again.program.erased = [statement.erased]) ∧
    (parsed.program.Pairwise fun earlier later =>
      earlier.span.stop.index ≤ later.span.start.index) ∧
    ∀ statement, parsed.program.Has statement →
      (statement.children.Pairwise fun earlier later =>
        earlier.span.stop.index ≤ later.span.start.index) ∧
      ∀ child ∈ statement.children, statement.span.start.index ≤ child.span.start.index ∧
        child.span.stop.index ≤ statement.span.stop.index := by
  obtain ⟨body, stands, inside, order, derives, nearest, fits⟩ := exists_stands_of_parseUnder read
  refine ⟨?_, (spread_of_lines derives).pairwise order, ?_⟩
  · intro statement has file
    obtain ⟨front, part, behind, rfl, whole, covers⟩ := derives.exists_part has
    have written := stands.written_within rfl whole covers.frames
    have partInside : ∀ token ∈ part, token.kind ≠ .textEnd := fun token mem =>
      inside token (by simp [mem])
    exact exists_reread covers (has.nearestElse nearest) (Nat.le_trans has.lineNesting_le fits)
      partInside written file
  · intro statement has
    obtain ⟨front, part, behind, rfl, _, covers⟩ := derives.exists_part has
    apply covers.children_inside (order.sublist _)
    rw [List.append_assoc]
    exact (List.sublist_append_left part behind).trans (List.sublist_append_right front _)

/-- The first statement inside those at the top, found by a test of all of them. -/
theorem exists_child_of_test {β : Type} {test : Stmt → β} {first : β} {others : List β}
    (tested : ((source.parseUnder limits).map fun parsed =>
      (parsed.program.flatMap Stmt.children).map test).toOption = some (first :: others)) :
    ∃ parsed statement, source.parseUnder limits = .ok parsed ∧ parsed.program.Has statement ∧
      test statement = first := by
  cases read : source.parseUnder limits with
  | error fault =>
    rw [read] at tested
    cases tested
  | ok parsed =>
    rw [read] at tested
    obtain ⟨statement, rest, children, same, _⟩ := List.map_eq_cons_iff.mp (Option.some.inj tested)
    have mem : statement ∈ parsed.program.flatMap Stmt.children := by
      rw [children]
      exact List.mem_cons_self
    obtain ⟨outer, top, inside⟩ := List.mem_flatMap.mp mem
    exact ⟨parsed, statement, rfl, .inner (.top top) inside, same⟩

/-- In the text the return stands at the end of its line, and by itself at the end of the text. -/
theorem statements_reread_return :
    ∃ parsed statement,
      (Source.mk "to f—x—: &\n†a\n.\nif—b— c\nelse : d." "").parseUnder .standard = .ok parsed ∧
      parsed.program.Has statement ∧
      (Source.mk "to f—x—: &\n†a\n.\nif—b— c\nelse : d." "").cutOut statement.span = "&" ∧
      ∃ again, (Source.mk "&" "").parseUnder .standard = .ok again ∧
        again.program.erased = [statement.erased] := by
  have texts : (((Source.mk "to f—x—: &\n†a\n.\nif—b— c\nelse : d." "").parseUnder .standard).map
      fun parsed => (parsed.program.flatMap Stmt.children).map fun child =>
        (Source.mk "to f—x—: &\n†a\n.\nif—b— c\nelse : d." "").cutOut child.span).toOption =
      some ["&", "†a", "c", ": d."] := by
    decide +kernel
  obtain ⟨parsed, statement, read, has, same⟩ := exists_child_of_test texts
  refine ⟨parsed, statement, read, has, same, ?_⟩
  rw [← same]
  exact (statements_reread read).1 statement has ""

end Source

end Marginalia
