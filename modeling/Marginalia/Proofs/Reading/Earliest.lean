import Marginalia.Proofs.Reading.Begins
import Marginalia.Proofs.Reading.Blame

/-!
# Faults are found at the earliest token

The reader stops at the first token that cannot go on what was read before it: no text
that begins like this is a program, however it goes on behind that token, while the tokens
before it do begin a program. Too long a list is again the exception, and a reader that gives
up has been given many tokens (`Program.parseWithin_earliest`).

Statements need two things that expressions do not. Their beginnings are completed
before a line end only, because of returns without a value (`AtLineEnd`), and they look past
the line ends for an `else`. `GuidedLine` is `Guided` with these changes.
-/

namespace Marginalia

open Grammar (Phrase Listed Name LineEnds Lines BodyRule)
open Marginalia.Derivation (Expression Condition Statement Declaration Detaches Anything StandsFor)

theorem AtLineEnd.append {after lineEnds : List Token} (ended : AtLineEnd after)
    (all : LineEnds lineEnds) : AtLineEnd (lineEnds ++ after) := by
  cases lineEnds with
  | nil => exact ended
  | cons token lineEnds =>
    have kind : token.kind = .lineEnd := all token List.mem_cons_self
    rw [AtLineEnd, List.cons_append, nextKind_cons, kind]
    decide

/-- A token that ends no line shows what stands past the line ends. -/
theorem Look.fixed_line {taken : List Token} {found : Token}
    (plain : nextKind (taken ++ [found]) ≠ .lineEnd) : Look.line.Fixed (taken ++ [found]) := by
  cases taken with
  | nil => exact ⟨found, List.mem_cons_self, plain⟩
  | cons token taken => exact ⟨token, List.mem_cons_self, plain⟩

namespace Parser

/-- The reader reads phrases of the form, and is stuck only where the tokens begin one that
ends at the end of a line. -/
structure GuidedLine (need : Nat) (x : Parser Stmt) (form : Phrase Stmt) : Prop where
  sound : ∀ ⦃final : Token⦄, final.kind = .textEnd → Sound final x form
  detaches : Detaches StandsFor form
  shrinks : ∀ ⦃final : Token⦄, final.kind = .textEnd → ∀ ⦃before : List Token⦄ ⦃statement : Stmt⦄
    ⦃after : List Token⦄, x.run ⟨before, final⟩ = .ok (statement, ⟨after, final⟩) →
    after.length < before.length
  decided : ∀ ⦃before : List Token⦄ ⦃final : Token⦄, final.kind = .textEnd →
    Decided need .line (hopeFor AtLineEnd form) x before final

variable {need depth : Nat} {form : Phrase Stmt} {x : Parser Stmt} {stops : List TokenKind}
  {before : List Token} {final : Token}

theorem GuidedLine.detaches_lines (guided : GuidedLine need x form) :
    Detaches StandsFor (Lines form) :=
  fun _ _ _ read => Derivation.detached_lines (fun _ _ _ read _ => guided.detaches read) read
    (Nat.le_refl _)

theorem GuidedLine.sound_lines (guided : GuidedLine need x form) (ends : final.kind = .textEnd) :
    Sound final (lines stops x) (Lines form) := by
  intro before statements last run
  obtain ⟨after, same, read, _⟩ := Parser.sound_lines ends (guided.sound ends) run
  exact ⟨after, same, read⟩

/-! ## Lines -/

section Lines

theorem shrinks_moreLines_of_guided (guided : GuidedLine need x form)
    (ends : final.kind = .textEnd) : Shrinks final (moreLines stops x) := by
  intro latestFirst rest next last run
  rw [moreLines, run_bind_of_ok (run_skipLineEnds ends rest), run_bind_of_ok (run_peek _)] at run
  split at run
  next => cases run
  next =>
    obtain ⟨statement, middle, itemRun, done⟩ := exists_of_run_bind run
    obtain ⟨after, rfl, _⟩ := guided.sound ends itemRun
    cases done
    obtain ⟨skipped, _, whole⟩ := Grammar.exists_append_pastLineEnds rest
    have length := congrArg List.length whole
    have shorter := guided.shrinks ends itemRun
    rw [List.length_append] at length
    exact ⟨after, rfl, by omega⟩

variable {latestFirst : List Stmt} {done rest : List Token}

/-- The lines so far are lines, whatever stands in place of the rest. -/
def LinesSoFar (form : Phrase Stmt) (latestFirst : List Stmt) (done rest : List Token) : Prop :=
  ∀ others, StandsFor rest others → Lines form (done ++ others) latestFirst.reverse others

theorem lines_of_lineEnds {lineEnds : List Token} (all : LineEnds lineEnds)
    (after : List Token) : Lines form (lineEnds ++ after) [] after := by
  induction lineEnds with
  | nil => exact .nil
  | cons token lineEnds ih =>
    refine .lineEnd (all token List.mem_cons_self) (ih fun other mem => ?_)
    exact all other (List.mem_cons_of_mem _ mem)

/-- A beginning of a line behind the lines so far begins lines. -/
theorem LinesSoFar.begins {lineEnds taken behind : List Token} {found : Token}
    (soFar : LinesSoFar form latestFirst done (lineEnds ++ behind)) (all : LineEnds lineEnds)
    (shown : taken ++ [found] <+: behind ++ [final]) (begins : Begins AtLineEnd form taken) :
    Begins AtLineEnd (Lines form) (done ++ (lineEnds ++ taken)) := by
  have skipped : ∀ others, StandsFor (lineEnds ++ behind) (lineEnds ++ others) →
      Lines form (done ++ (lineEnds ++ others)) latestFirst.reverse others := by
    intro others stands
    have both := Grammar.lines_append (soFar _ stands) (lines_of_lineEnds all others)
    rwa [List.append_nil] at both
  cases taken with
  | nil =>
    -- nothing of the line is there yet: it is left out
    refine ⟨[], latestFirst.reverse, fun _ mem => absurd mem List.not_mem_nil,
      fun after ended => ?_⟩
    rw [List.append_nil, List.append_assoc]
    exact skipped after (.inr (ended.append all))
  | cons token taken =>
    obtain ⟨rest, rfl, _⟩ := exists_of_shown_append (List.cons_ne_nil found []) shown
    refine begins.extend (done ++ lineEnds) [] (List.append_assoc _ _ _).symm nofun ?_
    intro phrase statement starts read
    obtain ⟨more, rfl⟩ := starts
    refine ⟨latestFirst.reverse ++ [statement], fun after ended => ?_⟩
    have stands : StandsFor (token :: taken ++ rest) (token :: taken ++ more ++ after) := .inl rfl
    rw [List.append_assoc]
    exact Grammar.lines_append (skipped _ (stands.append lineEnds)) (.cons (read after ended) .nil)

/-- After the statements that were read so far, whether another one follows is decided by what was
seen, up to the token that ends the line. -/
theorem decided_moreLines (guided : GuidedLine need x form) (ends : final.kind = .textEnd)
    (soFar : LinesSoFar form latestFirst done rest) :
    Decided need .line (fun cause more found => Look.line.Fixed (more ++ [found]) ∧
      hopeFor AtLineEnd (Lines form) cause (done ++ more) found)
      (moreLines stops x latestFirst) rest final := by
  obtain ⟨lineEnds, all, whole⟩ := Grammar.exists_append_pastLineEnds rest
  have plain := nextKind_pastLineEnds_ne rest
  generalize pastLineEnds rest = behind at whole plain
  subst whole
  refine .skipLineEnds ends all plain (.peek ends (fun seen other same => by rw [same]) ?_)
  split
  next => exact decided_pure _ behind
  next =>
    refine Decided.map ends ((guided.decided ends).mono (Nat.le_refl _) ?_)
      fun _ _ _ known => known
    intro cause taken found shown hope
    refine ⟨?_, fun few => soFar.begins all shown (hope few)⟩
    rw [List.append_assoc]
    refine Look.Fixed.append (Look.fixed_line ?_) lineEnds
    rw [← Look.nextKind_of_shown ends (List.append_ne_nil_of_right_ne_nil _ (List.cons_ne_nil _ _))
      shown]
    exact plain

/-- So it is for all statements up to what stops them. -/
theorem decided_lines (guided : GuidedLine need x form) (ends : final.kind = .textEnd) :
    Decided need .line (hopeFor AtLineEnd (Lines form)) (lines stops x) before final := by
  have start : LinesSoFar form [] [] before := fun others _ => .nil
  have shrinks : ∀ ⦃last : Token⦄, last.kind = .textEnd → Shrinks last (moreLines stops x) :=
    fun _ lastEnds => shrinks_moreLines_of_guided guided lastEnds
  have decided := Decided.repeatFrom ends (LinesSoFar form) shrinks
    (fun latestFirst done rest soFar => decided_moreLines guided ends soFar) ?_ start
  · exact decided.mono (Nat.le_refl _) fun _ _ _ _ known => known.2
  intro latestFirst done rest next taken after soFar whole run others stands
  rcases of_run_moreLines ends (guided.sound ends) run with
    ⟨statement, last, read, _, same, result⟩ | ⟨_, stopped, _⟩
  · cases same
    cases result
    obtain ⟨own, past, free⟩ := guided.detaches read
    obtain ⟨lineEnds, all, split⟩ := Grammar.exists_append_pastLineEnds rest
    have whole : taken = lineEnds ++ own :=
      List.append_cancel_right (by rw [← whole, split, past, List.append_assoc])
    rw [split, past, ← List.append_assoc] at soFar
    have early := soFar _ (stands.append (lineEnds ++ own))
    have late : Lines form (lineEnds ++ own ++ others) [statement] others := by
      rw [List.append_assoc]
      exact Grammar.lines_append (lines_of_lineEnds all _) (.cons (free others stands) .nil)
    rw [whole, List.append_assoc, List.reverse_cons]
    exact Grammar.lines_append early late
  · cases stopped

/-- The dot of a block stands before anything. -/
theorem detaches_bodyRule (detaches : Detaches StandsFor (Lines form)) :
    Detaches Anything (BodyRule form) := by
  intro before inside after read
  cases read with
  | @intro _ _ statements dot read kind =>
    obtain ⟨taken, rfl, free⟩ := detaches read
    refine ⟨taken ++ [dot], by simp, fun others _ => ?_⟩
    rw [List.append_assoc]
    exact .intro (free (dot :: others) (.inl rfl)) kind

/-- A block is read, and the reader is stuck only inside of it or where its end is missing. -/
theorem guided_block (guided : GuidedLine need x form) :
    Guided need (block x) (BodyRule form) where
  sound _ ends := sound_block ends (guided.sound ends)
  detaches := detaches_bodyRule guided.detaches_lines
  decided before final ends := by
    have stop : ∀ kind ∈ [TokenKind.dot, .textEnd], kind ≠ .lineEnd := by decide
    have lines : Decided need .next (hopeFor AtLineEnd (Lines form)) (lines [.dot, .textEnd] x)
        before final := by
      refine (decided_lines guided ends).of_line ends fun statements after run => ?_
      obtain ⟨_, same, _, mem⟩ := sound_lines ends (guided.sound ends) run
      cases same
      exact stop _ mem
    have dotEnds : ∀ after, AtLineEnd (filler .dot :: after) :=
      fun _ => (by decide : TokenKind.dot ∈ returnStops)
    refine lines.next ends (fun cause taken found hope few => ?_) ?_
    · exact (hope few).extend [] [.dot] rfl (by decide) fun phrase statements _ read =>
        ⟨(statements, filler .dot), fun after _ => .intro (read _ (dotEnds after)) rfl⟩
    · intro statements taken middle whole run
      refine .expect ends (by decide) (fun found _ _ _ => ?_)
        fun closing rest _ _ => decided_pure _ rest
      rw [List.append_nil]
      have linesRead := free_of_run (guided.sound_lines ends) guided.detaches_lines whole run
      exact begins_of_fillers [.dot] (by decide) fun after _ =>
        .intro (linesRead _ (.inr (dotEnds after))) rfl

end Lines

/-! ## Statements -/

/-- The statement of a name, for want of a better one. -/
def fillerStatement : Stmt :=
  Grammar.printed (.name (filler .name).span (filler .name))

theorem statement_filler (others : List Token) :
    Statement (filler .name :: others) fillerStatement others :=
  Derivation.statement_printed (.single (.single (.single (.operand (.primary (.name rfl))))))

section Statements

variable {token : Token} {rest : List Token}

theorem decided_expressionStatement (ends : final.kind = .textEnd) :
    Decided (depth + 1) .line (hopeFor AtLineEnd Statement) (expressionStatement depth) before
      final := by
  refine ((guided_expression depth).decided ends).next ends (fun cause taken found hope few => ?_)
    fun expr taken middle _ _ => ?_
  · exact (hope few).extend [] [] rfl nofun fun phrase expr _ read =>
      ⟨Grammar.printed expr, fun after _ => Derivation.statement_printed (read after trivial)⟩
  · split <;> exact decided_pure _ middle

theorem decided_giveBack (ends : final.kind = .textEnd) (kind : token.kind = .ampersand) :
    Decided (depth + 1) .line
      (fun cause more found => hopeFor AtLineEnd Statement cause (token :: more) found)
      (giveBack depth token) before final := by
  refine .peek ends (fun seen other same => by rw [same]) ?_
  split
  next => exact decided_pure _ before
  next =>
    refine Decided.bind ends ((guided_expression depth).decided ends)
      (fun _ _ same => same.nextKind_eq) ?_ fun value taken middle _ _ => decided_pure _ middle
    intro cause taken found hope few
    exact (hope few).extend [token] [] rfl nofun fun phrase value _ read =>
      ⟨_, fun after _ => .giveBack kind (read after trivial)⟩

theorem decided_loop (inner : GuidedLine depth (statement depth) Statement)
    (ends : final.kind = .textEnd) (kind : token.kind = .whileWord) :
    Decided (depth + 1) .line (hopeFor AtLineEnd Statement) (statement (depth + 1)) (token :: rest)
      final := by
  have tests := guided_condition depth .dashAfterWhile
  rw [statement]
  refine .peek ends (fun seen other same => by rw [same]) ?_
  rw [List.headD_cons, kind]
  refine Decided.less (Decided.take ?_) (by omega : depth + 1 ≤ depth + 3)
  refine ((tests.decided ends).less (Nat.le_succ depth)).next ends
    (fun cause taken found hope few => ?_) fun test tested middle whole run => ?_
  · exact (hope few).extend [token] [.name] rfl (by decide) fun phrase test _ read =>
      ⟨_, fun after _ => .loop kind (read _ trivial) (statement_filler after)⟩
  · have testRead := tests.free ends whole run
    refine (inner.decided ends).map ends fun cause taken found hope few => ?_
    exact (hope few).extend (token :: tested) [] List.cons_append.symm List.not_mem_nil
      fun phrase inside _ read => ⟨.loop (token.span.upTo inside.span) test inside,
        fun after ended => .loop kind (testRead _) (read after ended)⟩

/-- Behind a first branch the reader looks for an `else`, and for a second branch if there is
one. -/
theorem decided_branches (inner : GuidedLine depth (statement depth) Statement)
    (ends : final.kind = .textEnd) (kind : token.kind = .ifWord) :
    Decided (depth + 1) .line (hopeFor AtLineEnd Statement) (statement (depth + 1)) (token :: rest)
      final := by
  have tests := guided_condition depth .dashAfterIf
  rw [statement]
  refine .peek ends (fun seen other same => by rw [same]) ?_
  rw [List.headD_cons, kind]
  refine Decided.less (Decided.take ?_) (by omega : depth + 1 ≤ depth + 3)
  refine ((tests.decided ends).less (Nat.le_succ depth)).next ends
    (fun cause taken found hope few => ?_) fun test tested middle whole run => ?_
  · exact (hope few).extend [token] [.name] rfl (by decide) fun phrase test _ read =>
      ⟨_, fun after _ => .condition kind (read _ trivial) (statement_filler after)⟩
  have testRead := tests.free ends whole run
  refine (inner.decided ends).bind ends (fun _ _ same => same)
    (fun cause taken found hope few => ?_) fun yes first behind whole run => ?_
  · exact (hope few).extend (token :: tested) [] List.cons_append.symm List.not_mem_nil
      fun phrase yes _ read => ⟨.condition (token.span.upTo yes.span) test yes none,
        fun after ended => .condition kind (testRead _) (read after ended)⟩
  have yesRead := free_of_run (inner.sound ends) inner.detaches whole run
  refine .kindPastLineEnds ends ?_
  split
  next isElse =>
    obtain ⟨elseToken, others, past, elseKind⟩ := exists_of_nextKind isElse (by decide)
    obtain ⟨lineEnds, all, split⟩ := Grammar.exists_append_pastLineEnds behind
    rw [past] at split
    subst split
    have plain : elseToken.kind ≠ .lineEnd := by
      rw [elseKind]
      decide
    refine .skipLineEnds ends all plain (Decided.less (Decided.take ?_) (Nat.le_add_right depth 3))
    refine (inner.decided ends).map ends fun cause taken found hope => ?_
    have fixed : Look.line.Fixed (elseToken :: taken ++ [found]) := Look.fixed_line plain
    replace fixed := fixed.append lineEnds
    rw [← List.append_assoc] at fixed
    refine ⟨fixed, fixed, fun few => ?_⟩
    refine (hope few).extend (token :: tested ++ first ++ lineEnds ++ [elseToken]) [] (by simp)
      List.not_mem_nil ?_
    intro phrase no _ read
    refine ⟨.condition (token.span.upTo no.span) test yes (some no), fun after ended => ?_⟩
    have stands : StandsFor (elseToken :: others) (elseToken :: (phrase ++ after)) := .inl rfl
    replace stands := stands.append lineEnds
    simp only [List.append_assoc, List.cons_append, List.nil_append]
    exact .alternative kind (testRead _) (yesRead _ stands) all elseKind (read after ended)
  next => exact decided_pure _ behind

/-- The inside of a block with its dot. -/
abbrev Inside : Phrase (List Stmt × Token) :=
  BodyRule (Declaration true)

theorem decided_block (inside : Guided (depth - 2) (body depth) Inside)
    (ends : final.kind = .textEnd) (kind : token.kind = .colon) :
    Decided (depth + 1) .line (hopeFor AtLineEnd Statement) (statement (depth + 1)) (token :: rest)
      final := by
  rw [statement]
  refine .peek ends (fun seen other same => by rw [same]) ?_
  rw [List.headD_cons, kind]
  refine Decided.less (Decided.take ?_) (by omega : depth + 1 ≤ depth - 2 + 3)
  refine (inside.decided ends).next ends (fun cause taken found hope few => ?_)
    fun _ _ middle _ _ => decided_pure _ middle
  refine (hope few).extend [token] [] rfl List.not_mem_nil fun phrase inside _ read => ?_
  obtain ⟨statements, dot⟩ := inside
  refine ⟨.block (token.span.upTo dot.span) statements, fun after _ => ?_⟩
  cases read after trivial with
  | intro lines dotKind => exact .block kind lines dotKind

/-- What the reader comes to at a statement is decided by the tokens that it has seen, and one that
it refuses can be completed, as long as no token after it is looked at. -/
theorem decided_statement (inner : GuidedLine depth (statement depth) Statement)
    (inside : Guided (depth - 2) (body depth) Inside) (ends : final.kind = .textEnd) :
    Decided (depth + 1) .line (hopeFor AtLineEnd Statement) (statement (depth + 1)) before
      final := by
  cases kind : nextKind before with
  | ifWord =>
    obtain ⟨token, rest, rfl, kind⟩ := exists_of_nextKind kind (by decide)
    exact decided_branches inner ends kind
  | whileWord =>
    obtain ⟨token, rest, rfl, kind⟩ := exists_of_nextKind kind (by decide)
    exact decided_loop inner ends kind
  | colon =>
    obtain ⟨token, rest, rfl, kind⟩ := exists_of_nextKind kind (by decide)
    exact decided_block inside ends kind
  | ampersand =>
    obtain ⟨token, rest, rfl, same⟩ := exists_of_nextKind kind (by decide)
    rw [statement]
    refine .peek ends (fun seen other same => by rw [same]) ?_
    rw [kind_headD ends, kind]
    exact (Decided.take (decided_giveBack ends same)).less (Nat.le_add_right (depth + 1) 3)
  | _ =>
    rw [statement]
    refine .peek ends (fun seen other same => by rw [same]) ?_
    rw [kind_headD ends, kind]
    exact decided_expressionStatement ends

end Statements

/-! ## Declarations -/

section Declarations

variable {token : Token} {nested : Bool}

theorem decided_remark (ends : final.kind = .textEnd) (kind : token.kind = .dagger) :
    Decided need .line
      (fun cause more found => hopeFor AtLineEnd (Declaration nested) cause (token :: more) found)
      (remark token) before final := by
  refine .expect ends (by decide) (fun _ _ _ _ => ?_) fun text rest _ _ => decided_pure _ rest
  exact begins_of_fillers [.string] (by decide) fun _ _ => .remark kind rfl

theorem decided_directive (ends : final.kind = .textEnd) (kind : token.kind = .pound) :
    Decided need .line
      (fun cause more found => hopeFor AtLineEnd (Declaration false) cause (token :: more) found)
      (directive false token) before final := by
  refine .expect ends (by decide) (fun _ _ _ _ => ?_) fun name rest _ nameKind => ?_
  · exact begins_of_fillers [.name, .name] (by decide) fun _ _ => .directive kind rfl rfl
  refine .takeIf ends (by decide) (fun be rest _ mem => ?_) fun _ => ?_
  · refine .expect ends (by decide) (fun _ _ _ _ => ?_) fun value rest _ _ => decided_pure _ rest
    exact begins_of_fillers [.name] (by decide) fun _ _ =>
      .directiveBe kind nameKind (List.mem_singleton.mp mem) rfl
  · refine .expect ends (by decide) (fun _ _ _ _ => ?_) fun value rest _ _ => decided_pure _ rest
    exact begins_of_fillers [.name] (by decide) fun _ _ => .directive kind nameKind rfl

/-- A directive in a block is refused at its mark, so nothing has been taken before that. -/
theorem decided_nestedDirective {rest : List Token} (kind : token.kind = .pound) :
    Decided need .line (hopeFor AtLineEnd (Declaration true))
      (do directive true (← take)) (token :: rest) final := by
  have sticks : Sticks (do directive true (← take)) ([] ++ [token])
      (.parse .nestedDirective token) := by
    intro others last lastEnds shown
    obtain ⟨behind, whole⟩ := shown
    cases others with
    | nil =>
      obtain rfl : token = last := (List.cons.inj whole).1
      rw [kind] at lastEnds
      cases lastEnds
    | cons other others =>
      obtain rfl : token = other := (List.cons.inj whole).1
      rw [run_bind_of_ok run_take_cons]
      rfl
  refine .stuck [] token (List.prefix_append [token] _) sticks fun _ => ?_
  exact begins_of_fillers [.name] (by decide) fun after _ => .statement (statement_filler after)

theorem decided_binding (ends : final.kind = .textEnd) (kind : token.kind = .letWord) :
    Decided (depth + 1) .line
      (fun cause more found => hopeFor AtLineEnd (Declaration nested) cause (token :: more) found)
      (binding depth token) before final := by
  refine .expect ends (by decide) (fun _ _ _ _ => ?_) fun name rest _ nameKind => ?_
  · exact begins_of_fillers [.name] (by decide) fun _ _ => .binding kind rfl
  refine .takeIf ends (by decide) (fun be rest _ mem => ?_) fun _ => decided_pure _ rest
  have beKind := List.mem_singleton.mp mem
  refine ((guided_expression depth).decided ends).next ends (fun cause taken found hope few => ?_)
    fun value _ middle _ _ => decided_pure _ middle
  exact (hope few).extend [token, name, be] [] rfl nofun fun phrase value _ read =>
    ⟨.binding (token.span.upTo value.span) name (some value),
      fun after _ => .bindingBe kind nameKind beKind (read after trivial)⟩

/-- So it is for a function behind its first word, up to the end of its body. -/
theorem decided_function (inside : Guided need (body depth) Inside) (ends : final.kind = .textEnd)
    (kind : token.kind = .toWord) :
    Decided need .line
      (fun cause more found => hopeFor AtLineEnd (Declaration nested) cause (token :: more) found)
      (function (body depth) token) before final := by
  have names := guided_listed (guided_expect_name need .parameterName)
  refine .expect ends (by decide) (fun _ _ _ _ => ?_) fun name rest _ nameKind => ?_
  · exact begins_of_fillers [.name, .dash, .dash, .colon, .dot] (by decide) fun _ _ =>
      .function kind rfl rfl .none rfl rfl .nil rfl
  refine .expect ends (by decide) (fun _ _ _ _ => ?_) fun opening rest _ openingKind => ?_
  · exact begins_of_fillers [.dash, .dash, .colon, .dot] (by decide) fun _ _ =>
      .function kind nameKind rfl .none rfl rfl .nil rfl
  refine (names.decided ends).next ends (fun cause taken found hope few => ?_)
    fun params listed middle whole run => ?_
  · exact (hope few).extend [token, name, opening] [.dash, .colon, .dot] rfl (by decide)
      fun phrase params _ read => ⟨_, fun after _ =>
        .function kind nameKind openingKind (read _ trivial) rfl rfl .nil rfl⟩
  have paramsRead := names.free ends whole run
  refine .expect ends (by decide) (fun _ _ _ _ => ?_) fun closing rest _ closingKind => ?_
  · rw [List.append_nil]
    exact begins_of_fillers [.dash, .colon, .dot] (by decide) fun _ _ =>
      .function kind nameKind openingKind (paramsRead _) rfl rfl .nil rfl
  refine .expect ends (by decide) (fun _ _ _ _ => ?_) fun colon rest _ colonKind => ?_
  · exact begins_of_fillers [.colon, .dot] (by decide) fun _ _ => by
      simp only [List.append_assoc, List.cons_append, List.nil_append]
      exact .function kind nameKind openingKind (paramsRead _) closingKind rfl .nil rfl
  refine (inside.decided ends).next ends (fun cause taken found hope few => ?_)
    fun _ _ middle _ _ => decided_pure _ middle
  refine (hope few).extend (token :: name :: opening :: listed ++ [closing, colon]) [] (by simp)
    nofun fun phrase inside _ read => ?_
  obtain ⟨statements, dot⟩ := inside
  refine ⟨.function (token.span.upTo dot.span) name params statements, fun after _ => ?_⟩
  simp only [List.append_assoc, List.cons_append, List.nil_append]
  cases read after trivial with
  | intro lines dotKind =>
    exact .function kind nameKind openingKind (paramsRead _) closingKind colonKind lines dotKind

/-- So it is for a declaration of any kind. -/
theorem decided_declaration (inner : GuidedLine depth (statement depth) Statement)
    (inside : Guided (depth - 2) (body depth) Inside) (ends : final.kind = .textEnd) :
    Decided depth .line (hopeFor AtLineEnd (Declaration nested)) (declaration nested (depth + 1))
      before final := by
  rw [declaration]
  refine .peek ends (fun seen other same => by rw [same]) ?_
  rw [kind_headD ends]
  cases kind : nextKind before with
  | dagger =>
    obtain ⟨token, rest, rfl, kind⟩ := exists_of_nextKind kind (by decide)
    exact (Decided.take (decided_remark ends kind)).less (Nat.le_add_right depth 3)
  | pound =>
    obtain ⟨token, rest, rfl, kind⟩ := exists_of_nextKind kind (by decide)
    cases nested with
    | true => exact decided_nestedDirective kind
    | false => exact (Decided.take (decided_directive ends kind)).less (Nat.le_add_right depth 3)
  | toWord =>
    obtain ⟨token, rest, rfl, kind⟩ := exists_of_nextKind kind (by decide)
    exact (Decided.take (decided_function inside ends kind)).less (by omega)
  | letWord =>
    obtain ⟨token, rest, rfl, kind⟩ := exists_of_nextKind kind (by decide)
    exact (Decided.take (decided_binding ends kind)).less (by omega)
  | _ =>
    refine (inner.decided ends).mono (Nat.le_refl _) fun cause taken found _ hope few => ?_
    exact (hope few).extend [] [] rfl List.not_mem_nil fun phrase statement _ read =>
      ⟨statement, fun after ended => .statement (read after ended)⟩

end Declarations

/-! ## Programs -/

/-- The three productions that call each other, at every depth. -/
structure GuidedLayer (depth : Nat) : Prop where
  statement : GuidedLine depth (statement depth) Statement
  declaration : ∀ nested, GuidedLine (depth - 1) (declaration nested depth) (Declaration nested)
  body : Guided (depth - 2) (body depth) Inside

/-- What a counted rule reads is a phrase of the form that it counts. -/
theorem guidedLine_of_counted {counted : Phrase Stmt}
    (sound : ∀ ⦃final : Token⦄, final.kind = .textEnd → Sound final x counted)
    (shortens : Grammar.Shortens counted)
    (derived : ∀ {before statement after}, counted before statement after →
      form before statement after)
    (detaches : Detaches StandsFor form)
    (decided : ∀ ⦃before : List Token⦄ ⦃final : Token⦄, final.kind = .textEnd →
      Decided need .line (hopeFor AtLineEnd form) x before final) :
    GuidedLine need x form where
  sound final ends before statement last run := by
    obtain ⟨after, same, read⟩ := sound ends run
    exact ⟨after, same, derived read⟩
  detaches := detaches
  shrinks final ends before statement after run := by
    obtain ⟨_, same, read⟩ := sound ends run
    cases same
    exact (shortens read).shorter
  decided := decided

theorem guided_statement (decided : ∀ ⦃before : List Token⦄ ⦃final : Token⦄,
      final.kind = .textEnd →
      Decided depth .line (hopeFor AtLineEnd Statement) (statement depth) before final) :
    GuidedLine depth (statement depth) Statement := by
  have counted := Derivation.restricts_layer depth
  have shortens := (Grammar.shortens_layer depth).1
  exact guidedLine_of_counted (fun _ ends => (sound_layer ends depth).1)
    (fun _ _ _ read => shortens read.1) (fun read => (counted.statement.mp read.1).1)
    Derivation.detaches_statement decided

theorem guided_declaration {nested : Bool} (decided : ∀ ⦃before : List Token⦄ ⦃final : Token⦄,
      final.kind = .textEnd → Decided need .line (hopeFor AtLineEnd (Declaration nested))
        (declaration nested depth) before final) :
    GuidedLine need (declaration nested depth) (Declaration nested) := by
  have counted := Derivation.restricts_layer depth
  exact guidedLine_of_counted (fun _ ends => (sound_layer ends depth).2.1 nested)
    ((Grammar.shortens_layer depth).2.1 nested)
    (fun read => ((counted.declaration nested).mp read).1)
    (Derivation.detaches_declaration nested) decided

theorem guidedLayer (depth : Nat) : GuidedLayer depth := by
  induction depth with
  | zero =>
    refine ⟨guided_statement fun _ _ _ => ?_, fun nested => guided_declaration fun _ _ _ => ?_, ?_⟩
    · exact .deep rfl (Nat.zero_le _)
    · exact .deep rfl (Nat.zero_le _)
    · refine ⟨fun _ _ _ _ _ run => ?_, detaches_bodyRule (Derivation.detaches_lines true), ?_⟩
      · cases run
      · exact fun _ _ _ => .deep rfl (Nat.zero_le _)
  | succ depth ih =>
    have block := guided_block (ih.declaration true)
    exact ⟨guided_statement fun _ _ ends => decided_statement ih.statement ih.body ends,
      fun nested => guided_declaration fun _ _ ends =>
        decided_declaration ih.statement ih.body ends, block⟩

/-! ## Lists of tokens without an end -/

section Endless

variable {tokens : List Token}

/-- A repetition whose rounds all go on gives no result. -/
theorem blames_repeatFrom_endless {α σ : Type} {round : σ → Parser (σ ⊕ α)}
    (step : ∀ state, Blames tokens (fun outcome => outcome.isLeft = true) (round state))
    (state : σ) : Blames tokens (fun _ => False) (repeatFrom state round) := by
  have bounded : ∀ (rounds : List Token) (state : σ),
      Blames tokens (fun _ => False) (repeatFor round rounds state) := by
    intro rounds
    induction rounds with
    | nil => exact fun _ => blames_throw rfl
    | cons token rounds ih =>
      intro state
      refine blames_bind (step state) fun outcome more => ?_
      cases outcome with
      | inl next => exact ih next
      | inr result => cases more
  exact fun stream => bounded (stream.final :: stream.rest) state stream

theorem blames_program_endless (endless : ∀ token ∈ tokens, token.kind ≠ .textEnd) (depth : Nat) :
    Blames tokens (fun _ => False) (program depth) := by
  refine blames_repeatFrom_endless (fun latestFirst => ?_) []
  refine blames_bind blames_skipLineEnds fun _ _ => blames_bind blames_peek fun token mem => ?_
  have free : ¬ [TokenKind.textEnd].contains token.kind = true := by
    rw [List.contains_iff_mem, List.mem_singleton]
    exact endless token mem
  rw [if_neg free]
  refine blames_bind ((blames_productions depth).2.1 false) fun _ _ => ?_
  exact blames_pure rfl

end Endless

end Parser

namespace Program

variable {tokens taken : List Token} {found final : Token} {limit : Nat}

/-- A list of tokens without an end is never read to the end. -/
theorem parseWithin_ne_ok_of_endless (endless : ∀ token ∈ tokens, token.kind ≠ .textEnd)
    (program : Program) : parseWithin limit tokens ≠ .ok program := by
  intro read
  unfold parseWithin at read
  split at read
  next => cases read
  next stream opened =>
    have never := Parser.blames_program_endless endless limit stream
      (Stream.within_of_ofTokens? opened)
    change Prod.fst <$> (Parser.program limit).run stream = _ at read
    cases run : (Parser.program limit).run stream with
    | error fault =>
      rw [run] at read
      cases read
    | ok result =>
      rw [run] at never
      exact never.1

/-- A list of tokens is read up to its first end. -/
theorem parseWithin_append_cons (inside : ∀ token ∈ tokens, token.kind ≠ .textEnd)
    (ends : final.kind = .textEnd) (others : List Token) :
    parseWithin limit (tokens ++ final :: others) = parseWithin limit (tokens ++ [final]) := by
  have body : (tokens ++ final :: others).takeWhile (fun token => token.kind ≠ .textEnd) =
      tokens := by
    rw [List.takeWhile_append_of_pos (by simpa using inside), List.takeWhile_cons_of_neg (by simpa),
      List.append_nil]
  have first : (tokens ++ final :: others).find? (fun token => token.kind = .textEnd) =
      some final := by
    rw [List.find?_append, List.find?_eq_none.mpr (by simpa using inside), Option.none_or,
      List.find?_cons_of_pos (by simpa)]
  rw [parseWithin, parseWithin, Stream.ofTokens?_append inside ends, Stream.ofTokens?, body, first]

/-- No limit makes a program of tokens on which reading stops with another fault than the limit. -/
theorem parseWithin_ne_ok_of_error {fault : Fault} (stops : parseWithin limit tokens = .error fault)
    (other : fault ≠ .tooDeep) (another : Nat) (program : Program) :
    parseWithin another tokens ≠ .ok program := by
  intro read
  rcases Nat.le_total limit another with le | le
  · rcases parseWithin_of_le le tokens with gone | same
    · rw [stops] at gone
      exact other (Except.error.inj gone)
    · rw [stops, read] at same
      cases same
  · rcases parseWithin_of_le le tokens with gone | same
    · rw [read] at gone
      cases gone
    · rw [stops, read] at same
      cases same

/-- No list of tokens is a program that begins with those at whose last one the reader is stuck. -/
theorem parseWithin_ne_ok_of_sticks {cause : ParseCause}
    (sticks : Parser.Sticks (Parser.program limit) (taken ++ [found]) (.parse cause found))
    (inside : ∀ token ∈ taken, token.kind ≠ .textEnd) (others : List Token) (another : Nat)
    (program : Program) : parseWithin another (taken ++ found :: others) ≠ .ok program := by
  cases first : (found :: others).find? (fun token => token.kind = .textEnd) with
  | none =>
    refine parseWithin_ne_ok_of_endless (fun token mem => ?_) program
    rcases List.mem_append.mp mem with early | late
    · exact inside token early
    · simpa using List.find?_eq_none.mp first token late
  | some last =>
    obtain ⟨ends, middle, rest, split, plain⟩ := List.find?_eq_some_iff_append.mp first
    replace ends : last.kind = .textEnd := by simpa using ends
    have allPlain : ∀ token ∈ taken ++ middle, token.kind ≠ .textEnd := by
      intro token mem
      rcases List.mem_append.mp mem with early | late
      · exact inside token early
      · simpa using plain token late
    have shown : taken ++ [found] <+: taken ++ middle ++ [last] := by
      rw [List.append_assoc, List.prefix_append_right_inj]
      cases middle with
      | nil => rw [(List.cons.inj split).1]; exact List.prefix_rfl
      | cons token middle => rw [(List.cons.inj split).1]; exact List.prefix_append [token] _
    have stops : parseWithin limit (taken ++ found :: others) = .error (.parse cause found) := by
      rw [split, ← List.append_assoc, parseWithin_append_cons allPlain ends,
        parseWithin_append allPlain ends, sticks ends shown]
      rfl
    exact parseWithin_ne_ok_of_error stops nofun another program

/-- Reading stops at the token as early as it can. No list that begins like this up to the token
is a program; but some list that begins like this before the token is one, unless the
fault is too long a list. -/
structure Earliest (cause : ParseCause) (before : List Token) (found : Token) : Prop where
  hopeless : ∀ (others : List Token) (limit : Nat) (program : Program),
    parseWithin limit (before ++ found :: others) ≠ .ok program
  hopeful : (cause.diagnostic found).code ≠ "PAR003" →
    ∃ (more : List Token) (last : Token) (program : Program) (limit : Nat),
      (∀ token ∈ more, token.kind ≠ .textEnd) ∧ last.kind = .textEnd ∧
        parseWithin limit (before ++ more ++ [last]) = .ok program

/-- What begins the lines of a program is completed by some more tokens. -/
theorem exists_parseWithin_of_begins
    (begins : Begins AtLineEnd (Lines (Declaration false)) taken)
    (inside : ∀ token ∈ taken, token.kind ≠ .textEnd) (ends : final.kind = .textEnd) :
    ∃ (more : List Token) (program : Program) (limit : Nat),
      (∀ token ∈ more, token.kind ≠ .textEnd) ∧
        parseWithin limit (taken ++ more ++ [final]) = .ok program := by
  obtain ⟨more, statements, plain, read⟩ := begins
  have derives : Derives (taken ++ more) statements := by
    have whole := read [] (by decide : TokenKind.textEnd ∈ Parser.returnStops)
    rwa [List.append_nil] at whole
  have allPlain : ∀ token ∈ taken ++ more, token.kind ≠ .textEnd := by
    intro token mem
    rcases List.mem_append.mp mem with early | late
    · exact inside token early
    · exact plain token late
  obtain ⟨program, derives, nearest⟩ := derives.exists_nearest
  exact ⟨more, program, program.nesting, plain,
    (parseWithin_iff_derives allPlain ends).mpr ⟨derives, nearest, Nat.le_refl _⟩⟩

variable (inside : ∀ token ∈ tokens, token.kind ≠ .textEnd) (ends : final.kind = .textEnd)

include inside ends

/-- Tokens whose only end is the last one are read as a program, or reading stops at one of them
and as early as it can, or the limit is low for so many tokens. -/
theorem parseWithin_earliest (limit : Nat) :
    (∃ program, parseWithin limit (tokens ++ [final]) = .ok program) ∨
    (∃ cause before found after, tokens ++ [final] = before ++ found :: after ∧
      parseWithin limit (tokens ++ [final]) = .error (.parse cause found) ∧
      (cause.diagnostic found).span = some found.span ∧ Earliest cause before found) ∨
    (parseWithin limit (tokens ++ [final]) = .error .tooDeep ∧
      limit ≤ 3 * tokens.length + 1) := by
  have decided : Parser.Decided (limit - 1) .line
      (Parser.hopeFor AtLineEnd (Lines (Declaration false))) (Parser.program limit) tokens final :=
    Parser.decided_lines ((Parser.guidedLayer limit).declaration false) ends
  rw [parseWithin_append inside ends]
  cases decided with
  | read program taken whole gives =>
    subst whole
    exact .inl ⟨program, by rw [gives.run ends]; rfl⟩
  | @stuck cause taken found shown sticks hope =>
    obtain ⟨after, whole⟩ := shown
    have early : ∀ token ∈ taken, token.kind ≠ .textEnd := by
      obtain ⟨rest, split, _⟩ :=
        Parser.exists_of_shown_append (List.cons_ne_nil found []) ⟨after, whole⟩
      exact fun token mem => inside token (split ▸ List.mem_append_left rest mem)
    refine .inr (.inl ⟨cause, taken, found, after, ?_, ?_, rfl, ?_, ?_⟩)
    · rw [← whole, List.append_assoc]
      rfl
    · rw [sticks ends ⟨after, whole⟩]
      rfl
    · exact parseWithin_ne_ok_of_sticks sticks early
    · intro code
      obtain ⟨more, program, limit, plain, read⟩ :=
        exists_parseWithin_of_begins (hope fun same => code (by rw [same]; rfl)) early ends
      exact ⟨more, final, program, limit, plain, ends, read⟩
  | deep run long =>
    refine .inr (.inr ⟨by rw [run]; rfl, ?_⟩)
    omega

omit inside ends

/-- Two names in a row inside of the dashes: the parser stops at the second one, the first token
that nothing can mend. -/
theorem parseWithin_earliest_two_names :
    let tokens := [TokenKind.ifWord, .dash, .name, .name].map filler
    (∀ token ∈ tokens, token.kind ≠ .textEnd) ∧
      ∃ cause before found after,
        tokens ++ [filler .textEnd] = before ++ found :: after ∧
        Program.parse (tokens ++ [filler .textEnd]) = .error (.parse cause found) ∧
        Earliest cause before found := by
  intro tokens
  have inside : ∀ token ∈ tokens, token.kind ≠ .textEnd := by decide
  have ends : (filler .textEnd).kind = .textEnd := rfl
  have refused : (Program.parse (tokens ++ [filler .textEnd])).isOk = false := by decide +kernel
  refine ⟨inside, ?_⟩
  rcases parseWithin_earliest inside ends depthLimit with
    ⟨program, read⟩ | ⟨cause, before, found, after, split, stops, _, earliest⟩ | ⟨_, low⟩
  · rw [Program.parse, read] at refused
    cases refused
  · exact ⟨cause, before, found, after, split, stops, earliest⟩
  · exact absurd low (by decide)

end Program

end Marginalia
