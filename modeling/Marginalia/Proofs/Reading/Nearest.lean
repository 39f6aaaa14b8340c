import Marginalia.Proofs.Reading.Derivation
import Marginalia.Proofs.Reading.Limit
import Mathlib.Logic.ExistsUnique

/-!
# Exactly the derived programs are read

Tokens that derive a program derive one in which each `else` belongs to the nearest
condition. An `else` that belongs to a condition further out can be moved: the
statement before it ends in a condition without one, which takes it over
(`exists_taking_else`). The rest of the program stays where it is, so going
through the program once moves every `else` (`hasNearest_layer`).

There is only one such program, since it is the one that the reader gives back
when it is let down far enough.
-/

namespace Marginalia

namespace Derivation

open Grammar (Phrase LineEnds Lines)

variable {depth : Nat} {before after ends others : List Token} {elseToken : Token}
  {statement no : Stmt} {statements : List Stmt}

/-- A statement with an open end may take the `else` behind it: the nearest condition takes it, at
the end of the branches that are open. -/
theorem exists_taking_else (derived : Statement before statement (ends ++ elseToken :: others))
    (fits : statement.nesting ≤ depth) (nearest : statement.NearestElse)
    (dangles : statement.dangles = true) (lineEnds : LineEnds ends)
    (elseKind : elseToken.kind = .elseWord) (second : Statement others no after)
    (secondNearest : no.NearestElse) :
    ∃ whole, Statement before whole after ∧ whole.NearestElse := by
  induction depth generalizing before statement with
  | zero => exact absurd fits (Nat.not_le_of_lt statement.nesting_pos)
  | succ depth ih =>
    cases derived with
    | @condition _ _ _ _ _ yes kind test first =>
      rw [Stmt.nesting] at fits
      cases waits : yes.dangles with
      | true =>
        obtain ⟨whole, derived, nearest⟩ := ih first (by omega) nearest waits
        exact ⟨_, .condition kind test derived, nearest⟩
      | false =>
        exact ⟨_, .alternative kind test first lineEnds elseKind second,
          waits, nearest, secondNearest⟩
    | alternative kind test first innerEnds innerKind last =>
      rw [Stmt.nesting] at fits
      obtain ⟨closed, firstNearest, lastNearest⟩ := nearest
      obtain ⟨whole, derived, nearest⟩ := ih last (by omega) lastNearest dangles
      exact ⟨_, .alternative kind test first innerEnds innerKind derived,
        closed, firstNearest, nearest⟩
    | loop kind test inside =>
      rw [Stmt.nesting] at fits
      obtain ⟨whole, derived, nearest⟩ := ih inside (by omega) nearest dangles
      exact ⟨_, .loop kind test derived, nearest⟩
    | giveNothing _ _ | giveBack _ _ | block _ _ _ | printer _ _ | wrapped _ _ => cases dangles

/-- The form has a phrase with each `else` in its place wherever it has one within `depth`
levels. -/
def HasNearest (depth : Nat) (form : Phrase Stmt) : Prop :=
  ∀ ⦃before : List Token⦄ ⦃statement : Stmt⦄ ⦃after : List Token⦄,
    form before statement after → statement.nesting ≤ depth →
    ∃ nearest, form before nearest after ∧ nearest.NearestElse

theorem exists_nearest_lines {item : Phrase Stmt} (has : HasNearest depth item)
    (lines : Lines item before statements after) (fits : Stmt.linesNesting statements ≤ depth) :
    ∃ nearest, Lines item before nearest after ∧ Stmt.AllNearestElse nearest := by
  induction lines with
  | nil => exact ⟨[], .nil, trivial⟩
  | lineEnd kind _ ih =>
    obtain ⟨nearest, derived, all⟩ := ih fits
    exact ⟨nearest, .lineEnd kind derived, all⟩
  | cons first _ ih =>
    rw [Stmt.linesNesting] at fits
    obtain ⟨here, derived, one⟩ := has first (by omega)
    obtain ⟨nearest, rest, all⟩ := ih (by omega)
    exact ⟨here :: nearest, .cons derived rest, one, all⟩

/-- Whatever reading a statement has, it has one with each `else` at the nearest condition. -/
theorem hasNearest_statement_succ (branches : HasNearest depth Statement)
    (lines : HasNearest depth (Declaration true)) : HasNearest (depth + 1) Statement := by
  intro before statement after derived fits
  cases derived with
  | condition kind test yes =>
    rw [Stmt.nesting] at fits
    obtain ⟨first, derived, nearest⟩ := branches yes (by omega)
    exact ⟨_, .condition kind test derived, nearest⟩
  | alternative kind test yes lineEnds elseKind no =>
    rw [Stmt.nesting] at fits
    obtain ⟨first, firstDerived, firstNearest⟩ := branches yes (by omega)
    obtain ⟨second, secondDerived, secondNearest⟩ := branches no (by omega)
    cases waits : first.dangles with
    | false =>
      exact ⟨_, .alternative kind test firstDerived lineEnds elseKind secondDerived,
        waits, firstNearest, secondNearest⟩
    | true =>
      obtain ⟨whole, derived, nearest⟩ := exists_taking_else firstDerived (Nat.le_refl _)
        firstNearest waits lineEnds elseKind secondDerived secondNearest
      exact ⟨_, .condition kind test derived, nearest⟩
  | giveNothing kind stop => exact ⟨_, .giveNothing kind stop, trivial⟩
  | giveBack kind value => exact ⟨_, .giveBack kind value, trivial⟩
  | loop kind test inside =>
    rw [Stmt.nesting] at fits
    obtain ⟨inside, derived, nearest⟩ := branches inside (by omega)
    exact ⟨_, .loop kind test derived, nearest⟩
  | block kind inside dot =>
    rw [Stmt.nesting] at fits
    obtain ⟨nearest, derived, all⟩ := exists_nearest_lines lines inside (by omega)
    exact ⟨_, .block kind derived dot, all⟩
  | printer expr calls => exact ⟨_, .printer expr calls, trivial⟩
  | wrapped expr other => exact ⟨_, .wrapped expr other, trivial⟩

theorem hasNearest_declaration_succ (nested : Bool) (branches : HasNearest (depth + 1) Statement)
    (lines : HasNearest depth (Declaration true)) :
    HasNearest (depth + 1) (Declaration nested) := by
  intro before statement after derived fits
  cases derived with
  | remark kind text => exact ⟨_, .remark kind text, trivial⟩
  | directive kind name value => exact ⟨_, .directive kind name value, trivial⟩
  | directiveBe kind name be value => exact ⟨_, .directiveBe kind name be value, trivial⟩
  | function kind name opening params closing colon inside dot =>
    rw [Stmt.nesting] at fits
    obtain ⟨nearest, derived, all⟩ := exists_nearest_lines lines inside (by omega)
    exact ⟨_, .function kind name opening params closing colon derived dot, all⟩
  | binding kind name => exact ⟨_, .binding kind name, trivial⟩
  | bindingBe kind name be value => exact ⟨_, .bindingBe kind name be value, trivial⟩
  | statement derived =>
    obtain ⟨nearest, derived, all⟩ := branches derived fits
    exact ⟨nearest, .statement derived, all⟩

theorem hasNearest_layer (depth : Nat) :
    HasNearest depth Statement ∧ ∀ nested, HasNearest depth (Declaration nested) :=
  layer_of_succ HasNearest
    (fun _ _ statement _ _ fits => absurd fits (Nat.not_le_of_lt statement.nesting_pos))
    hasNearest_statement_succ hasNearest_declaration_succ depth

end Derivation

variable {tokens : List Token} {program other : Program}

/-- Tokens that derive a program derive one with each `else` at the nearest condition. -/
theorem Derives.exists_nearest (derives : Derives tokens program) :
    ∃ nearest : Program, Derives tokens nearest ∧ nearest.NearestElse :=
  Derivation.exists_nearest_lines ((Derivation.hasNearest_layer _).2 false) derives (Nat.le_refl _)

section Reader

variable {final : Token} (inside : ∀ token ∈ tokens, token.kind ≠ .textEnd)
  (ends : final.kind = .textEnd)

include inside ends

theorem Program.parseWithin_iff_derives {limit : Nat} :
    Program.parseWithin limit (tokens ++ [final]) = .ok program ↔
      Derives tokens program ∧ program.NearestElse ∧ program.nesting ≤ limit := by
  rw [Program.parseWithin_eq_ok_iff inside ends, Derivation.reads_iff,
    and_comm (b := program.NearestElse)]

theorem Derives.parseWithin (derives : Derives tokens program) (nearest : program.NearestElse)
    (limit : Nat) :
    Program.parseWithin limit (tokens ++ [final]) =
      if program.nesting ≤ limit then .ok program else .error .tooDeep := by
  have read : ∀ enough, program.nesting ≤ enough →
      Program.parseWithin enough (tokens ++ [final]) = .ok program := fun enough fits =>
    (Program.parseWithin_iff_derives inside ends).mpr ⟨derives, nearest, fits⟩
  by_cases fits : program.nesting ≤ limit
  · rw [if_pos fits, read limit fits]
  · rw [if_neg fits]
    rcases Program.parseWithin_of_le (Nat.le_of_not_le fits) (tokens ++ [final]) with gone | same
    · exact gone
    · -- The lower limit would have read the program, which needs more levels.
      rw [read _ (Nat.le_refl _), Program.parseWithin_iff_derives inside ends] at same
      exact absurd same.2.2 fits

theorem Derives.eq (first : Derives tokens program) (firstNearest : program.NearestElse)
    (second : Derives tokens other) (secondNearest : other.NearestElse) : program = other := by
  have readFirst := first.parseWithin inside ends firstNearest (max program.nesting other.nesting)
  have readSecond := second.parseWithin inside ends secondNearest
    (max program.nesting other.nesting)
  rw [if_pos (Nat.le_max_left _ _)] at readFirst
  rw [if_pos (Nat.le_max_right _ _), readFirst] at readSecond
  exact Except.ok.inj readSecond

/-- The reader accepts exactly the tokens that derive a program, and gives back the one that they
derive with each `else` at the nearest condition. Only its limit can withhold the program: it is
read with every limit that it does not go beyond, and otherwise the reader gives up. -/
theorem Program.parse_iff_derives :
    (∀ program, Program.parse (tokens ++ [final]) = .ok program ↔
      Derives tokens program ∧ program.NearestElse ∧ program.nesting ≤ depthLimit) ∧
    (∀ program, (∃ limit, Program.parseWithin limit (tokens ++ [final]) = .ok program) ↔
      Derives tokens program ∧ program.NearestElse) ∧
    (∀ program, Derives tokens program → program.NearestElse →
      ∀ limit, Program.parseWithin limit (tokens ++ [final]) =
        if program.nesting ≤ limit then .ok program else .error .tooDeep) ∧
    ((∃ program, Derives tokens program) ↔
      ∃! program, Derives tokens program ∧ program.NearestElse) := by
  refine ⟨fun program => parseWithin_iff_derives inside ends, fun program => ⟨?_, ?_⟩,
    fun program => Derives.parseWithin inside ends, ?_, ?_⟩
  · rintro ⟨limit, read⟩
    obtain ⟨derives, nearest, _⟩ := (parseWithin_iff_derives inside ends).mp read
    exact ⟨derives, nearest⟩
  · rintro ⟨derives, nearest⟩
    exact ⟨program.nesting, (parseWithin_iff_derives inside ends).mpr
      ⟨derives, nearest, Nat.le_refl _⟩⟩
  · rintro ⟨program, derives⟩
    obtain ⟨nearest, derives, only⟩ := derives.exists_nearest
    exact ⟨nearest, ⟨derives, only⟩, fun other both =>
      Derives.eq inside ends both.1 both.2 derives only⟩
  · rintro ⟨program, ⟨derives, _⟩, _⟩
    exact ⟨program, derives⟩

end Reader

/-- The `else` is behind two conditions, and the inner one takes it. -/
theorem Program.parse_iff_derives_two_conditions :
    let tokens : List Token :=
      [.ifWord, .dash, .name, .dash, .ifWord, .dash, .name, .dash, .name, .lineEnd, .elseWord,
        .name].map fun kind => ⟨kind, "", none, default⟩
    (∀ token ∈ tokens, token.kind ≠ .textEnd) ∧
      (∃ program, Program.parse (tokens ++ [⟨.textEnd, "", none, default⟩]) = .ok program ∧
        Derives tokens program) ∧
      ∃! program, Derives tokens program ∧ program.NearestElse := by
  intro tokens
  have inside : ∀ token ∈ tokens, token.kind ≠ .textEnd := by decide
  obtain ⟨reads, _, _, derives⟩ :=
    Program.parse_iff_derives inside (rfl : (Token.mk .textEnd "" none default).kind = .textEnd)
  have accepted : (Program.parse (tokens ++ [⟨.textEnd, "", none, default⟩])).isOk = true := by
    decide +kernel
  cases parsed : Program.parse (tokens ++ [⟨.textEnd, "", none, default⟩]) with
  | error fault =>
    rw [parsed] at accepted
    cases accepted
  | ok program =>
    obtain ⟨derived, _⟩ := (reads program).mp parsed
    exact ⟨inside, ⟨program, rfl, derived⟩, derives.mp ⟨program, derived⟩⟩

end Marginalia
