import Marginalia.Proofs.Reading.Complete
import Marginalia.Proofs.Scanning.Written
import Marginalia.Source

/-!
# Reading and running a source

A source is read by scanning its text and reading the tokens, and it is run by running the program
that was read on the machine that the run begins with.
-/

namespace Marginalia

namespace Source

variable {limits : Limits} {source : Source} {parsed : Parsed}

/-- A source is read where its text is scanned and the reader comes to a program. -/
theorem parseUnder_eq_ok_iff :
    source.parseUnder limits = .ok parsed ↔
      source.scan = .ok parsed.tokens ∧
        Program.parseWithin limits.depth parsed.tokens = .ok parsed.program := by
  unfold parseUnder
  cases scanned : source.scan with
  | error fault => exact ⟨nofun, nofun⟩
  | ok tokens =>
    change (Program.parseWithin limits.depth tokens).bind _ = _ ↔ _
    cases programRead : Program.parseWithin limits.depth tokens with
    | error fault =>
      refine ⟨nofun, ?_⟩
      rintro ⟨same, found⟩
      cases same
      rw [programRead] at found
      cases found
    | ok program =>
      constructor
      · intro same
        cases same
        exact ⟨rfl, programRead⟩
      · rintro ⟨same, found⟩
        cases same
        rw [programRead] at found
        cases found
        rfl

theorem parse_eq_ok_iff :
    source.parse = .ok parsed ↔
      source.scan = .ok parsed.tokens ∧ Program.parse parsed.tokens = .ok parsed.program :=
  parseUnder_eq_ok_iff

/-- A source that is not read is refused by the scanner, or else by the reader. -/
theorem parseUnder_eq_error_iff {fault : Fault} :
    source.parseUnder limits = .error fault ↔
      source.scan = .error fault ∨
        ∃ tokens, source.scan = .ok tokens ∧
          Program.parseWithin limits.depth tokens = .error fault := by
  unfold parseUnder
  cases scanned : source.scan with
  | error other =>
    refine ⟨fun stopped => .inl ?_, ?_⟩
    · cases stopped
      rfl
    · rintro (stopped | ⟨tokens, found, _⟩)
      · cases stopped
        rfl
      · cases found
  | ok tokens =>
    change (Program.parseWithin limits.depth tokens).bind _ = _ ↔ _
    cases programRead : Program.parseWithin limits.depth tokens with
    | ok program =>
      refine ⟨nofun, ?_⟩
      rintro (stopped | ⟨tokens', found, stopped⟩)
      · cases stopped
      · cases found
        rw [programRead] at stopped
        cases stopped
    | error other =>
      constructor
      · intro stopped
        cases stopped
        exact .inr ⟨tokens, rfl, programRead⟩
      · rintro (stopped | ⟨tokens', found, stopped⟩)
        · cases stopped
        · cases found
          rw [programRead] at stopped
          cases stopped
          rfl

/-- The tokens of a text are followed by its end, and there is no other end among them. -/
theorem exists_body_of_scan {tokens : List Token} (scanned : source.scan = .ok tokens) :
    ∃ body final, tokens = body ++ [final] ∧ final.kind = .textEnd ∧
      ∀ token ∈ body, token.kind ≠ .textEnd := by
  obtain ⟨body, final, whole, ends, written⟩ := exists_of_scan scanned
  exact ⟨body, final, whole, ends, fun token mem =>
    written.kind_ne_textEnd token.erased (List.mem_map_of_mem mem)⟩

variable {store : Store} {scope : ScopeId} {answers : Option (List String)} {run : Run}

theorem runInUnder_eq_ok_iff :
    source.runInUnder limits store scope answers = .ok (parsed, run) ↔
      source.parseUnder limits = .ok parsed ∧
        run = parsed.program.runUnder limits (source.openedIn store scope answers) := by
  unfold runInUnder
  cases source.parseUnder limits with
  | error fault => exact ⟨nofun, nofun⟩
  | ok other =>
    constructor
    · intro same
      cases same
      exact ⟨rfl, rfl⟩
    · rintro ⟨same, rfl⟩
      cases same
      rfl

/-- A run that does not begin stops where the reading of the source does. -/
theorem runInUnder_eq_error_iff {fault : Fault} :
    source.runInUnder limits store scope answers = .error fault ↔
      source.parseUnder limits = .error fault := by
  unfold runInUnder
  cases source.parseUnder limits with
  | ok parsed => exact ⟨nofun, nofun⟩
  | error other =>
    constructor <;> intro stopped <;> cases stopped <;> rfl

theorem runUnder_eq_ok_iff :
    source.runUnder limits answers = .ok (parsed, run) ↔
      source.parseUnder limits = .ok parsed ∧
        run = parsed.program.runUnder limits (source.opened answers) :=
  runInUnder_eq_ok_iff

theorem run_eq_ok_iff :
    source.run answers = .ok (parsed, run) ↔
      source.parse = .ok parsed ∧ run = parsed.program.run (source.opened answers) :=
  runUnder_eq_ok_iff

end Source

end Marginalia
