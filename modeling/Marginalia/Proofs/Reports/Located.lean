import Marginalia.Proofs.Reading.Blame
import Marginalia.Proofs.Reading.Marks
import Marginalia.Proofs.Reading.Refusals
import Marginalia.Proofs.Running.Faults
import Marginalia.Proofs.Scanning.Tiling

/-!
# Where faults are

A fault of the scanner, of the reader or of a running program has a place, and no other fault has
one (`Fault.place?`). The place lies in the text (`Span.LiesIn`): the scanner stops between points
that it has been at; the reader stops at a token; a running program stops at a mark, which runs
along the tokens that the program was read from.
-/

namespace Marginalia

/-- Where the fault is, if it has a place. -/
def Fault.place? (fault : Fault) : Option Span :=
  fault.diagnostic?.bind Diagnostic.span

theorem Fault.place?_scan (cause : ScanCause) (span : Span) :
    (Fault.scan cause span).place? = some span := by
  cases cause <;> rfl

theorem Fault.place?_parse (cause : ParseCause) (found : Token) :
    (Fault.parse cause found).place? = some found.span := rfl

theorem Fault.place?_run (cause : RunCause) (place : Token) :
    (Fault.run cause place).place? = some place.span := by
  cases cause <;> rfl

/-! ## Spans along tokens -/

/-- What runs along the tokens of a text lies in it. -/
theorem RunsAlong.liesIn {file : String} {text : List Char} {tokens : List Token} {span : Span}
    (along : RunsAlong tokens span) (scanned : scan file text = .ok tokens) :
    span.LiesIn text := by
  obtain ⟨first, later, last, behind, mem, start, stop⟩ := along
  have points := scan_points scanned
  have laid : Laid tokens.reverse text := .of_scan scanned
  have long {token : Token} (mem : token ∈ tokens) :
      token.span.start.index ≤ token.span.stop.index :=
    laid.start_le_stop (List.mem_reverse.mpr mem)
  have firstMem : first ∈ tokens := behind.subset List.mem_cons_self
  have lastMem : last ∈ tokens := behind.subset mem
  have ordered : first.span.start.index ≤ last.span.stop.index := by
    rcases List.mem_cons.mp mem with rfl | after
    · exact long lastMem
    · -- the last token is another one, and stands behind the first
      have apart := (List.pairwise_reverse.mp laid.pairwise).sublist behind.sublist
      have between := List.rel_of_pairwise_cons apart after
      have firstLong := long firstMem
      have lastLong := long lastMem
      omega
  rw [← start, ← stop] at ordered
  exact ⟨start ▸ (points first firstMem).1, stop ▸ (points last lastMem).2, ordered⟩

/-! ## Marks of a program -/

theorem Expr.Marked.part {property : Token → Prop} {whole part : Expr}
    (marked : whole.Marked property) (mem : part ∈ whole.parts) : part.Marked property := by
  cases whole with
  | negation span operator operand =>
    obtain rfl := List.mem_singleton.mp mem
    rwa [Marked] at marked
  | comparison span left operator right | connective span left operator right =>
    rw [Marked] at marked
    obtain rfl | rfl : part = left ∨ part = right := by simpa [parts] using mem
    · exact marked.1
    · exact marked.2
  | call span callee marker arguments =>
    rw [Marked] at marked
    rcases List.mem_cons.mp mem with rfl | inside
    · exact marked.2.1
    · exact allMarked_iff.mp marked.2.2 part inside
  | constant _ _ | name _ _ | unknown _ _ _ => cases mem

/-- What holds of the marks of a statement holds of those of its own expressions. -/
theorem Stmt.Marked.expr {property : Token → Prop} {statement : Stmt} {expr : Expr}
    (marked : statement.Marked property) (mem : expr ∈ statement.exprs) :
    expr.Marked property := by
  cases statement with
  | expression span whole wrapped =>
    obtain rfl := List.mem_singleton.mp mem
    rwa [Marked] at marked
  | binding span name initial =>
    rw [Marked] at marked
    exact marked expr (Option.mem_toList.mp mem)
  | giveBack span keyword value =>
    rw [Marked] at marked
    exact marked.2 expr (Option.mem_toList.mp mem)
  | condition span test yes no =>
    obtain rfl := List.mem_singleton.mp mem
    cases no with
    | none => exact marked.1
    | some no => exact marked.1
  | loop span test body =>
    obtain rfl := List.mem_singleton.mp mem
    exact marked.1
  | block _ _ | function _ _ _ _ | directive _ _ _ | remark _ _ | unknown _ _ _ => cases mem

/-- It holds of the marks of the statements inside it, too. -/
theorem Stmt.Marked.child {property : Token → Prop} {statement child : Stmt}
    (marked : statement.Marked property) (mem : child ∈ statement.children) :
    child.Marked property := by
  cases statement with
  | block span statements | function span name params statements =>
    rw [Marked] at marked
    exact allMarked_iff.mp marked child mem
  | condition span test yes no =>
    cases no with
    | none =>
      obtain rfl := List.mem_singleton.mp mem
      exact marked.2
    | some no =>
      obtain rfl | rfl : child = yes ∨ child = no := by simpa [children] using mem
      · exact marked.2.1
      · exact marked.2.2
  | loop span test body =>
    obtain rfl := List.mem_singleton.mp mem
    exact marked.2
  | expression _ _ _ | binding _ _ _ | giveBack _ _ _ | directive _ _ _ | remark _ _
  | unknown _ _ _ => cases mem

/-- What holds of the marks of all statements of a program holds of those that a fault of the
program points at. -/
theorem Stmt.AllMarked.of_blames {program : Program} {property : Token → Prop} {cause : RunCause}
    {mark : Token} (all : AllMarked property program)
    (blames : program.Blames (.run cause mark)) : property mark := by
  have statements (statement : Stmt) (has : program.Has statement) : statement.Marked property :=
    has.all (allMarked_iff.mp all) fun _ marked _ mem => marked.child mem
  cases blames with
  | call called =>
    obtain ⟨span, arguments, has⟩ := called
    have marked : (Expr.call span _ mark arguments).Marked property :=
      has.all (fun statement has _ mem => (statements statement has).expr mem)
        fun _ marked _ mem => marked.part mem
    rw [Expr.Marked] at marked
    exact marked.1
  | giveBack returns =>
    obtain ⟨span, value, outside⟩ := returns
    exact (statements _ outside.has).1
  | unplaced none => cases cause <;> cases none

/-! ## Sources -/

/-- The fault that an attempt to read and run a source comes to, if it comes to one. -/
def faultOf? : Except Fault (Parsed × Run) → Option Fault
  | .error fault => some fault
  | .ok (_, run) => run.fault

namespace Source

variable {limits : Limits} {source : Source} {answers : Option (List String)} {fault : Fault}
  {span : Span}

theorem liesIn_of_parseUnder_error (stopped : source.parseUnder limits = .error fault)
    (placed : fault.place? = some span) : span.LiesIn source.text.toList := by
  rcases parseUnder_eq_error_iff.mp stopped with scanned | ⟨tokens, scanned, programRead⟩
  · obtain ⟨cause, place, rfl, inside⟩ := stopsIn_of_scan scanned
    rw [Fault.place?_scan] at placed
    cases placed
    exact inside
  · obtain ⟨body, final, whole, ends, inside⟩ := exists_body_of_scan scanned
    have refusal := Program.isRefusal_of_parseWithin inside ends (whole ▸ programRead)
    cases fault with
    | parse cause found =>
      have mem := Program.mem_of_parseWithin_eq_error programRead
      rw [Fault.place?_parse] at placed
      cases placed
      exact (RunsAlong.of_mem mem).liesIn scanned
    | tooDeep => cases placed
    | _ => cases refusal

/-- The marks of the program of a source run along its tokens. -/
theorem exists_marked_of_parseUnder {parsed : Parsed}
    (read : source.parseUnder limits = .ok parsed) :
    ∃ body final, parsed.tokens = body ++ [final] ∧
      Stmt.AllMarked (Grammar.Along body) parsed.program := by
  obtain ⟨scanned, programRead⟩ := parseUnder_eq_ok_iff.mp read
  obtain ⟨body, final, whole, ends, inside⟩ := exists_body_of_scan scanned
  rw [whole] at programRead
  exact ⟨body, final, whole, ((Program.parseWithin_eq_ok_iff inside ends).mp programRead).marked⟩

theorem liesIn_of_stopped_run {parsed : Parsed} {run : Run}
    (ran : source.runUnder limits answers = .ok (parsed, run)) (stopped : run.fault = some fault)
    (placed : fault.place? = some span) : span.LiesIn source.text.toList := by
  have read := (runUnder_eq_ok_iff.mp ran).1
  obtain ⟨body, final, whole, marked⟩ := exists_marked_of_parseUnder read
  have scanned := (parseUnder_eq_ok_iff.mp read).1
  rw [whole] at scanned
  have blames := blames_of_run ran stopped
  have inside {cause : RunCause} {mark : Token} (same : fault = .run cause mark) :
      span.LiesIn source.text.toList := by
    subst same
    have along : RunsAlong body mark.span := marked.of_blames blames
    rw [Fault.place?_run] at placed
    cases placed
    exact (along.append [final]).liesIn scanned
  cases blames with
  | call _ | giveBack _ => exact inside rfl
  | unplaced none =>
    rw [Fault.place?, none] at placed
    cases placed

/-- Whatever a source comes to, a fault that has a place has it in the text. -/
theorem liesIn_of_run (stopped : faultOf? (source.runUnder limits answers) = some fault)
    (placed : fault.place? = some span) : span.LiesIn source.text.toList := by
  cases ran : source.runUnder limits answers with
  | error other =>
    rw [ran] at stopped
    cases stopped
    exact liesIn_of_parseUnder_error (runInUnder_eq_error_iff.mp ran) placed
  | ok result =>
    obtain ⟨parsed, run⟩ := result
    rw [ran] at stopped
    exact liesIn_of_stopped_run ran stopped placed

end Source

end Marginalia
