import Marginalia.Proofs.Reading.Refusals
import Marginalia.Proofs.Reading.Sources
import Marginalia.Proofs.Running.Parallel
import Marginalia.Proofs.Scanning.Positions

/-!
# How a run can end

A program that was read from a text is alike to itself: it has no nodes of an unknown kind, and its
calls begin with tokens of the text, so they stand on its lines (`Grammar.rowsAlike_of_reads`). A
run beside itself therefore stops for one of few reasons (`Likeness.FaultAlike`).

In a fresh store these are the two mistakes that a running program can make, a question that nobody
answers, and the limits (`Source.run_ends`). A store that earlier runs have left behind also holds
their functions, which stand on lines of other texts. There is one more reason then: a line that the
present page does not have (`Source.runIn_ends`).
-/

namespace Marginalia

/-! ## What a reader makes is alike to itself -/

namespace Likeness

/-- A program beside itself, with calls on the lines from one to `most`. -/
def itself (most : Nat) (asks : Prop) : Likeness where
  fits line line' := line = line' ∧ 1 ≤ line ∧ line ≤ most
  asks := asks
  skips := False

/-- The page of a run beside itself. -/
def onePage (rows most : Nat) (asks : Prop) : (itself most asks).Pages where
  left := rows
  right := rows
  agree := fun fits => by rw [fits.1]

/-- The tokens stand on lines that fit. -/
def Fitting (like : Likeness) (tokens : List Token) : Prop :=
  ∀ token ∈ tokens, like.fits token.span.start.line token.span.start.line

variable {like : Likeness} {token : Token} {tokens : List Token}

theorem Fitting.head (fitting : like.Fitting (token :: tokens)) :
    like.fits token.span.start.line token.span.start.line :=
  fitting token List.mem_cons_self

theorem Fitting.tail (fitting : like.Fitting (token :: tokens)) : like.Fitting tokens :=
  fun other mem => fitting other (List.mem_cons_of_mem _ mem)

theorem Fitting.of_append {more : List Token} (fitting : like.Fitting (more ++ tokens)) :
    like.Fitting tokens :=
  fun other mem => fitting other (List.mem_append_right _ mem)

/-- The expression is alike to itself and begins on a line that fits. -/
structure Stands (like : Likeness) (expr : Expr) : Prop where
  alike : like.ExprAlike expr expr
  fits : like.fits expr.span.start.line expr.span.start.line

end Likeness

namespace Grammar

/-- What is read from tokens on lines that fit has the property. -/
def Ensures {α : Type} (like : Likeness) (property : α → Prop) (form : Phrase α) : Prop :=
  ∀ ⦃before : List Token⦄ ⦃a : α⦄ ⦃after : List Token⦄, form before a after →
    like.Fitting before → property a ∧ like.Fitting after

section Expressions

variable {like : Likeness}

theorem ensures_primary : Ensures like like.Stands Primary := by
  intro before expr after read fitting
  cases read with
  | falsehood _ | truth _ | nothing _ | text _ =>
    exact ⟨⟨.constant _, fitting.head⟩, fitting.tail⟩
  | name _ => exact ⟨⟨.name rfl, fitting.head⟩, fitting.tail⟩

theorem ensures_negated {operand : Phrase Expr} (ensures : Ensures like like.Stands operand)
    (depth : Nat) : Ensures like like.Stands (Negated operand depth) := by
  intro before expr after read fitting
  induction read with
  | operand read => exact ensures read fitting
  | negation _ _ ih =>
    obtain ⟨stands, last⟩ := ih fitting.tail
    exact ⟨⟨.negation rfl stands.alike, fitting.head⟩, last⟩

theorem ensures_leftGrouped {node : Span → Expr → Token → Expr → Expr} {kinds : List TokenKind}
    {operand : Phrase Expr} (ensures : Ensures like like.Stands operand)
    (joins : ∀ {span left operator right}, like.ExprAlike left left →
      like.ExprAlike right right →
      like.ExprAlike (node span left operator right) (node span left operator right))
    (spans : ∀ span left operator right, (node span left operator right).span = span) :
    Ensures like like.Stands (LeftGrouped node kinds operand) := by
  intro before expr after read fitting
  induction read with
  | single read => exact ensures read fitting
  | more _ _ rightRead ih =>
    obtain ⟨left, behind⟩ := ih fitting
    obtain ⟨right, last⟩ := ensures rightRead behind.tail
    refine ⟨⟨joins left.alike right.alike, ?_⟩, last⟩
    rw [spans]
    exact left.fits

theorem ensures_expressionOver {operand : Phrase Expr} (ensures : Ensures like like.Stands operand)
    (depth : Nat) : Ensures like like.Stands (ExpressionOver operand depth) := by
  refine ensures_leftGrouped ?_ (fun left right => .connective left rfl right) fun _ _ _ _ => rfl
  refine ensures_leftGrouped ?_ (fun left right => .connective left rfl right) fun _ _ _ _ => rfl
  refine ensures_leftGrouped ?_ (fun left right => .comparison left rfl right) fun _ _ _ _ => rfl
  exact ensures_negated ensures depth

theorem ensures_separated {α : Type} {property : α → Prop} {item : Phrase α}
    (ensures : Ensures like property item) :
    Ensures like (∀ a ∈ ·, property a) (Separated item) := by
  intro before items after read fitting
  induction read with
  | single read =>
    obtain ⟨holds, last⟩ := ensures read fitting
    exact ⟨List.forall_mem_singleton.mpr holds, last⟩
  | more _ _ _ read ih =>
    obtain ⟨earlier, behind⟩ := ih fitting
    obtain ⟨holds, last⟩ := ensures read behind.tail
    exact ⟨List.forall_mem_append.mpr ⟨earlier, List.forall_mem_singleton.mpr holds⟩, last⟩

theorem ensures_listed {α : Type} {property : α → Prop} {item : Phrase α}
    (ensures : Ensures like property item) : Ensures like (∀ a ∈ ·, property a) (Listed item) := by
  intro before items after read fitting
  cases read with
  | none => exact ⟨List.forall_mem_nil _, fitting⟩
  | some read => exact ensures_separated ensures read fitting

theorem ensures_called (depth : Nat) : Ensures like like.Stands (Called depth) := by
  intro before expr after read fitting
  induction read with
  | primary read => exact ensures_primary read fitting
  | call _ _ inside _ ih =>
    obtain ⟨callee, behind⟩ := ih fitting
    obtain ⟨each, closing⟩ :=
      ensures_listed (ensures_expressionOver ensures_primary depth) inside behind.tail
    have arguments := List.forall₂_same.mpr fun expr mem => (each expr mem).alike
    exact ⟨⟨.call callee.fits callee.alike rfl arguments, callee.fits⟩, closing.tail⟩

theorem ensures_expression (depth : Nat) : Ensures like like.Stands (Expression depth) :=
  ensures_expressionOver (ensures_called depth) depth

theorem ensures_condition (depth : Nat) : Ensures like like.Stands (Condition depth) := by
  intro before test after read fitting
  cases read with
  | intro _ inside _ =>
    obtain ⟨stands, closing⟩ :=
      ensures_expressionOver ensures_primary depth inside fitting.tail
    exact ⟨stands, closing.tail⟩

theorem ensures_name : Ensures like (fun _ => True) Name := by
  intro before token after read fitting
  cases read with
  | intro _ => exact ⟨trivial, fitting.tail⟩

theorem stmtAlike_printed {expr : Expr} (stands : like.Stands expr) :
    like.StmtAlike (printed expr) (printed expr) := by
  unfold printed
  split
  · exact .expression false stands.alike
  · exact .expression true
      (.call stands.fits (.name rfl) rfl (.cons stands.alike .nil))

end Expressions

section Statements

variable {like : Likeness}

theorem ensures_lines {item : Phrase Stmt}
    (ensures : Ensures like (fun statement => like.StmtAlike statement statement) item) :
    Ensures like (fun statements => like.RowsAlike statements statements) (Lines item) := by
  intro before statements after read fitting
  induction read with
  | nil => exact ⟨.nil, fitting⟩
  | lineEnd _ _ ih => exact ih fitting.tail
  | cons first _ ih =>
    obtain ⟨alike, behind⟩ := ensures first fitting
    obtain ⟨rest, last⟩ := ih behind
    exact ⟨.cons alike rest, last⟩

section Rules

variable {depth : Nat} {inner : Phrase Stmt} {body : Phrase (List Stmt × Token)}
  (innerEnsures : Ensures like (fun statement => like.StmtAlike statement statement) inner)
  (bodyEnsures : Ensures like (fun inside => like.RowsAlike inside.1 inside.1) body)

include innerEnsures bodyEnsures

/-- A statement that was read from tokens on fitting lines is alike to itself. -/
theorem ensures_statementRule :
    Ensures like (fun statement => like.StmtAlike statement statement)
      (StatementRule depth inner body) := by
  intro before statement after read fitting
  cases read with
  | condition _ testRead yesRead =>
    obtain ⟨test, behind⟩ := ensures_condition depth testRead fitting.tail
    obtain ⟨yes, last⟩ := innerEnsures yesRead behind
    exact ⟨.condition test.alike yes .none, last⟩
  | alternative _ testRead yesRead _ _ _ noRead =>
    obtain ⟨test, behind⟩ := ensures_condition depth testRead fitting.tail
    obtain ⟨yes, behind⟩ := innerEnsures yesRead behind
    obtain ⟨no, last⟩ := innerEnsures noRead behind.of_append.tail
    exact ⟨.condition test.alike yes (.some no), last⟩
  | giveNothing _ _ => exact ⟨.giveBack rfl .none, fitting.tail⟩
  | giveBack _ valueRead =>
    obtain ⟨value, last⟩ := ensures_expression depth valueRead fitting.tail
    exact ⟨.giveBack rfl (.some value.alike), last⟩
  | loop _ testRead insideRead =>
    obtain ⟨test, behind⟩ := ensures_condition depth testRead fitting.tail
    obtain ⟨inside, last⟩ := innerEnsures insideRead behind
    exact ⟨.loop test.alike inside, last⟩
  | block _ inside =>
    obtain ⟨rows, last⟩ := bodyEnsures inside fitting.tail
    exact ⟨.block rows, last⟩
  | expression exprRead =>
    obtain ⟨stands, last⟩ := ensures_expression depth exprRead fitting
    exact ⟨stmtAlike_printed stands, last⟩

theorem ensures_declarationRule (nested : Bool) :
    Ensures like (fun statement => like.StmtAlike statement statement)
      (DeclarationRule nested depth inner body) := by
  intro before statement after read fitting
  cases read with
  | remark _ _ => exact ⟨.remark, fitting.tail.tail⟩
  | directive _ _ _ _ => exact ⟨.directive rfl rfl, fitting.tail.tail.tail⟩
  | directiveBe _ _ _ _ _ => exact ⟨.directive rfl rfl, fitting.tail.tail.tail.tail⟩
  | function _ _ _ paramsRead _ _ inside =>
    obtain ⟨_, behind⟩ := ensures_listed ensures_name paramsRead fitting.tail.tail.tail
    obtain ⟨rows, last⟩ := bodyEnsures inside behind.tail.tail
    exact ⟨.function rfl rfl rfl rows, last⟩
  | binding _ _ => exact ⟨.binding rfl .none, fitting.tail.tail⟩
  | bindingBe _ _ _ valueRead =>
    obtain ⟨value, last⟩ := ensures_expression depth valueRead fitting.tail.tail.tail
    exact ⟨.binding rfl (.some value.alike), last⟩
  | statement read => exact innerEnsures read fitting

end Rules

theorem ensures_layer (like : Likeness) (depth : Nat) :
    Ensures like (fun statement => like.StmtAlike statement statement) (Statement depth) ∧
      (∀ nested, Ensures like (fun statement => like.StmtAlike statement statement)
        (Declaration nested depth)) ∧
      Ensures like (fun inside => like.RowsAlike inside.1 inside.1) (Body depth) := by
  induction depth with
  | zero => exact ⟨fun _ _ _ => False.elim, fun _ _ _ _ => False.elim, fun _ _ _ => False.elim⟩
  | succ depth ih =>
    obtain ⟨statement, declaration, body⟩ := ih
    refine ⟨ensures_statementRule statement body, ensures_declarationRule statement body, ?_⟩
    rintro before inside after ⟨lines, _⟩ fitting
    obtain ⟨rows, closing⟩ := ensures_lines (declaration true) lines fitting
    exact ⟨rows, closing.tail⟩

/-- A program that was read is alike to itself, where its tokens stand on lines that fit. -/
theorem rowsAlike_of_reads {depth : Nat} {tokens : List Token} {program : Program}
    (read : Reads depth tokens program) (fitting : like.Fitting tokens) :
    like.RowsAlike program program :=
  (ensures_lines ((ensures_layer like depth).2.1 false) read fitting).1

end Statements

end Grammar

/-! ## Reading a source -/

namespace Source

variable {limits : Limits} {source : Source} {parsed : Parsed}

/-- The number of lines of the text. -/
def rows (source : Source) : Nat :=
  (splitLines source.text.toList).length

/-- The program of a source is alike to itself, with calls on the lines of the text. -/
theorem rowsAlike_of_parseUnder (read : source.parseUnder limits = .ok parsed) {most : Nat}
    (le : source.rows ≤ most) (asks : Prop) :
    (Likeness.itself most asks).RowsAlike parsed.program parsed.program := by
  obtain ⟨scanned, programRead⟩ := parseUnder_eq_ok_iff.mp read
  obtain ⟨body, final, whole, ends, inside⟩ := exists_body_of_scan scanned
  rw [whole] at programRead
  refine Grammar.rowsAlike_of_reads ((Program.parseWithin_eq_ok_iff inside ends).mp programRead) ?_
  intro token mem
  have known : token ∈ parsed.tokens := whole ▸ List.mem_append_left _ mem
  obtain ⟨first, last⟩ := (scan_points scanned token known).1.line_bounds
  change _ ≤ (source.rows : Int) at last
  exact ⟨rfl, first, by omega⟩

end Source

/-! ## The ends of a run -/

/-- The fault is reported by the stage, with one of the codes. -/
def Fault.Reported (stage : Stage) (codes : List String) (fault : Fault) : Prop :=
  ∃ diagnostic, fault.diagnostic? = some diagnostic ∧ diagnostic.stage = stage ∧
    diagnostic.code ∈ codes

theorem ScanCause.reported (cause : ScanCause) (span : Span) :
    (Fault.scan cause span).Reported .scan ["LEX001", "LEX002"] := by
  refine ⟨cause.diagnostic span, rfl, ?_⟩
  cases cause <;> simp [diagnostic]

theorem ParseCause.reported (cause : ParseCause) (found : Token) :
    (Fault.parse cause found).Reported .parse ["PAR001", "PAR002", "PAR003", "PAR004"] := by
  refine ⟨cause.diagnostic found, rfl, ?_⟩
  cases cause <;> simp [diagnostic, wording]

theorem RunCause.reported (cause : RunCause) (place : Token) :
    (Fault.run cause place).Reported .run ["RUN001", "RUN002"] := by
  refine ⟨cause.diagnostic place, rfl, ?_⟩
  cases cause <;> simp [diagnostic]

namespace Run

/-- The run has ended well, or by a mistake of the program, or since nobody answered. -/
inductive Ended (asked : Prop) : Run → Prop
  | well {machine : Machine} : Ended asked ⟨none, machine⟩
  | mistake {fault : Fault} {machine : Machine} :
    fault.Reported .run ["RUN001", "RUN002"] → Ended asked ⟨some fault, machine⟩
  | unanswered {machine : Machine} : asked → Ended asked ⟨some .noAnswer, machine⟩

/-- Everything was printed on one of the first lines. -/
def PrintsWithin (rows : Nat) (run : Run) : Prop :=
  ∀ (line : Int) text, .printed line text ∈ run.machine.log → 1 ≤ line ∧ line ≤ rows

end Run

theorem Page.isSome_place?_iff {rows : Nat} {line : Int} (positive : 1 ≤ line) :
    (place? rows line).isSome = true ↔ line ≤ rows := by
  unfold place?
  grind

namespace Likeness

variable {rows most : Nat} {asks : Prop} {run : Run}

theorem printsWithin_of_runAlike (alike : (onePage rows most asks).RunAlike run run) :
    run.PrintsWithin rows := by
  intro line text mem
  have events := List.forall₂_same.mp alike.machine.log _ mem
  cases events with
  | printed _ fits there => exact ⟨fits.2.1, (Page.isSome_place?_iff fits.2.1).mp there⟩

/-- A run beside itself has ended in one of few ways. -/
theorem ended_of_runAlike (alike : (onePage rows most asks).RunAlike run run) :
    run.stoppedAtLimit = true ∨ run.Ended asks ∨
      run.fault = some .noSuchLine ∧ rows < most := by
  obtain ⟨fault, machine⟩ := run
  have faults := alike.fault
  cases fault with
  | none => exact .inr (.inl .well)
  | some fault =>
    cases faults with
    | some same =>
      cases same with
      | run cause _ => exact .inr (.inl (.mistake (cause.reported _)))
      | tooDeep => exact .inl rfl
      | endless => exact .inl rfl
      | noAnswer asked => exact .inr (.inl (.unanswered asked))
      | noSuchLine fits missing =>
        obtain ⟨_, positive, bounded⟩ := fits
        have beyond := (Page.isSome_place?_iff positive).not.mp (by
          rw [show Page.place? rows _ = none from missing]
          decide)
        exact .inr (.inr ⟨rfl, by omega⟩)

end Likeness

namespace Source

variable {limits : Limits} {source : Source}

/-- The ways in which a source ends that comes to an end: it is refused, or it runs, and all that it
prints lands on its lines. -/
inductive Ends (source : Source) (asked : Prop) : Except Fault (Parsed × Run) → Prop
  | scan {fault : Fault} : fault.Reported .scan ["LEX001", "LEX002"] →
    Ends source asked (.error fault)
  | parse {fault : Fault} :
    fault.Reported .parse ["PAR001", "PAR002", "PAR003", "PAR004"] →
    Ends source asked (.error fault)
  | run {parsed : Parsed} {run : Run} : run.Ended asked → run.PrintsWithin source.rows →
    Ends source asked (.ok (parsed, run))

theorem ends_of_parseUnder_error {fault : Fault} (asked : Prop)
    (stopped : source.parseUnder limits = .error fault) :
    fault = .tooDeep ∨ source.Ends asked (.error fault) := by
  rcases parseUnder_eq_error_iff.mp stopped with scanned | ⟨tokens, scanned, programRead⟩
  · obtain ⟨cause, span, rfl, _⟩ := stopsIn_of_scan scanned
    exact .inr (.scan (cause.reported span))
  · obtain ⟨body, final, rfl, ends, inside⟩ := exists_body_of_scan scanned
    have refusal := Program.isRefusal_of_parseWithin inside ends programRead
    cases fault with
    | parse cause found => exact .inr (.parse (cause.reported found))
    | tooDeep => exact .inl rfl
    | _ => cases refusal

/-- A run in a store that is alike to itself stops at a limit or ends, unless it prints past the end
of the page. -/
theorem ends_of_storeAlike {parsed : Parsed} {store : Store} {settings : Settings} {asks : Prop}
    {most : Nat} (read : source.parseUnder limits = .ok parsed) (le : source.rows ≤ most)
    (stores : (Likeness.itself most asks).StoreAlike store store)
    (asking : settings.dialogue.isSome = true → asks) (scope : ScopeId) :
    let run := parsed.program.runUnder limits (.start store scope settings source.text.toList)
    run.PrintsWithin source.rows ∧
      (Likeness.itself most asks).StoreAlike run.machine.store run.machine.store ∧
      (run.stoppedAtLimit = true ∨ run.Ended asks ∨
        run.fault = some .noSuchLine ∧ source.rows < most) := by
  have machines : (Likeness.onePage source.rows most asks).MachineAlike
      (.start store scope settings source.text.toList)
      (.start store scope settings source.text.toList) :=
    Likeness.Pages.machineAlike_start stores asking rfl rfl scope
  have quiet : (Likeness.itself most asks).skips → limits.remarks = false := False.elim
  have alike := Likeness.Pages.runAlike_runUnder quiet (rowsAlike_of_parseUnder read le asks)
    machines
  exact ⟨Likeness.printsWithin_of_runAlike alike, alike.machine.store,
    Likeness.ended_of_runAlike alike⟩

theorem storeAlike_of_functions_eq {like : Likeness} {store : Store}
    (none : store.functions = .empty) (asking : store.settings.dialogue.isSome = true → like.asks) :
    like.StoreAlike store store := by
  refine ⟨rfl, rfl, fun address => ?_, asking⟩
  rw [none]
  exact .none

/-- Under any limits, a run in a fresh store stops at a limit or ends. -/
theorem ends_runUnder (limits : Limits) (source : Source) (answers : Option (List String)) :
    AtLimit (source.runUnder limits answers) ∨
      source.Ends (answers.isSome = true) (source.runUnder limits answers) := by
  unfold runUnder runInUnder
  cases read : source.parseUnder limits with
  | error fault => exact ends_of_parseUnder_error _ read
  | ok parsed =>
    have stores : (Likeness.itself source.rows (answers.isSome = true)).StoreAlike
        (Store.fresh.answering answers).2 (Store.fresh.answering answers).2 := by
      cases answers <;> exact storeAlike_of_functions_eq rfl nofun
    have asking : (Store.fresh.answering answers).1.dialogue.isSome = true →
        answers.isSome = true := by
      cases answers with
      | none => exact id
      | some answers => exact fun _ => rfl
    obtain ⟨prints, _, limit | ended | ⟨_, beyond⟩⟩ :=
      ends_of_storeAlike read (Nat.le_refl _) stores asking Store.root
    · exact .inl limit
    · exact .inr (.run ended prints)
    · exact absurd beyond (Nat.lt_irrefl _)

/-- A run in a fresh store that comes to an end is refused by the scanner or the reader, or ends
well, or by a mistake of the program, or since a question was not answered; and all that is printed
lands on a line of the source. It comes to no end exactly if it stops at its limits whatever they
are, and an end that it comes to under some limits is its end under all higher ones. -/
theorem run_ends (source : Source) (answers : Option (List String)) :
    (AtLimit (source.run answers) ∨
      source.Ends (answers.isSome = true) (source.run answers) ∧
        ∀ more, Limits.standard.Le more → source.runUnder more answers = source.run answers) ∧
      ((∀ limits, AtLimit (source.runUnder limits answers)) ∨
        ∃ limits, source.Ends (answers.isSome = true) (source.runUnder limits answers) ∧
          ∀ more, limits.Le more →
            source.runUnder more answers = source.runUnder limits answers) := by
  have lasting : ∀ limits, AtLimit (source.runUnder limits answers) ∨
      source.Ends (answers.isSome = true) (source.runUnder limits answers) ∧
        ∀ more, limits.Le more →
          source.runUnder more answers = source.runUnder limits answers := by
    intro limits
    by_cases stopped : AtLimit (source.runUnder limits answers)
    · exact .inl stopped
    · refine .inr ⟨(ends_runUnder limits source answers).resolve_left stopped, fun more le => ?_⟩
      exact ((runUnder_of_le le source answers).resolve_left stopped).symm
  refine ⟨lasting .standard, ?_⟩
  by_cases endless : ∀ limits, AtLimit (source.runUnder limits answers)
  · exact .inl endless
  · obtain ⟨limits, ended⟩ := not_forall.mp endless
    exact .inr ⟨limits, (lasting limits).resolve_left ended⟩

/-! ## Runs one after the other -/

/-- What a source leaves behind in a store when it is run under some limits. A source that is
refused leaves it as it is. -/
def leaves (limits : Limits) (source : Source) (store : Store) : Store :=
  match source.runInUnder limits store Store.root none with
  | .ok (_, run) => run.machine.store
  | .error _ => store

theorem storeAlike_leaves {most : Nat} {store : Store} (le : source.rows ≤ most)
    (stores : (Likeness.itself most False).StoreAlike store store) :
    (Likeness.itself most False).StoreAlike (source.leaves limits store)
      (source.leaves limits store) := by
  unfold leaves runInUnder
  cases read : source.parseUnder limits with
  | error fault => exact stores
  | ok parsed =>
    have silent : Settings.plain.dialogue.isSome = true → False := by decide
    exact (ends_of_storeAlike read le stores silent Store.root).2.1

/-- What sources leave behind that run one after the other in a store. -/
def leaveAll (limits : Limits) (sources : List Source) (store : Store) : Store :=
  sources.foldl (fun store source => source.leaves limits store) store

theorem storeAlike_leaveAll {most : Nat} {sources : List Source}
    (le : ∀ source ∈ sources, source.rows ≤ most) {store : Store}
    (stores : (Likeness.itself most False).StoreAlike store store) :
    (Likeness.itself most False).StoreAlike (leaveAll limits sources store)
      (leaveAll limits sources store) := by
  induction sources generalizing store with
  | nil => exact stores
  | cons source sources ih =>
    refine ih (fun other mem => le other (List.mem_cons_of_mem _ mem)) ?_
    exact storeAlike_leaves (le source List.mem_cons_self) stores

/-- The most lines that some sources have, where one of them is always there. -/
theorem exists_most_rows (earlier : List Source) (source : Source) :
    ∃ most, source.rows ≤ most ∧ (∀ other ∈ earlier, other.rows ≤ most) ∧
      (source.rows < most → ∃ other ∈ earlier, source.rows < other.rows) := by
  induction earlier with
  | nil => exact ⟨source.rows, Nat.le_refl _, nofun, fun less => absurd less (Nat.lt_irrefl _)⟩
  | cons first earlier ih =>
    obtain ⟨most, own, others, longer⟩ := ih
    refine ⟨max most first.rows, by omega, ?_, fun less => ?_⟩
    · rw [List.forall_mem_cons]
      exact ⟨Nat.le_max_right _ _, fun other mem =>
        Nat.le_trans (others other mem) (Nat.le_max_left _ _)⟩
    · by_cases beyond : source.rows < first.rows
      · exact ⟨first, List.mem_cons_self, beyond⟩
      · obtain ⟨other, mem, more⟩ := longer (by omega)
        exact ⟨other, List.mem_cons_of_mem _ mem, more⟩

/-- Under any limits, a run in a store that earlier sources have left behind stops at a limit or
ends, unless it prints past the end of its page. That happens only after a source that has more
lines. -/
theorem runIn_ends (limits : Limits) (earlier : List Source) (source : Source) :
    let outcome := source.runInUnder limits (leaveAll limits earlier .fresh) Store.root none
    AtLimit outcome ∨ source.Ends False outcome ∨
      ∃ parsed run, outcome = .ok (parsed, run) ∧ run.fault = some .noSuchLine ∧
        run.PrintsWithin source.rows ∧ ∃ other ∈ earlier, source.rows < other.rows := by
  dsimp only
  unfold runInUnder
  cases read : source.parseUnder limits with
  | error fault =>
    rcases ends_of_parseUnder_error False read with deep | ends
    · exact .inl deep
    · exact .inr (.inl ends)
  | ok parsed =>
    -- The functions in the store stand on lines that some source has had.
    obtain ⟨most, own, others, longer⟩ := exists_most_rows earlier source
    have silent : Settings.plain.dialogue.isSome = true → False := by decide
    have fresh : (Likeness.itself most False).StoreAlike .fresh .fresh :=
      storeAlike_of_functions_eq rfl silent
    obtain ⟨prints, _, limit | ended | ⟨missing, beyond⟩⟩ :=
      ends_of_storeAlike read own (storeAlike_leaveAll others fresh) silent Store.root
    · exact .inl limit
    · exact .inr (.inl (.run ended prints))
    · exact .inr (.inr ⟨parsed, _, rfl, missing, prints, longer beyond⟩)

/-- A function that prints, kept from a source of five lines, is called from a source of one. -/
theorem runIn_beyond_page :
    ∃ parsed run, (Source.mk "f——" "").runIn
        (leaveAll .standard [⟨"\n\nto f——:\nprint—“a”—\n.", ""⟩] .fresh) Store.root none =
          .ok (parsed, run) ∧
      run.fault = some .noSuchLine := by
  have stopped : (((Source.mk "f——" "").runIn
      (leaveAll .standard [⟨"\n\nto f——:\nprint—“a”—\n.", ""⟩] .fresh) Store.root none).map
        fun outcome => outcome.2.fault).toOption = some (some .noSuchLine) := by
    decide +kernel
  generalize (Source.mk "f——" "").runIn _ Store.root none = outcome at stopped
  cases outcome with
  | error fault => cases stopped
  | ok outcome => exact ⟨outcome.1, outcome.2, rfl, Option.some.inj stopped⟩

end Source

end Marginalia
