import Marginalia.Proofs.Layout.RoundTrip
import Marginalia.Proofs.Running.Changes
import Marginalia.Proofs.Scanning.Positions
import Mathlib.Data.List.Forall2
import Mathlib.Data.List.Infix

/-!
# The echo of a run

The trace of a machine is what was printed so far, each text with its line. The page of a machine in
the middle of its run is the source with the trace noted in its margins (`Moment.Reaches.noted`): a
step that prints adds one entry to the trace and one note to the page, and no other step touches
either. Notes begin with a dagger only where the line has none, wherever on the line it stands, so
the echo can be said without a page: each line with what was printed on it (`annotated`).
-/

namespace Marginalia

/-! ## Lines with notes -/

namespace Line

theorem margin_ofChars_isSome_iff (text : List Char) :
    (ofChars text).margin.isSome = true ↔ [' ', '†'] <:+: text := by
  fun_induction ofChars text with
  | case1 => simp
  | case2 rest => exact ⟨fun _ => ⟨[], rest, rfl⟩, fun _ => rfl⟩
  | case3 c rest apart tail ih =>
    rw [List.infix_cons_iff, ← ih]
    refine ⟨.inr, fun found => found.resolve_left fun begins => ?_⟩
    obtain ⟨more, whole⟩ := begins
    cases whole
    exact apart more rfl rfl

theorem chars_note (line : Line) (text : List Char) :
    (line.note text).chars =
      line.chars ++ ((if line.margin.isSome then [] else [' ', '†']) ++ text) := by
  cases line with
  | mk start margin => cases margin <;> simp [note, chars]

theorem chars_notes_of_margin {line : Line} (margin : line.margin.isSome = true)
    (texts : List String) :
    (texts.foldl (fun line text => line.note text.toList) line).chars =
      line.chars ++ texts.flatMap String.toList := by
  induction texts generalizing line with
  | nil => simp
  | cons text texts ih =>
    rw [List.foldl_cons, ih rfl, chars_note, if_pos margin, List.flatMap_cons, List.nil_append,
      List.append_assoc]

end Line

/-- A line with what was printed on it. -/
def annotated (line : List Char) (texts : List String) : List Char :=
  if texts = [] then line
  else line ++ (if [' ', '†'] <:+: line then [] else [' ', '†']) ++ texts.flatMap String.toList

theorem prefix_annotated (line : List Char) (texts : List String) :
    line <+: annotated line texts := by
  unfold annotated
  split
  · exact List.prefix_refl line
  · rw [List.append_assoc]
    exact List.prefix_append _ _

theorem Line.chars_notes (line : List Char) (texts : List String) :
    (texts.foldl (fun line text => line.note text.toList) (ofChars line)).chars =
      annotated line texts := by
  cases texts with
  | nil => exact chars_ofChars line
  | cons text texts =>
    rw [List.foldl_cons, chars_notes_of_margin rfl, chars_note, chars_ofChars, annotated,
      if_neg (List.cons_ne_nil _ _), List.flatMap_cons]
    simp only [margin_ofChars_isSome_iff, List.append_assoc]

/-! ## Traces -/

/-- The texts that were printed on a line, oldest first. -/
def textsOn (trace : List (Int × String)) (line : Int) : List String :=
  (trace.filter (·.1 = line)).map (·.2)

theorem textsOn_concat (trace : List (Int × String)) (here : Int) (text : String) (line : Int) :
    textsOn (trace ++ [(here, text)]) line =
      textsOn trace line ++ if here = line then [text] else [] := by
  by_cases same : here = line <;> simp [textsOn, List.filter_append, same]

/-- The lines of a text, each with what was printed on it. -/
def annotatedLines (text : List Char) (trace : List (Int × String)) : List (List Char) :=
  (splitLines text).mapIdx fun index line => annotated line (textsOn trace (index + 1))

theorem prefix_annotatedLines (text : List Char) (trace : List (Int × String)) :
    List.Forall₂ (· <+: ·) (splitLines text) (annotatedLines text trace) := by
  refine List.forall₂_iff_get.mpr ⟨(List.length_mapIdx).symm, fun index here there => ?_⟩
  simp only [annotatedLines, List.get_eq_getElem, List.getElem_mapIdx]
  exact prefix_annotated _ _

/-- What was printed so far and on which line, oldest first. -/
def Machine.trace (machine : Machine) : List (Int × String) :=
  machine.log.filterMap fun
    | .printed line text => some (line, text)
    | .asked _ => none

namespace Page

/-- The page of a text with a trace noted in its margins. -/
def noted (text : List Char) (trace : List (Int × String)) : Page :=
  (splitLines text).mapIdx fun index line =>
    (textsOn trace (index + 1)).foldl (fun line text => line.note text.toList) (Line.ofChars line)

theorem noted_nil (text : List Char) : noted text [] = ofSource text := by
  refine List.ext_getElem? fun index => ?_
  rw [noted, ofSource, List.getElem?_mapIdx, List.getElem?_map]
  rfl

theorem text_noted (text : List Char) (trace : List (Int × String)) :
    (noted text trace).text = joinLines (annotatedLines text trace) := by
  have lines : (noted text trace).map Line.chars = annotatedLines text trace := by
    refine List.ext_getElem? fun index => ?_
    rw [List.getElem?_map, noted, annotatedLines, List.getElem?_mapIdx, List.getElem?_mapIdx,
      Option.map_map]
    exact congrArg (Option.map · _) (funext fun line => Line.chars_notes line _)
  rw [Page.text, lines]

/-- Printing on a line that counts from one notes one entry more. -/
theorem eq_noted_of_print? {text : List Char} {trace : List (Int × String)} {line : Int}
    {added : String} {page : Page} (positive : 1 ≤ line)
    (printed : (noted text trace).print? line added.toList = some page) :
    page = noted text (trace ++ [(line, added)]) := by
  obtain ⟨index, place, rfl⟩ := Option.map_eq_some_iff.mp printed
  have here : line = index + 1 := by
    unfold place? at place
    grind
  refine List.ext_getElem? fun other => ?_
  rw [List.getElem?_modify, noted, noted, List.getElem?_mapIdx, List.getElem?_mapIdx,
    Option.map_eq_map, Option.map_map]
  refine congrArg (Option.map · _) (funext fun source => ?_)
  rw [textsOn_concat, Function.comp_apply, here]
  by_cases same : index = other
  · simp [same]
  · have apart : (index : Int) + 1 ≠ other + 1 := by omega
    rw [if_neg apart, if_neg same, List.append_nil]

end Page

/-! ## Callees of a program -/

/-- The callees of a part of an expression are callees of the expression. -/
theorem Expr.callees_part_subset {whole part : Expr} (mem : part ∈ whole.parts) :
    part.callees ⊆ whole.callees := by
  cases whole with
  | negation span operator operand =>
    obtain rfl := List.mem_singleton.mp mem
    rw [callees]
    exact List.Subset.refl _
  | comparison span left operator right | connective span left operator right =>
    obtain rfl | rfl : part = left ∨ part = right := by simpa [parts] using mem
    · rw [callees]
      exact List.subset_append_left _ _
    · rw [callees]
      exact List.subset_append_right _ _
  | call span callee marker arguments =>
    rw [callees]
    rcases List.mem_cons.mp mem with rfl | inside
    · exact List.subset_cons_of_subset _ (List.subset_append_left _ _)
    · have known := List.subset_append_of_subset_right callee.callees
        (Expr.callees_subset_of_mem inside)
      exact List.subset_cons_of_subset _ known
  | constant _ _ | name _ _ | unknown _ _ _ => cases mem

theorem Stmt.callees_expr_subset {statement : Stmt} {expr : Expr}
    (mem : expr ∈ statement.exprs) : expr.callees ⊆ statement.callees := by
  cases statement with
  | expression span whole wrapped =>
    obtain rfl := List.mem_singleton.mp mem
    rw [callees]
    exact List.Subset.refl _
  | binding span name initial | giveBack span name initial =>
    obtain rfl := Option.mem_toList.mp mem
    exact List.Subset.refl _
  | condition span test yes no =>
    obtain rfl := List.mem_singleton.mp mem
    cases no with
    | none => exact List.subset_append_left _ _
    | some no => exact List.subset_append_left _ _
  | loop span test body =>
    obtain rfl := List.mem_singleton.mp mem
    exact List.subset_append_left _ _
  | block _ _ | function _ _ _ _ | directive _ _ _ | remark _ _ | unknown _ _ _ => cases mem

theorem Stmt.callees_child_subset {statement child : Stmt} (mem : child ∈ statement.children) :
    child.callees ⊆ statement.callees := by
  cases statement with
  | block span statements | function span name params statements =>
    rw [callees]
    exact Stmt.callees_subset_of_mem mem
  | condition span test yes no =>
    cases no with
    | none =>
      obtain rfl := List.mem_singleton.mp mem
      exact List.subset_append_right _ _
    | some no =>
      obtain rfl | rfl : child = yes ∨ child = no := by simpa [children] using mem
      · exact List.subset_append_of_subset_right _ (List.subset_append_left _ _)
      · exact List.subset_append_of_subset_right _ (List.subset_append_right _ _)
  | loop span test body =>
    obtain rfl := List.mem_singleton.mp mem
    exact List.subset_append_right _ _
  | expression _ _ _ | binding _ _ _ | giveBack _ _ _ | directive _ _ _ | remark _ _
  | unknown _ _ _ => cases mem

namespace Program

variable {program : Program}

theorem Has.callees_subset {statement : Stmt} (has : program.Has statement) :
    statement.callees ⊆ program.callees := by
  apply has.all (fun _ => Stmt.callees_subset_of_mem)
  exact fun outer known child mem => List.Subset.trans (Stmt.callees_child_subset mem) known

theorem HasExpr.callees_subset {expr : Expr} (has : program.HasExpr expr) :
    expr.callees ⊆ program.callees := by
  apply has.all
  · exact fun statement known expr mem =>
      List.Subset.trans (Stmt.callees_expr_subset mem) known.callees_subset
  · exact fun whole known part mem => List.Subset.trans (Expr.callees_part_subset mem) known

theorem HasCall.mem_callees {callee : Expr} {marker : Token} (has : program.HasCall callee marker) :
    callee ∈ program.callees := by
  obtain ⟨span, arguments, call⟩ := has
  have inside := call.callees_subset
  rw [Expr.callees] at inside
  exact inside List.mem_cons_self

end Program

/-! ## The page and the trace of a run -/

namespace Moment

variable {depth : Nat} {moment next origin last : Moment}

/-- A step leaves page and trace as they are, or it calls the printer. -/
theorem Step.page_trace (step : Step depth moment next) :
    (next.machine.page = moment.machine.page ∧ next.machine.trace = moment.machine.trace) ∨
      ∃ callee arguments added, moment.focus = .call callee .printer arguments ∧
        moment.machine.store.renderAll depth arguments = .ok added ∧
        moment.machine.page.print? callee.span.start.line added.toList = some next.machine.page ∧
        next.machine.trace = moment.machine.trace ++ [(callee.span.start.line, added)] := by
  cases step with
  | print frames rendered printed =>
    exact .inr ⟨_, _, _, rfl, rendered, printed, by simp [Machine.trace]⟩
  | ask callee frames _ => exact .inl ⟨rfl, by simp [Machine.trace]⟩
  | _ => exact .inl ⟨rfl, rfl⟩

/-- On its way a run keeps the page of the source with the trace noted in its margins. -/
theorem Reaches.noted {program : Program} {text : List Char} (reached : origin.Reaches depth moment)
    (positive : ∀ callee ∈ program.callees, 1 ≤ callee.span.start.line)
    (stands : origin.StandsIn program)
    (noted : origin.machine.page = .noted text origin.machine.trace) :
    moment.machine.page = .noted text moment.machine.trace := by
  induction reached with
  | refl => exact noted
  | tail before step ih =>
    rcases step.page_trace with ⟨samePage, sameTrace⟩ | ⟨callee, _, _, focus, _, printed, entry⟩
    · rw [samePage, sameTrace, ih]
    · obtain ⟨⟨marker, called⟩, _⟩ := (Reaches.standsIn before stands).call focus
      rw [ih] at printed
      rw [entry]
      exact Page.eq_noted_of_print? (positive callee called.mem_callees) printed

/-- The printer is called at the moment, and what it is given is this text. -/
def Prints (depth : Nat) (moment : Moment) (callee : Expr) (text : String) : Prop :=
  ∃ arguments, moment.focus = .call callee .printer arguments ∧
    moment.machine.store.renderAll depth arguments = .ok text

/-- Every entry of a trace is a call of the printer that was made when the trace had just the
entries before it. -/
theorem Reaches.exists_prints {earlier later : List (Int × String)} {line : Int} {added : String}
    (reached : origin.Reaches depth last) (unprinted : origin.machine.trace = [])
    (whole : last.machine.trace = earlier ++ (line, added) :: later) :
    ∃ moment callee, origin.Reaches depth moment ∧ moment.Reaches depth last ∧
      moment.machine.trace = earlier ∧ line = callee.span.start.line ∧
      moment.Prints depth callee added := by
  induction reached generalizing later with
  | refl =>
    rw [unprinted] at whole
    cases earlier <;> cases whole
  | @tail middle last before step ih =>
    -- The entry was there before the last step, or the last step has added it.
    have known : (∃ rest, middle.machine.trace = earlier ++ (line, added) :: rest) ∨
        ∃ callee, middle.machine.trace = earlier ∧ line = callee.span.start.line ∧
          middle.Prints depth callee added := by
      rcases step.page_trace with ⟨_, same⟩ | ⟨callee, arguments, text, focus, rendered, _, entry⟩
      · exact .inl ⟨later, same ▸ whole⟩
      rw [entry] at whole
      rcases List.eq_nil_or_concat later with rfl | ⟨rest, latest, rfl⟩
      · obtain ⟨same, newest⟩ := List.append_inj' whole rfl
        cases newest
        exact .inr ⟨callee, same, rfl, arguments, focus, rendered⟩
      · rw [List.concat_eq_append, ← List.cons_append, ← List.append_assoc] at whole
        exact .inl ⟨rest, (List.append_inj' whole rfl).1⟩
    rcases known with ⟨rest, split⟩ | ⟨callee, same, place, prints⟩
    · obtain ⟨moment, callee, reached, left, call⟩ := ih split
      exact ⟨moment, callee, reached, left.step step, call⟩
    · exact ⟨middle, callee, before, Reaches.step .refl step, same, place, prints⟩

end Moment

/-- A call of the printer adds the text of its arguments to the trace, on the line of its callee. -/
theorem Machine.trace_of_callFunction_printer {limits : Limits} {machine after : Machine}
    {body : List Stmt → Action (Option Returned)} {callee : Expr} {arguments : List Value}
    {value : Value}
    (called : limits.callFunction body callee arguments .printer machine = .ok value after) :
    ∃ added, machine.store.renderAll limits.depth arguments = .ok added ∧
      after.trace = machine.trace ++ [(callee.span.start.line, added)] := by
  rw [Limits.callFunction] at called
  obtain ⟨_, _, printed, ends⟩ := Action.exists_of_bind called
  cases ends
  obtain ⟨added, _, consulted, printed⟩ := Action.exists_of_bind printed
  cases rendered : machine.store.renderAll limits.depth arguments with
  | error fault =>
    rw [Action.consult_of_error rendered] at consulted
    cases consulted
  | ok text =>
    rw [Action.consult_of_ok rendered] at consulted
    cases consulted
    obtain ⟨_, _, seen, printed⟩ := Action.exists_of_bind printed
    cases seen
    cases found : machine.page.print? callee.span.start.line added.toList with
    | none =>
      simp only [found] at printed
      cases printed
    | some page =>
      simp only [found] at printed
      cases printed
      exact ⟨added, rfl, by simp [trace]⟩

/-! ## Runs of a source -/

namespace Source

variable {limits : Limits} {source : Source} {answers : Option (List String)} {parsed : Parsed}
  {run : Run}

/-- What a run leaves behind is the machine of a moment of it, but for the scope. -/
theorem leaves_of_run (ran : source.runUnder limits answers = .ok (parsed, run)) :
    (source.firstMoment answers parsed.program).Leaves limits.depth run.machine := by
  obtain ⟨_, rfl⟩ := runUnder_eq_ok_iff.mp ran
  exact Program.leaves_runUnder (source.reaches_opened answers parsed.program limits.depth)

/-- Every callee of a source that was read begins with a token of the source, which stands on one
of its lines. -/
theorem exists_calleeAt (read : source.parseUnder limits = .ok parsed) :
    ∀ callee ∈ parsed.program.callees, ∃ first, CalleeAt parsed.tokens.dropLast callee first ∧
      1 ≤ first.span.start.line ∧
      first.span.start.line ≤ (splitLines source.text.toList).length := by
  intro callee mem
  obtain ⟨_, whole, _, reads⟩ := scanned_reads_of_parseUnder read
  obtain ⟨first, begins⟩ := reads.exists_calleeAt callee mem
  have known : first ∈ parsed.tokens := whole ▸ List.mem_append_left _ begins.mem
  exact ⟨first, begins, (scan_points (parseUnder_eq_ok_iff.mp read).1 first known).1.line_bounds⟩

theorem noted_of_run (ran : source.runUnder limits answers = .ok (parsed, run)) :
    run.machine.page = .noted source.text.toList run.machine.trace := by
  obtain ⟨last, reached, same⟩ := leaves_of_run ran
  rw [same]
  refine reached.noted (fun callee mem => ?_) (source.standsIn_firstMoment answers parsed.program)
    (Page.noted_nil _).symm
  obtain ⟨first, begins, line, _⟩ :=
    exists_calleeAt (runUnder_eq_ok_iff.mp ran).1 callee mem
  rwa [begins.start]

theorem echo_of_run (ran : source.runUnder limits answers = .ok (parsed, run)) :
    run.machine.page.text = joinLines (annotatedLines source.text.toList run.machine.trace) := by
  rw [noted_of_run ran, Page.text_noted]

/-- The echo of a run is the source, each line with what the printer was given for it, in the order
of its calls. A call of the printer makes one entry of the trace, every entry was made by such a
call, and its line is that of the first token of the callee. -/
theorem run_echo (ran : source.runUnder limits answers = .ok (parsed, run)) :
    run.machine.echo =
        String.ofList (joinLines (annotatedLines source.text.toList run.machine.trace)) ∧
      List.Forall₂ (· <+: ·) (splitLines source.text.toList)
        (annotatedLines source.text.toList run.machine.trace) ∧
      (run.machine.trace = [] → run.machine.echo = source.text) ∧
      (∀ body callee arguments value machine after,
        limits.callFunction body callee arguments .printer machine = .ok value after →
        ∃ text, machine.store.renderAll limits.depth arguments = .ok text ∧
          after.trace = machine.trace ++ [(callee.span.start.line, text)]) ∧
      ∀ earlier line text later, run.machine.trace = earlier ++ (line, text) :: later →
        ∃ moment callee arguments first,
          (source.firstMoment answers parsed.program).Reaches limits.depth moment ∧
          moment.Leaves limits.depth run.machine ∧ moment.machine.trace = earlier ∧
          moment.focus = .call callee .printer arguments ∧
          callee ∈ parsed.program.callees ∧ CalleeAt parsed.tokens.dropLast callee first ∧
          line = first.span.start.line ∧
          1 ≤ line ∧ line ≤ (splitLines source.text.toList).length ∧
          moment.machine.store.renderAll limits.depth arguments = .ok text := by
  have echo := echo_of_run ran
  refine ⟨?_, prefix_annotatedLines _ _, fun unprinted => ?_,
    fun _ _ _ _ _ _ => Machine.trace_of_callFunction_printer, ?_⟩
  · rw [Machine.echo, echo]
  · rw [Machine.echo, noted_of_run ran, unprinted, Page.noted_nil, Page.text_ofSource,
      String.ofList_toList]
  · intro earlier line text later whole
    obtain ⟨last, reached, leaves⟩ := leaves_of_run ran
    rw [leaves] at whole
    obtain ⟨moment, callee, there, left, same, rfl, arguments, focus, rendered⟩ :=
      reached.exists_prints rfl whole
    have stands := there.standsIn (source.standsIn_firstMoment answers parsed.program)
    obtain ⟨⟨marker, called⟩, _⟩ := stands.call focus
    obtain ⟨first, start, low, high⟩ :=
      exists_calleeAt (runUnder_eq_ok_iff.mp ran).1 callee called.mem_callees
    rw [start.start]
    exact ⟨moment, callee, arguments, first, there, ⟨last, left, leaves⟩, same, focus,
      called.mem_callees, start, rfl, low, high, rendered⟩

/-- A function prints twice on the line of its declaration, and each call prints what it gives back.
One of the lines has a remark already. -/
theorem run_echo_called_twice :
    ∃ parsed run, (Source.mk "to f—x—:\nprint—x—\n.\nf—“a”—\nf—“b”— † old" "").run none =
        .ok (parsed, run) ∧
      run.machine.trace = [(2, " a"), (4, " nothing"), (2, " b"), (5, " nothing")] ∧
      run.machine.echo =
        "to f—x—:\nprint—x— † a b\n.\nf—“a”— † nothing\nf—“b”— † old nothing" := by
  have traced : (((Source.mk "to f—x—:\nprint—x—\n.\nf—“a”—\nf—“b”— † old" "").run none).map
      (·.2.machine.trace)).toOption =
        some [(2, " a"), (4, " nothing"), (2, " b"), (5, " nothing")] := by
    decide +kernel
  cases ran : (Source.mk "to f—x—:\nprint—x—\n.\nf—“a”—\nf—“b”— † old" "").run none with
  | error fault =>
    rw [ran] at traced
    cases traced
  | ok result =>
    obtain ⟨parsed, run⟩ := result
    rw [ran] at traced
    have trace : run.machine.trace = _ := Option.some.inj traced
    refine ⟨parsed, run, rfl, trace, ?_⟩
    rw [(run_echo ran).1, trace]
    decide +kernel

end Source

end Marginalia
