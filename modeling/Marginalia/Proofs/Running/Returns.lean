import Marginalia.Proofs.Reading.Slices
import Marginalia.Proofs.Reports.Located
import Marginalia.Proofs.Running.Echo

/-!
# Returns inside and outside of functions

A run that stops at a return stops at one with no function around it (`Program.HasOutside`).

Such a return is not mistaken for one in a function: the statements of a program that stand beside
each other do not overlap, and those inside a statement lie in it (`Program.Ordered`). Hence a
function that is not around the return lies before it or behind it (`HasOutside.apart`).
-/

namespace Marginalia

namespace Program

/-- The statement stands in the body of a function of the program, at whatever depth. -/
def InFunction (program : Program) (statement : Stmt) : Prop :=
  ∃ function, program.Has function ∧ function.isFunction = true ∧
    Program.Has function.children statement

end Program

/-! ## Order -/

namespace Stmt

/-- The one statement ends where the other one begins, or before that. -/
def Apart (one other : Stmt) : Prop :=
  one.span.stop.index ≤ other.span.start.index ∨ other.span.stop.index ≤ one.span.start.index

/-- The span of the statement reaches no further than that of the other one. -/
structure LiesWithin (inner outer : Stmt) : Prop where
  start : outer.span.start.index ≤ inner.span.start.index
  stop : inner.span.stop.index ≤ outer.span.stop.index

variable {one other outer middle inner : Stmt}

instance : Std.Symm Apart :=
  ⟨fun _ _ => Or.symm⟩

theorem LiesWithin.trans (first : inner.LiesWithin middle) (second : middle.LiesWithin outer) :
    inner.LiesWithin outer :=
  ⟨Int.le_trans second.start first.start, Int.le_trans first.stop second.stop⟩

theorem Apart.within (apart : other.Apart outer) (lies : inner.LiesWithin outer) :
    other.Apart inner := by
  rcases apart with before | behind
  · exact .inl (Int.le_trans before lies.start)
  · exact .inr (Int.le_trans lies.stop behind)

end Stmt

namespace Program

variable {program : Program} {statement outer inner function : Stmt}

/-- Statements beside each other do not overlap, and those inside a statement lie in it. -/
structure Ordered (program : Program) : Prop where
  top : program.Pairwise Stmt.Apart
  children : ∀ ⦃statement⦄, program.Has statement → statement.children.Pairwise Stmt.Apart
  within : ∀ ⦃statement⦄, program.Has statement →
    ∀ child ∈ statement.children, child.LiesWithin statement

theorem Has.trans (has : program.Has outer) (inside : Program.Has outer.children inner) :
    program.Has inner := by
  induction inside with
  | top mem => exact .inner has mem
  | inner _ mem ih => exact .inner ih mem

/-- A statement of the program is one at the top, or inside of one. -/
theorem Has.exists_top (has : program.Has statement) :
    ∃ first ∈ program, statement = first ∨ Program.Has first.children statement := by
  induction has with
  | top mem => exact ⟨_, mem, .inl rfl⟩
  | inner _ mem ih =>
    obtain ⟨first, firstMem, rfl | inside⟩ := ih
    · exact ⟨_, firstMem, .inr (.top mem)⟩
    · exact ⟨first, firstMem, .inr (.inner inside mem)⟩

theorem Ordered.liesWithin (ordered : program.Ordered) (has : program.Has outer)
    (inside : Program.Has outer.children inner) : inner.LiesWithin outer := by
  induction inside with
  | top mem => exact ordered.within has _ mem
  | inner there mem ih => exact (ordered.within (has.trans there) _ mem).trans ih

/-- Of statements beside each other, one is the other, or around it, or apart from it. -/
theorem Ordered.eq_or_apart (ordered : program.Ordered) {statements : List Stmt}
    (pairwise : statements.Pairwise Stmt.Apart)
    (known : ∀ first ∈ statements, program.Has first) (mem : statement ∈ statements)
    (has : Program.Has statements function) :
    function = statement ∨ Program.Has statement.children function ∨
      function.Apart statement := by
  obtain ⟨first, firstMem, place⟩ := has.exists_top
  by_cases same : first = statement
  · subst same
    rcases place with rfl | inside
    · exact .inl rfl
    · exact .inr (.inl inside)
  · have apart : statement.Apart first := pairwise.forall mem firstMem (Ne.symm same)
    rcases place with rfl | inside
    · exact .inr (.inr apart.symm)
    · have lies := ordered.liesWithin (known first firstMem) inside
      exact .inr (.inr (apart.within lies).symm)

/-- A function is not around a statement that has no function around it. -/
theorem HasOutside.eq_or_apart (outside : program.HasOutside statement) (ordered : program.Ordered)
    (has : program.Has function) (declares : function.isFunction = true) :
    function = statement ∨ Program.Has statement.children function ∨
      function.Apart statement := by
  induction outside with
  | top mem => exact ordered.eq_or_apart ordered.top (fun _ => .top) mem has
  | @inner outer statement outside other mem ih =>
    rcases ih with rfl | inside | apart
    · rw [declares] at other
      cases other
    · exact ordered.eq_or_apart (ordered.children outside.has) (fun _ => .inner outside.has) mem
        inside
    · exact .inr (.inr (apart.within (ordered.within outside.has _ mem)))

/-- A return that has no function around it is apart from every function. -/
theorem HasOutside.apart {span : Span} {keyword : Token} {value : Option Expr}
    (outside : program.HasOutside (.giveBack span keyword value)) (ordered : program.Ordered)
    (has : program.Has function) (declares : function.isFunction = true) :
    function.Apart (.giveBack span keyword value) := by
  rcases outside.eq_or_apart ordered has declares with rfl | inside | apart
  · cases declares
  · obtain ⟨first, mem, _⟩ := inside.exists_top
    cases mem
  · exact apart

end Program

/-! ## Returns of a source -/

/-- Only the text of a remark and the end of a text can be empty. -/
theorem start_lt_stop_of_scan {file : String} {text : List Char} {tokens : List Token}
    {token : Token} (scanned : scan file text = .ok tokens) (mem : token ∈ tokens)
    (noString : token.kind ≠ .string) (noEnd : token.kind ≠ .textEnd) :
    token.span.start.index < token.span.stop.index := by
  apply (Laid.of_scan scanned).start_lt_stop (List.mem_reverse.mpr mem)
  obtain ⟨body, final, rfl, ends, written⟩ := exists_of_scan scanned
  rcases List.mem_append.mp mem with inBody | isFinal
  · obtain ⟨front, behind, rfl⟩ := List.append_of_mem inBody
    intro empty
    exact noString (written.emptiesAreRemarks.of_erased front token behind rfl empty).1
  · rw [List.mem_singleton.mp isFinal] at noEnd
    exact absurd ends noEnd

/-- A return begins with its mark, which is a token of its own. -/
theorem Covers.keyword {part : List Token} {span : Span} {keyword : Token} {value : Option Expr}
    (covers : Covers part (.giveBack span keyword value)) :
    keyword ∈ part ∧ keyword.kind = .ampersand ∧ span.start = keyword.span.start := by
  cases covers.derived with
  | statement derived =>
    cases derived with
    | giveNothing kind _ => exact ⟨List.mem_cons_self, kind, rfl⟩
    | giveBack kind _ => exact ⟨List.mem_cons_self, kind, rfl⟩

namespace Source

variable {limits : Limits} {source : Source} {answers : Option (List String)} {parsed : Parsed}
  {run : Run}

/-- A statement of the program has tokens of the source to itself. -/
theorem exists_covers_of_has (read : source.parseUnder limits = .ok parsed) {statement : Stmt}
    (has : parsed.program.Has statement) :
    ∃ part, Covers part statement ∧ InOrder part ∧ part ⊆ parsed.tokens := by
  obtain ⟨body, stands, _, order, derives, _, _⟩ := exists_stands_of_parseUnder read
  obtain ⟨front, part, behind, rfl, _, covers⟩ := derives.exists_part has
  have whole := Except.ok.inj
    ((parseUnder_eq_ok_iff.mp read).1.symm.trans (scan_eq_ok_iff.mpr ⟨_, stands, rfl⟩))
  have inside : part.Sublist (front ++ part ++ behind) :=
    (List.sublist_append_right front part).trans (List.sublist_append_left _ behind)
  refine ⟨part, covers, order.sublist inside, ?_⟩
  rw [whole]
  exact (inside.trans (List.sublist_append_left _ _)).subset

theorem ordered_of_parseUnder (read : source.parseUnder limits = .ok parsed) :
    parsed.program.Ordered := by
  obtain ⟨body, _, _, order, derives, _, _⟩ := exists_stands_of_parseUnder read
  refine ⟨((spread_of_lines derives).pairwise order).imp .inl, ?_, ?_⟩
  · intro statement has
    obtain ⟨part, covers, partOrder, _⟩ := exists_covers_of_has read has
    exact (covers.children_inside partOrder).1.imp .inl
  · intro statement has child mem
    obtain ⟨part, covers, partOrder, _⟩ := exists_covers_of_has read has
    obtain ⟨start, stop⟩ := (covers.children_inside partOrder).2 child mem
    exact ⟨start, stop⟩

/-- The token is the mark that the return begins with. -/
structure IsKeyword (parsed : Parsed) (span : Span) (keyword : Token) : Prop where
  mem : keyword ∈ parsed.tokens
  kind : keyword.kind = .ampersand
  start : span.start.index = keyword.span.start.index
  stop : keyword.span.stop.index ≤ span.stop.index
  long : keyword.span.start.index < keyword.span.stop.index

theorem isKeyword_of_has (read : source.parseUnder limits = .ok parsed) {span : Span}
    {keyword : Token} {value : Option Expr}
    (has : parsed.program.Has (.giveBack span keyword value)) :
    IsKeyword parsed span keyword := by
  obtain ⟨part, covers, order, inside⟩ := exists_covers_of_has read has
  obtain ⟨mem, kind, start⟩ := covers.keyword
  refine ⟨inside mem, kind, congrArg Position.index start, (covers.frames.around order mem).2, ?_⟩
  exact start_lt_stop_of_scan (parseUnder_eq_ok_iff.mp read).1 (inside mem)
    (by rw [kind]; decide) (by rw [kind]; decide)

/-- No return in a function begins where one begins that has no function around it. -/
theorem keyword_ne_of_outside (read : source.parseUnder limits = .ok parsed) {span span' : Span}
    {keyword keyword' : Token} {value value' : Option Expr}
    (outside : parsed.program.HasOutside (.giveBack span keyword value))
    (inside : parsed.program.InFunction (.giveBack span' keyword' value')) :
    keyword'.span ≠ keyword.span := by
  obtain ⟨function, has, declares, there⟩ := inside
  have ordered := ordered_of_parseUnder read
  have apart := outside.apart ordered has declares
  have lies := ordered.liesWithin has there
  have mark := isKeyword_of_has read outside.has
  have mark' := isKeyword_of_has read (has.trans there)
  intro same
  have start := lies.start
  have stop := lies.stop
  have first := mark.start
  have last := mark.stop
  have long := mark.long
  have first' := mark'.start
  have last' := mark'.stop
  rw [same] at first' last'
  unfold Stmt.Apart at apart
  simp only [Stmt.span] at apart start stop
  omega

/-- A fault that is reported as a return at the top points at a return with no function around
it. -/
theorem exists_outside_of_run (ran : source.runUnder limits answers = .ok (parsed, run))
    {diagnostic : Diagnostic} (reported : run.fault.bind Fault.diagnostic? = some diagnostic)
    (code : diagnostic.code = "RUN002") :
    ∃ span keyword value, diagnostic.span = some keyword.span ∧
      parsed.program.HasOutside (.giveBack span keyword value) := by
  obtain ⟨fault, stopped, described⟩ := Option.bind_eq_some_iff.mp reported
  cases blames_of_run ran stopped with
  | call _ =>
    cases described
    change "RUN001" = "RUN002" at code
    exact absurd code (by decide)
  | giveBack returns =>
    cases described
    obtain ⟨span, value, has⟩ := returns
    exact ⟨span, _, value, rfl, has⟩
  | unplaced none =>
    rw [none] at described
    cases described

/-- A run that stops at a return at the top points at the mark of a return that stands in no
function; no return in a function has its mark there. So a program whose returns all stand in
functions never stops that way. -/
theorem returns_outside_functions (ran : source.runUnder limits answers = .ok (parsed, run)) :
    (∀ diagnostic, run.fault.bind Fault.diagnostic? = some diagnostic →
      diagnostic.code = "RUN002" → ∃ span keyword value,
        diagnostic.span = some keyword.span ∧ keyword ∈ parsed.tokens ∧
        keyword.kind = .ampersand ∧ parsed.program.Has (.giveBack span keyword value) ∧
        ∀ span' keyword' value', parsed.program.InFunction (.giveBack span' keyword' value') →
          keyword'.span ≠ keyword.span) ∧
    ((∀ span keyword value, parsed.program.Has (.giveBack span keyword value) →
        parsed.program.InFunction (.giveBack span keyword value)) →
      ∀ diagnostic, run.fault.bind Fault.diagnostic? = some diagnostic →
        diagnostic.code ≠ "RUN002") := by
  have read := (runUnder_eq_ok_iff.mp ran).1
  constructor
  · intro diagnostic reported code
    obtain ⟨span, keyword, value, place, outside⟩ := exists_outside_of_run ran reported code
    have mark := isKeyword_of_has read outside.has
    exact ⟨span, keyword, value, place, mark.mem, mark.kind, outside.has,
      fun _ _ _ => keyword_ne_of_outside read outside⟩
  · intro inside diagnostic reported code
    obtain ⟨span, keyword, value, _, outside⟩ := exists_outside_of_run ran reported code
    exact keyword_ne_of_outside read outside (inside span keyword value outside.has) rfl

/-- The function gives back out of a loop, and the run goes on to the return in the condition. -/
theorem returns_outside_functions_condition :
    ∃ parsed run diagnostic keyword,
      (Source.mk "to f——: while—a— & b.\nf——\nif—c— : & d." "").runUnder .standard none =
        .ok (parsed, run) ∧
      run.machine.trace = [(2, " b")] ∧
      run.fault.bind Fault.diagnostic? = some diagnostic ∧ diagnostic.code = "RUN002" ∧
      diagnostic.span = some keyword.span ∧ keyword.span.start.index = 34 ∧
      ∃ span value, parsed.program.Has (.giveBack span keyword value) ∧
        ¬ parsed.program.InFunction (.giveBack span keyword value) := by
  have tested : (((Source.mk "to f——: while—a— & b.\nf——\nif—c— : & d." "").runUnder .standard
      none).map fun result => (result.2.machine.trace,
        (result.2.fault.bind Fault.diagnostic?).map fun diagnostic =>
          (diagnostic.code, diagnostic.span.map (·.start.index)))).toOption =
      some ([(2, " b")], some ("RUN002", some 34)) := by
    decide +kernel
  cases ran : (Source.mk "to f——: while—a— & b.\nf——\nif—c— : & d." "").runUnder .standard none with
  | error fault =>
    rw [ran] at tested
    cases tested
  | ok result =>
    obtain ⟨parsed, run⟩ := result
    rw [ran] at tested
    obtain ⟨printed, described⟩ := Prod.mk.inj (Option.some.inj tested)
    obtain ⟨diagnostic, reported, same⟩ := Option.map_eq_some_iff.mp described
    obtain ⟨code, index⟩ := Prod.mk.inj same
    obtain ⟨span, keyword, value, place, _, _, has, apart⟩ :=
      (returns_outside_functions ran).1 diagnostic reported code
    rw [place] at index
    exact ⟨parsed, run, diagnostic, keyword, rfl, printed, reported, code, place,
      Option.some.inj index, span, value, has, fun inside => apart _ _ _ inside rfl⟩

end Source

end Marginalia
