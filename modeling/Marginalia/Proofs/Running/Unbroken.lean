import Marginalia.Proofs.Reading.Unbroken
import Marginalia.Proofs.Running.Echo

/-!
# What is printed stands on single lines

A value is a text of the program, an answer, or made of others without line feeds. A step brings no
other values and does no deed with others (`Moment.Step.unbroken`). So if neither the program nor an
answer has a line feed to give, nothing that is printed has one, whatever the program does
(`Source.trace_unbroken`).
-/

namespace Marginalia

/-! ## Stores -/

/-- The name of the function has no line feed. -/
def Function.Unbroken : Function → Prop
  | .declared name _ _ _ => '\n' ∉ name.lexeme.toList
  | .printer | .listener _ => True

/-- Nothing in the store has a text with a line feed. -/
structure Store.Unbroken (store : Store) : Prop where
  scopes : store.scopes.All fun scope => ∀ binding ∈ scope.bindings, binding.value.Unbroken
  lists : store.lists.All fun values => ∀ value ∈ values, value.Unbroken
  functions : store.functions.All Function.Unbroken
  dialogues : store.dialogues.All fun answers => ∀ answer ∈ answers, '\n' ∉ answer.toList

namespace Store.Unbroken

variable {store : Store} {scope : ScopeId} {slot : Slot} {binding : Binding} {value : Value}

theorem fresh : Store.fresh.Unbroken where
  scopes := AllBindings.fresh
  lists := Heap.all_empty
  functions := Heap.all_empty
  dialogues := Heap.all_empty

theorem of_binding? (unbroken : store.Unbroken) (here : store.binding? slot = some binding) :
    binding.value.Unbroken :=
  AllBindings.of_binding? unbroken.scopes here

theorem lookup (unbroken : store.Unbroken) (scope : ScopeId) {name : String}
    (plain : '\n' ∉ name.toList) : (store.lookup scope name).Unbroken := by
  unfold Store.lookup
  split
  next binding found =>
    obtain ⟨slot, _, here⟩ := Option.bind_eq_some_iff.mp found
    exact unbroken.of_binding? here
  · exact plain

theorem child (unbroken : store.Unbroken) (scope : ScopeId) : (store.child scope).Unbroken where
  scopes := AllBindings.child unbroken.scopes scope
  lists := unbroken.lists
  functions := unbroken.functions
  dialogues := unbroken.dialogues

theorem newList (unbroken : store.Unbroken) {values : List Value}
    (all : ∀ value ∈ values, value.Unbroken) : (store.newList values).2.Unbroken where
  scopes := unbroken.scopes
  lists := unbroken.lists.alloc all
  functions := unbroken.functions
  dialogues := unbroken.dialogues

theorem newFunction (unbroken : store.Unbroken) {function : Function}
    (plain : function.Unbroken) : (store.newFunction function).2.Unbroken where
  scopes := unbroken.scopes
  lists := unbroken.lists
  functions := unbroken.functions.alloc plain
  dialogues := unbroken.dialogues

theorem newDialogue (unbroken : store.Unbroken) {answers : List String}
    (plain : ∀ answer ∈ answers, '\n' ∉ answer.toList) :
    (store.newDialogue answers).2.Unbroken where
  scopes := unbroken.scopes
  lists := unbroken.lists
  functions := unbroken.functions
  dialogues := unbroken.dialogues.alloc plain

theorem takeAnswer (unbroken : store.Unbroken) (dialogue : Nat) :
    ({ store with dialogues := store.dialogues.update dialogue List.tail } : Store).Unbroken where
  scopes := unbroken.scopes
  lists := unbroken.lists
  functions := unbroken.functions
  dialogues := unbroken.dialogues.update dialogue fun _ all answer mem =>
    all answer (List.mem_of_mem_tail mem)

theorem settle (unbroken : store.Unbroken) (settings : Settings) :
    ({ store with settings } : Store).Unbroken :=
  ⟨unbroken.scopes, unbroken.lists, unbroken.functions, unbroken.dialogues⟩

theorem setBinding (unbroken : store.Unbroken) (slot : Slot) (plain : binding.value.Unbroken) :
    (store.setBinding slot binding).Unbroken where
  scopes := AllBindings.setBinding unbroken.scopes slot plain
  lists := unbroken.lists
  functions := unbroken.functions
  dialogues := unbroken.dialogues

theorem addBinding (unbroken : store.Unbroken) (scope : ScopeId) (plain : binding.value.Unbroken) :
    (store.addBinding scope binding).Unbroken where
  scopes := AllBindings.addBinding unbroken.scopes scope plain
  lists := unbroken.lists
  functions := unbroken.functions
  dialogues := unbroken.dialogues

theorem overwrite (unbroken : store.Unbroken) (slot : Slot) (plain : value.Unbroken) :
    (store.overwrite slot value).Unbroken := by
  unfold Store.overwrite
  split
  · exact unbroken
  next binding here =>
    split
    · split
      · -- the list of the binding grows
        refine ⟨unbroken.scopes, unbroken.lists.update _ fun values all => ?_, unbroken.functions,
          unbroken.dialogues⟩
        exact List.forall_mem_append.mpr ⟨all, List.forall_mem_singleton.mpr plain⟩
      · refine (unbroken.newList ?_).setBinding slot trivial
        exact List.forall_mem_cons.mpr
          ⟨unbroken.of_binding? here, List.forall_mem_singleton.mpr plain⟩
    · exact unbroken.setBinding slot plain

theorem bindNew (unbroken : store.Unbroken) (scope : ScopeId) (name : String)
    (plain : value.Unbroken) : (store.bindNew scope name value).Unbroken := by
  unfold Store.bindNew
  split
  · exact (unbroken.newList (List.forall_mem_singleton.mpr plain)).addBinding scope trivial
  · exact unbroken.addBinding scope plain

theorem define (unbroken : store.Unbroken) (scope : ScopeId) (name : String)
    (plain : value.Unbroken) : (store.define scope name value).Unbroken := by
  unfold Store.define
  split
  · exact unbroken.overwrite _ plain
  · exact unbroken.bindNew scope name plain

theorem assign (unbroken : store.Unbroken) (scope : ScopeId) (name : String)
    (plain : value.Unbroken) : (store.assign scope name value).Unbroken := by
  unfold Store.assign
  split
  · exact unbroken.overwrite _ plain
  · exact unbroken.bindNew scope name plain

end Store.Unbroken

/-! ## Rendering -/

theorem not_mem_intercalate {separator : String} {texts : List String}
    (apart : '\n' ∉ separator.toList) (all : ∀ text ∈ texts, '\n' ∉ text.toList) :
    '\n' ∉ (String.intercalate separator texts).toList := by
  rw [String.toList_intercalate]
  induction texts with
  | nil => exact List.not_mem_nil
  | cons text texts ih =>
    obtain ⟨first, rest⟩ := List.forall_mem_cons.mp all
    cases texts with
    | nil => simpa [List.intercalate] using first
    | cons next texts =>
      have behind := ih rest
      simp only [List.map_cons, List.intercalate, List.intersperse_cons_cons, List.flatten_cons,
        List.mem_append, not_or] at behind ⊢
      exact ⟨first, apart, behind⟩

/-- Texts that come one by one from values have no line feed if none of them has. -/
theorem unbroken_of_mapM {f : Value → Except Fault String} {values : List Value}
    {texts : List String}
    (each : ∀ value ∈ values, ∀ text, f value = .ok text → '\n' ∉ text.toList)
    (rendered : values.mapM f = .ok texts) : ∀ text ∈ texts, '\n' ∉ text.toList := by
  induction values generalizing texts with
  | nil =>
    cases rendered
    exact fun _ mem => absurd mem List.not_mem_nil
  | cons value values ih =>
    obtain ⟨first, others⟩ := List.forall_mem_cons.mp each
    rw [List.mapM_cons] at rendered
    cases here : f value with
    | error fault =>
      rw [here] at rendered
      cases rendered
    | ok text =>
      cases behind : values.mapM f with
      | error fault =>
        rw [here, behind] at rendered
        cases rendered
      | ok rest =>
        rw [here, behind] at rendered
        cases rendered
        exact List.forall_mem_cons.mpr ⟨first text here, ih others behind⟩

namespace Store.Unbroken

variable {store : Store}

theorem functionText {function : Function} (plain : function.Unbroken) :
    '\n' ∉ (Store.functionText function).toList := by
  cases function with
  | printer => exact (by decide : '\n' ∉ "<print()>".toList)
  | listener _ => exact (by decide : '\n' ∉ "<input()>".toList)
  | declared name params body home =>
    have brackets : '\n' ∉ "<".toList ∧ '\n' ∉ "()>".toList := by decide
    rw [Store.functionText, String.toList_append, String.toList_append, List.mem_append,
      List.mem_append, not_or, not_or]
    exact ⟨⟨brackets.1, plain⟩, brackets.2⟩

theorem items (unbroken : store.Unbroken) (list : Nat) :
    ∀ value ∈ store.items list, value.Unbroken := by
  unfold Store.items
  cases found : store.lists.get? list with
  | none => exact fun _ mem => absurd mem List.not_mem_nil
  | some values => exact unbroken.lists found

/-- The text of a value that is no list has no line feed. -/
theorem renderFlat (unbroken : store.Unbroken) {depth : Nat} {value : Value} {text : String}
    (plain : value.Unbroken) (flat : ∀ list, value ≠ .layers list)
    (rendered : store.render depth value = .ok text) : '\n' ∉ text.toList := by
  cases value with
  | nothing =>
    rw [Store.render] at rendered
    cases rendered
    decide
  | truth value =>
    rw [Store.render] at rendered
    cases rendered
    cases value <;> decide
  | text value =>
    rw [Store.render] at rendered
    cases rendered
    exact plain
  | layers list => exact absurd rfl (flat list)
  | function address =>
    rw [Store.render] at rendered
    cases rendered
    cases found : store.functions.get? address with
    | none => exact List.not_mem_nil
    | some function => exact functionText (unbroken.functions found)

/-- The text of a value has no line feed, by induction on the depth to which it is rendered. -/
theorem render (unbroken : store.Unbroken) {depth : Nat} {value : Value} {text : String}
    (plain : value.Unbroken) (rendered : store.render depth value = .ok text) :
    '\n' ∉ text.toList := by
  induction depth generalizing value text with
  | zero =>
    refine unbroken.renderFlat plain (fun list same => ?_) rendered
    subst same
    cases rendered
  | succ depth ih =>
    cases value with
    | layers list =>
      rw [Store.render] at rendered
      cases found : (store.items list).mapM (store.render depth) with
      | error fault =>
        rw [found] at rendered
        cases rendered
      | ok texts =>
        rw [found] at rendered
        cases rendered
        refine not_mem_intercalate (by decide) (unbroken_of_mapM (fun value mem text => ?_) found)
        exact ih (unbroken.items list value mem)
    | _ => exact unbroken.renderFlat plain (by rintro _ ⟨⟩) rendered

theorem renderAll (unbroken : store.Unbroken) {depth : Nat} {values : List Value} {text : String}
    (plain : ∀ value ∈ values, value.Unbroken)
    (rendered : store.renderAll depth values = .ok text) : '\n' ∉ text.toList := by
  unfold Store.renderAll at rendered
  cases found : values.mapM (store.render depth) with
  | error fault =>
    rw [found] at rendered
    cases rendered
  | ok texts =>
    rw [found] at rendered
    cases rendered
    have blank : '\n' ∉ " ".toList := by decide
    have all := unbroken_of_mapM (fun value mem _ => unbroken.render (plain value mem)) found
    rw [String.toList_append, List.mem_append, not_or]
    exact ⟨blank, not_mem_intercalate blank all⟩

end Store.Unbroken

/-! ## Texts of a program -/

theorem Expr.Unbroken.part {whole part : Expr} (unbroken : whole.Unbroken)
    (mem : part ∈ whole.parts) : part.Unbroken := by
  cases whole with
  | negation span operator operand =>
    obtain rfl := List.mem_singleton.mp mem
    rwa [Expr.Unbroken] at unbroken
  | comparison span left operator right | connective span left operator right =>
    rw [Expr.Unbroken] at unbroken
    obtain rfl | rfl : part = left ∨ part = right := by simpa [parts] using mem
    · exact unbroken.1
    · exact unbroken.2
  | call span callee marker arguments =>
    rw [Expr.Unbroken] at unbroken
    rcases List.mem_cons.mp mem with rfl | inside
    · exact unbroken.1
    · exact allUnbroken_iff.mp unbroken.2 part inside
  | constant _ _ | name _ _ | unknown _ _ _ => cases mem

theorem Stmt.Unbroken.expr {statement : Stmt} {expr : Expr} (unbroken : statement.Unbroken)
    (mem : expr ∈ statement.exprs) : expr.Unbroken := by
  cases statement with
  | expression span whole wrapped =>
    obtain rfl := List.mem_singleton.mp mem
    rwa [Stmt.Unbroken] at unbroken
  | binding span name initial | giveBack span name initial =>
    rw [Stmt.Unbroken] at unbroken
    exact unbroken expr (Option.mem_toList.mp mem)
  | condition span test yes no =>
    obtain rfl := List.mem_singleton.mp mem
    cases no with
    | none => exact unbroken.1
    | some no => exact unbroken.1
  | loop span test body =>
    obtain rfl := List.mem_singleton.mp mem
    exact unbroken.1
  | block _ _ | function _ _ _ _ | directive _ _ _ | remark _ _ | unknown _ _ _ => cases mem

/-- The statements inside a statement have no line feed if it has none. -/
theorem Stmt.Unbroken.child {statement child : Stmt} (unbroken : statement.Unbroken)
    (mem : child ∈ statement.children) : child.Unbroken := by
  cases statement with
  | block span statements =>
    rw [Stmt.Unbroken] at unbroken
    exact allUnbroken_iff.mp unbroken child mem
  | function span name params statements => exact allUnbroken_iff.mp unbroken.2 child mem
  | condition span test yes no =>
    cases no with
    | none =>
      obtain rfl := List.mem_singleton.mp mem
      exact unbroken.2
    | some no =>
      obtain rfl | rfl : child = yes ∨ child = no := by simpa [children] using mem
      · exact unbroken.2.1
      · exact unbroken.2.2
  | loop span test body =>
    obtain rfl := List.mem_singleton.mp mem
    exact unbroken.2
  | expression _ _ _ | binding _ _ _ | giveBack _ _ _ | directive _ _ _ | remark _ _
  | unknown _ _ _ => cases mem

namespace Program

variable {program : Program}

theorem Has.unbroken {statement : Stmt} (has : program.Has statement)
    (plain : Stmt.AllUnbroken program) : statement.Unbroken :=
  has.all (Stmt.allUnbroken_iff.mp plain) fun _ known _ => known.child

theorem HasExpr.unbroken {expr : Expr} (has : program.HasExpr expr)
    (plain : Stmt.AllUnbroken program) : expr.Unbroken :=
  has.all (fun _ known _ => (known.unbroken plain).expr) fun _ known _ => known.part

end Program

/-! ## Steps keep a moment unbroken -/

namespace Moment

/-- Neither the store, nor the values on their way, nor what was printed has a text with a line
feed. -/
structure Unbroken (moment : Moment) : Prop where
  store : moment.machine.store.Unbroken
  values : ∀ value ∈ moment.values, value.Unbroken
  trace : ∀ entry ∈ moment.machine.trace, '\n' ∉ entry.2.toList

variable {depth : Nat} {moment next : Moment} {program : Program}

theorem Unbroken.focus_values (unbroken : moment.Unbroken) :
    ∀ value ∈ moment.focus.values, value.Unbroken :=
  fun value mem => unbroken.values value (List.mem_append_left _ mem)

theorem Unbroken.does (unbroken : moment.Unbroken) (stands : moment.StandsIn program)
    (plain : Stmt.AllUnbroken program) {deed : Deed} (does : moment.Does deed) :
    (deed.apply moment.machine.store).Unbroken := by
  have written := does.forall_values Value.Unbroken unbroken.values trivial
  cases does with
  | enterBlock _ | call _ => exact unbroken.store.child _
  | define _ => exact unbroken.store.define _ _ (written _ List.mem_cons_self)
  | assign _ => exact unbroken.store.assign _ _ (written _ List.mem_cons_self)
  | @declare span name params body focus =>
    have declared := (stands.exec focus).unbroken plain
    have made : (Function.declared name params body moment.machine.scope).Unbroken := declared.1
    exact unbroken.store.newFunction made
  | palimpsest _ _ => exact unbroken.store.settle _
  | @dialogue span name value dialogue _ =>
    have made : (Function.listener dialogue).Unbroken := trivial
    exact unbroken.store.newFunction made
  | answer _ => exact unbroken.store.takeAnswer _

theorem Unbroken.brings (unbroken : moment.Unbroken) (stands : moment.StandsIn program)
    (plain : Stmt.AllUnbroken program) {value : Value} (brings : moment.Brings next value) :
    value.Unbroken := by
  cases brings with
  | nothing | truth _ | function _ => trivial
  | constant focus => exact (stands.eval focus).unbroken plain
  | lookup focus => exact unbroken.store.lookup _ ((stands.eval focus).unbroken plain)
  | answer found => exact unbroken.store.dialogues found _ List.mem_cons_self
  | directive focus => exact (stands.exec focus).unbroken plain

/-- What is printed at an unbroken moment has no line feed. -/
theorem Step.trace_unbroken (step : Step depth moment next) (unbroken : moment.Unbroken) :
    ∀ entry ∈ next.machine.trace, '\n' ∉ entry.2.toList := by
  rcases step.page_trace with ⟨_, same⟩ | ⟨callee, arguments, text, focus, rendered, _, entry⟩
  · rw [same]
    exact unbroken.trace
  · have values := unbroken.focus_values
    rw [focus] at values
    have single := unbroken.store.renderAll values rendered
    rw [entry]
    exact List.forall_mem_append.mpr ⟨unbroken.trace, List.forall_mem_singleton.mpr single⟩

theorem Step.unbroken (plain : Stmt.AllUnbroken program) (step : Step depth moment next)
    (stands : moment.StandsIn program) (unbroken : moment.Unbroken) : next.Unbroken where
  store := step.store_keeps Store.Unbroken unbroken.store fun _ => unbroken.does stands plain
  values := step.forall_values Value.Unbroken unbroken.values fun _ =>
    unbroken.brings stands plain
  trace := step.trace_unbroken unbroken

theorem Reaches.unbroken {origin : Moment} (reached : origin.Reaches depth moment)
    (plain : Stmt.AllUnbroken program) (stands : origin.StandsIn program)
    (unbroken : origin.Unbroken) : moment.Unbroken := by
  induction reached with
  | refl => exact unbroken
  | tail before step ih => exact step.unbroken plain (Reaches.standsIn before stands) ih

end Moment

/-! ## Runs of a source -/

namespace Source

variable {limits : Limits} {source : Source} {answers : Option (List String)} {parsed : Parsed}
  {run : Run}

theorem unbroken_firstMoment (source : Source) (program : Program)
    (plain : ∀ given ∈ answers, ∀ answer ∈ given, '\n' ∉ answer.toList) :
    (source.firstMoment answers program).Unbroken := by
  have answering : (Store.fresh.answering answers).2.Unbroken := by
    cases answers with
    | none => exact .fresh
    | some given => exact Store.Unbroken.fresh.newDialogue (plain given rfl)
  have made : Function.printer.Unbroken := trivial
  exact ⟨(answering.settle _).newFunction made, List.forall_mem_singleton.mpr trivial,
    List.forall_mem_nil _⟩

/-- Nothing that is printed has a line feed, if the texts of the program and the answers have
none. -/
theorem trace_unbroken (ran : source.runUnder limits answers = .ok (parsed, run))
    (unbroken : Stmt.AllUnbroken parsed.program)
    (plain : ∀ given ∈ answers, ∀ answer ∈ given, '\n' ∉ answer.toList) :
    ∀ entry ∈ run.machine.trace, '\n' ∉ entry.2.toList := by
  obtain ⟨last, reached, same⟩ := leaves_of_run ran
  rw [same]
  exact (reached.unbroken unbroken (source.standsIn_firstMoment answers parsed.program)
    (unbroken_firstMoment source parsed.program plain)).trace

end Source

end Marginalia
