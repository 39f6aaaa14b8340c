import Marginalia.Proofs.Running.Tasks

/-!
# What a step changes

Whatever a run does it does in the steps of its moments, so what is to hold all along a run has to
be kept by a step. This module says once what a step can do, for all that is kept.

The values at the next moment were at this one, or the step brings them (`Step.values`), and the
store is the same, or the step does one deed to it (`Step.store`). What is still to be done stands
in the program that is run, in the focus, in a frame or in the body of a function that was made
(`Step.standsIn`).
-/

namespace Marginalia

/-! ## Values -/

/-- The values that the focus holds. -/
def Focus.values : Focus → List Value
  | .result value | .assign _ value => [value]
  | .ended outcome => (outcome.map Returned.value).toList
  | .pass _ _ value arguments _ => value :: arguments
  | .call _ _ arguments | .bind _ _ arguments _ => arguments
  | .eval _ | .exec _ | .answer _ => []

/-- The values that the frame holds. -/
def Frame.values : Frame → List Value
  | .rightOf left => [left]
  | .argument _ _ value arguments _ => value :: arguments
  | _ => []

/-- The values that the deed writes to names. -/
def Deed.values : Deed → List Value
  | .define _ _ value | .assign _ _ value => [value]
  | _ => []

/-! ## Scopes -/

/-- The scope that a call of the function stands in. -/
def Function.scopes : Function → List ScopeId
  | .declared _ _ _ home => [home]
  | .printer | .listener _ => []

/-- The scopes that the focus speaks of. -/
def Focus.scopes : Focus → List ScopeId
  | .call _ function _ => function.scopes
  | .bind scope _ _ _ => [scope]
  | _ => []

/-- The scope that the frame leads back to. -/
def Frame.scopes : Frame → List ScopeId
  | .leaveBlock scope | .leaveCall scope => [scope]
  | _ => []

namespace Moment

/-- The scopes that the moment speaks of. -/
def scopes (moment : Moment) : List ScopeId :=
  moment.machine.scope :: (moment.focus.scopes ++ moment.frames.flatMap Frame.scopes)

/-- The values that are on their way. -/
def values (moment : Moment) : List Value :=
  moment.focus.values ++ moment.frames.flatMap Frame.values

/-- A step from the one moment to the other brings the value. -/
inductive Brings (moment next : Moment) : Value → Prop
  | nothing : Brings moment next .nothing
  | truth (value : Bool) : Brings moment next (.truth value)
  | constant {span : Span} {constant : Constant} :
    moment.focus = .eval (.constant span constant) → Brings moment next constant.value
  | lookup {span : Span} {token : Token} : moment.focus = .eval (.name span token) →
    Brings moment next (moment.machine.store.lookup moment.machine.scope token.lexeme)
  | answer {dialogue : Nat} {answer : String} {rest : List String} :
    moment.machine.store.dialogues.get? dialogue = some (answer :: rest) →
    Brings moment next (.text answer)
  | function : moment.machine.store.functions.size < next.machine.store.functions.size →
    Brings moment next (.function moment.machine.store.functions.size)
  | directive {span : Span} {name value : Token} :
    moment.focus = .exec (.directive span name value) → Brings moment next (.text value.lexeme)

/-! ## Deeds -/

/-- What the moment is about to do to the store. -/
inductive Does (moment : Moment) : Deed → Prop
  | enterBlock {span : Span} {statements : List Stmt} :
    moment.focus = .exec (.block span statements) → Does moment (.child moment.machine.scope)
  | call {callee : Expr} {name : Token} {params : List Token} {body : List Stmt} {home : ScopeId}
    {arguments : List Value} :
    moment.focus = .call callee (.declared name params body home) arguments →
    Does moment (.child home)
  | define {scope : ScopeId} {param : Token} {params : List Token} {arguments : List Value}
    {body : List Stmt} : moment.focus = .bind scope (param :: params) arguments body →
    Does moment (.define scope param.lexeme (arguments.headD .nothing))
  | assign {name : String} {names : List String} {value : Value} :
    moment.focus = .assign (name :: names) value →
    Does moment (.assign moment.machine.scope name value)
  | declare {span : Span} {name : Token} {params : List Token} {body : List Stmt} :
    moment.focus = .exec (.function span name params body) →
    Does moment (.makeFunction (.declared name params body moment.machine.scope))
  | palimpsest {span : Span} {name value : Token} :
    moment.focus = .exec (.directive span name value) →
    name.lexeme = "as" ∧ value.lexeme = "palimpsest" →
    Does moment (.settle { moment.machine.store.settings with palimpsest := true })
  | dialogue {span : Span} {name value : Token} (dialogue : Nat) :
    moment.focus = .exec (.directive span name value) →
    Does moment (.makeFunction (.listener dialogue))
  | answer {dialogue : Nat} :
    moment.focus = .answer dialogue → Does moment (.takeAnswer dialogue)

variable {depth : Nat} {moment next : Moment}

/-- A step leaves the store alone, or it does one deed to it. -/
theorem Step.store (step : Step depth moment next) :
    next.machine.store = moment.machine.store ∨
      ∃ deed, moment.Does deed ∧ next.machine.store = deed.apply moment.machine.store := by
  cases step with
  | call _ _ _ _ _ _ _ _ => exact .inr ⟨_, .call rfl, rfl⟩
  | define _ _ _ _ _ _ _ => exact .inr ⟨_, .define rfl, rfl⟩
  | enterBlock _ _ _ _ => exact .inr ⟨_, .enterBlock rfl, rfl⟩
  | assign _ _ _ _ _ => exact .inr ⟨_, .assign rfl, rfl⟩
  | declare _ _ _ _ _ _ => exact .inr ⟨_, .declare rfl, rfl⟩
  | palimpsest _ _ _ asked => exact .inr ⟨_, .palimpsest rfl asked, rfl⟩
  | dialogue _ _ _ _ => exact .inr ⟨_, .dialogue _ rfl, rfl⟩
  | answer _ _ => exact .inr ⟨_, .answer rfl, rfl⟩
  | _ => exact .inl rfl

/-- What the deeds of a moment keep of a store is kept by a step. -/
theorem Step.store_keeps (holds : Store → Prop) (step : Step depth moment next)
    (here : holds moment.machine.store)
    (keeps : ∀ deed, moment.Does deed → holds (deed.apply moment.machine.store)) :
    holds next.machine.store := by
  rcases step.store with same | ⟨deed, does, same⟩
  · rwa [same]
  · rw [same]
    exact keeps deed does

end Moment

section Turning

variable {next : Focus} {pushed : List Frame}

/-- No scope comes up where a run turns to what is next. -/
theorem Focus.scopes_turn {focus : Focus} (turns : focus.turn? = some (next, pushed)) :
    next.scopes = [] ∧ pushed.flatMap Frame.scopes = [] := by
  cases focus with
  | eval expr =>
    cases expr with
    | name _ _ | unknown _ _ _ => cases turns
    | _ =>
      cases turns
      exact ⟨rfl, rfl⟩
  | exec statement =>
    cases statement with
    | binding _ _ initial | giveBack _ _ initial =>
      cases initial <;> cases turns <;> exact ⟨rfl, rfl⟩
    | _ => cases turns <;> exact ⟨rfl, rfl⟩
  | pass _ _ _ _ rest =>
    cases rest with
    | nil => cases turns
    | cons argument rest =>
      cases turns
      exact ⟨rfl, rfl⟩
  | assign names _ =>
    cases names with
    | nil =>
      cases turns
      exact ⟨rfl, rfl⟩
    | cons name names => cases turns
  | result _ | ended _ | call _ _ _ | bind _ _ _ _ | answer _ => cases turns

theorem Frame.scopes_take {frame : Frame} {given : Value}
    (takes : frame.take? given = some (next, pushed)) :
    frame.scopes = [] ∧ next.scopes = [] ∧ pushed.flatMap Frame.scopes = [] := by
  cases frame with
  | connective _ _ | testing _ _ =>
    rw [take?] at takes
    split at takes <;> cases takes <;> exact ⟨rfl, rfl, rfl⟩
  | condition yes no =>
    rw [take?] at takes
    split at takes
    · cases takes
      exact ⟨rfl, rfl, rfl⟩
    · cases no <;> cases takes <;> exact ⟨rfl, rfl, rfl⟩
  | _ => cases takes <;> exact ⟨rfl, rfl, rfl⟩

theorem Frame.scopes_resume {frame : Frame} {outcome : Option Returned}
    (resumes : frame.resume? outcome = some (next, pushed)) :
    frame.scopes = [] ∧ next.scopes = [] ∧ pushed.flatMap Frame.scopes = [] := by
  cases outcome with
  | none =>
    cases frame with
    | rest statements => cases statements <;> cases resumes <;> exact ⟨rfl, rfl, rfl⟩
    | _ => cases resumes <;> exact ⟨rfl, rfl, rfl⟩
  | some returned => cases frame <;> cases resumes <;> exact ⟨rfl, rfl, rfl⟩

/-- Turning to what is next brings a constant at most, or nothing. -/
theorem Focus.values_turn {focus : Focus} (turns : focus.turn? = some (next, pushed)) :
    ∀ value ∈ next.values ++ pushed.flatMap Frame.values,
      value ∈ focus.values ∨ value = .nothing ∨
        ∃ span constant, focus = .eval (.constant span constant) ∧ value = constant.value := by
  cases focus with
  | eval expr =>
    cases expr with
    | constant span constant =>
      cases turns
      exact List.forall_mem_singleton.mpr (.inr (.inr ⟨span, constant, rfl, rfl⟩))
    | name _ _ | unknown _ _ _ => cases turns
    | negation _ _ _ | comparison _ _ _ _ | connective _ _ _ _ | call _ _ _ _ =>
      cases turns
      exact List.forall_mem_nil _
  | exec statement =>
    cases statement with
    | binding span name initial | giveBack span name initial =>
      cases initial <;> cases turns
      · exact List.forall_mem_singleton.mpr (.inr (.inl rfl))
      · exact List.forall_mem_nil _
    | expression _ _ _ | condition _ _ _ _ | loop _ _ _ | remark _ _ =>
      cases turns
      exact List.forall_mem_nil _
    | block _ _ | function _ _ _ _ | directive _ _ _ | unknown _ _ _ => cases turns
  | pass callee marker called arguments rest =>
    cases rest with
    | nil => cases turns
    | cons argument rest =>
      cases turns
      intro value mem
      exact .inl (by simpa [values, Frame.values] using mem)
  | assign names value =>
    cases names with
    | nil =>
      cases turns
      exact List.forall_mem_nil _
    | cons name names => cases turns
  | result _ | ended _ | call _ _ _ | bind _ _ _ _ | answer _ => cases turns

/-- Taking a value brings at most the truth of a comparison or a negation. -/
theorem Frame.values_take {frame : Frame} {given : Value}
    (takes : frame.take? given = some (next, pushed)) :
    ∀ value ∈ next.values ++ pushed.flatMap Frame.values,
      value = given ∨ value ∈ frame.values ∨ ∃ truth, value = .truth truth := by
  cases frame with
  | negation =>
    cases takes
    exact List.forall_mem_singleton.mpr (.inr (.inr ⟨_, rfl⟩))
  | leftOf _ | callee _ _ _ | binding _ | giveBack _ =>
    cases takes
    exact List.forall_mem_singleton.mpr (.inl rfl)
  | connective operator right =>
    rw [take?] at takes
    split at takes <;> cases takes
    · exact List.forall_mem_singleton.mpr (.inl rfl)
    · exact List.forall_mem_nil _
  | argument callee marker called arguments rest =>
    cases takes
    intro value mem
    have known : value = called ∨ value ∈ arguments ∨ value = given := by
      simpa [Focus.values] using mem
    rcases known with rfl | early | rfl
    · exact .inr (.inl List.mem_cons_self)
    · exact .inr (.inl (List.mem_cons_of_mem _ early))
    · exact .inl rfl
  | discard =>
    cases takes
    exact List.forall_mem_nil _
  | condition yes no =>
    rw [take?] at takes
    split at takes
    · cases takes
      exact List.forall_mem_nil _
    · cases no <;> cases takes <;> exact List.forall_mem_nil _
  | testing test body =>
    rw [take?] at takes
    split at takes <;> cases takes <;> exact List.forall_mem_nil _
  | rightOf _ | looping _ _ | rest _ | leaveBlock _ | leaveCall _ => cases takes

theorem Frame.values_resume {frame : Frame} {outcome : Option Returned}
    (resumes : frame.resume? outcome = some (next, pushed)) :
    ∀ value ∈ next.values ++ pushed.flatMap Frame.values,
      value ∈ (Focus.ended outcome).values := by
  cases outcome with
  | none =>
    cases frame with
    | looping test body =>
      cases resumes
      exact List.forall_mem_nil _
    | rest statements => cases statements <;> cases resumes <;> exact List.forall_mem_nil _
    | _ => cases resumes
  | some returned =>
    cases frame with
    | looping _ _ | rest _ =>
      cases resumes
      exact fun value mem => by rwa [List.flatMap_nil, List.append_nil] at mem
    | _ => cases resumes

end Turning

namespace Moment

variable {depth : Nat} {moment next : Moment} {program : Program}

theorem values_append (focus : Focus) (pushed frames : List Frame) (machine : Machine) :
    values ⟨focus, pushed ++ frames, machine⟩ =
      (focus.values ++ pushed.flatMap Frame.values) ++ frames.flatMap Frame.values := by
  rw [values, List.flatMap_append, List.append_assoc]

/-- The values at the next moment were at this one, or the step has brought them. -/
theorem Step.values (step : Step depth moment next) :
    ∀ value ∈ next.values, value ∈ moment.values ∨ moment.Brings next value := by
  cases step with
  | turn frames machine turns =>
    rw [values_append]
    refine List.forall_mem_append.mpr ⟨fun value mem => ?_, fun value mem => ?_⟩
    · rcases Focus.values_turn turns value mem with old | rfl | ⟨span, constant, rfl, rfl⟩
      · exact .inl (List.mem_append_left _ old)
      · exact .inr .nothing
      · exact .inr (.constant rfl)
    · exact .inl (List.mem_append_right _ mem)
  | take frames machine takes =>
    rw [values_append]
    refine List.forall_mem_append.mpr ⟨fun value mem => ?_, fun value mem => ?_⟩
    · rcases Frame.values_take takes value mem with rfl | old | ⟨truth, rfl⟩
      · exact .inl List.mem_cons_self
      · exact .inl (List.mem_append_right _ (List.mem_append_left _ old))
      · exact .inr (.truth truth)
    · exact .inl (List.mem_append_right _ (List.mem_append_right _ mem))
  | resume frames machine resumes =>
    rw [values_append]
    refine List.forall_mem_append.mpr ⟨fun value mem => ?_, fun value mem => ?_⟩
    · exact .inl (List.mem_append_left _ (Frame.values_resume resumes value mem))
    · exact .inl (List.mem_append_right _ (List.mem_append_right _ mem))
  | lookup span token frames machine =>
    exact List.forall_mem_cons.mpr ⟨.inr (.lookup rfl), fun value mem => .inl mem⟩
  | compare frames _ =>
    refine List.forall_mem_cons.mpr ⟨.inr (.truth _), fun value mem => .inl ?_⟩
    exact List.mem_append_right _ (List.mem_append_right _ mem)
  | resolve callee marker arguments frames _ =>
    exact fun value mem => .inl (List.mem_cons_of_mem _ mem)
  | print frames _ _ =>
    exact List.forall_mem_cons.mpr
      ⟨.inr .nothing, fun value mem => .inl (List.mem_append_right _ mem)⟩
  | ask callee frames _ => exact fun value mem => .inl (List.mem_append_right _ mem)
  | answer frames found =>
    exact List.forall_mem_cons.mpr ⟨.inr (.answer found), fun value mem => .inl mem⟩
  | call _ _ _ _ _ _ _ _ => exact fun value mem => .inl mem
  | define scope param params arguments body frames machine =>
    intro value mem
    rcases List.mem_append.mp mem with passed | behind
    · exact .inl (List.mem_append_left _ (List.mem_of_mem_tail passed))
    · exact .inl (List.mem_append_right _ behind)
  | enterCall _ _ _ _ _ => exact fun value mem => .inl (List.mem_append_right _ mem)
  | leaveCall outcome scope frames machine =>
    cases outcome with
    | none => exact List.forall_mem_cons.mpr ⟨.inr .nothing, fun value mem => .inl mem⟩
    | some returned => exact fun value mem => .inl mem
  | enterBlock _ _ _ _ => exact fun value mem => .inl mem
  | leaveBlock _ _ _ _ => exact fun value mem => .inl mem
  | assign _ _ _ _ _ => exact fun value mem => .inl mem
  | declare _ _ _ _ _ _ | dialogue _ _ _ _ =>
    refine List.forall_mem_cons.mpr ⟨.inr (.function ?_), fun value mem => .inl mem⟩
    exact Heap.size_lt_alloc _ _
  | palimpsest _ _ _ _ => exact fun value mem => .inl mem
  | nobody _ _ _ _ => exact fun value mem => .inl mem
  | direct _ _ _ _ _ =>
    exact List.forall_mem_cons.mpr ⟨.inr (.directive rfl), fun value mem => .inl mem⟩

theorem scopes_append {focus : Focus} {pushed : List Frame} (none : focus.scopes = [])
    (alone : pushed.flatMap Frame.scopes = []) (frames : List Frame) (machine : Machine) :
    scopes ⟨focus, pushed ++ frames, machine⟩ =
      machine.scope :: frames.flatMap Frame.scopes := by
  rw [scopes, List.flatMap_append, none, alone]
  rfl

theorem scopes_behind_subset (focus : Focus) (frame : Frame) (frames : List Frame)
    (machine : Machine) :
    machine.scope :: frames.flatMap Frame.scopes ⊆ scopes ⟨focus, frame :: frames, machine⟩ :=
  List.cons_subset_cons _
    (List.subset_append_of_subset_right _ (List.subset_append_right frame.scopes _))

/-- A scope that the next moment speaks of is one of this moment, or the step has made it, or it is
that of a function that is called. -/
theorem Step.scopes (step : Step depth moment next) :
    ∀ scope ∈ next.scopes, scope ∈ moment.scopes ∨
      scope = moment.machine.store.scopes.size ∧ scope < next.machine.store.scopes.size ∨
      ∃ value function, moment.machine.store.called? value = some function ∧
        scope ∈ function.scopes := by
  cases step with
  | turn frames machine turns =>
    obtain ⟨none, alone⟩ := Focus.scopes_turn turns
    rw [scopes_append none alone]
    exact fun scope mem => .inl (List.cons_subset_cons _ (List.subset_append_right _ _) mem)
  | take frames machine takes =>
    obtain ⟨_, none, alone⟩ := Frame.scopes_take takes
    rw [scopes_append none alone]
    exact fun scope mem => .inl (scopes_behind_subset _ _ frames machine mem)
  | resume frames machine resumes =>
    obtain ⟨_, none, alone⟩ := Frame.scopes_resume resumes
    rw [scopes_append none alone]
    exact fun scope mem => .inl (scopes_behind_subset _ _ frames machine mem)
  | resolve callee marker arguments frames called =>
    intro scope mem
    rcases List.mem_cons.mp mem with rfl | rest
    · exact .inl List.mem_cons_self
    rcases List.mem_append.mp rest with home | behind
    · exact .inr (.inr ⟨_, _, called, home⟩)
    · exact .inl (List.mem_cons_of_mem _ behind)
  | call callee name params body home arguments frames machine =>
    intro scope mem
    rcases List.mem_cons.mp mem with rfl | rest
    · exact .inl List.mem_cons_self
    rcases List.mem_cons.mp rest with rfl | behind
    · exact .inr (.inl ⟨rfl, Heap.size_lt_alloc _ _⟩)
    · exact .inl (List.mem_cons_of_mem _ (List.mem_append_right _ behind))
  | enterCall scope arguments body frames machine =>
    intro other mem
    have known : other = scope ∨ other = machine.scope ∨
        other ∈ frames.flatMap Frame.scopes := by
      simpa [Moment.scopes, Focus.scopes, Frame.scopes] using mem
    rcases known with rfl | here | behind
    · exact .inl (List.mem_cons_of_mem _ List.mem_cons_self)
    · exact .inl (List.mem_cons.mpr (.inl here))
    · exact .inl (List.mem_cons_of_mem _ (List.mem_cons_of_mem _ behind))
  | enterBlock span statements frames machine =>
    intro other mem
    have known : other = machine.store.scopes.size ∨ other = machine.scope ∨
        other ∈ frames.flatMap Frame.scopes := by
      simpa [Moment.scopes, Focus.scopes, Frame.scopes] using mem
    rcases known with rfl | here | behind
    · exact .inr (.inl ⟨rfl, Heap.size_lt_alloc _ _⟩)
    · exact .inl (List.mem_cons.mpr (.inl here))
    · exact .inl (List.mem_cons_of_mem _ behind)
  | leaveCall _ _ _ _ | leaveBlock _ _ _ _ =>
    exact fun scope mem => .inl (List.mem_cons_of_mem _ mem)
  | _ => exact fun scope mem => .inl mem

/-- All values at the next moment are good if those at this one are, and those that the step
brings. -/
theorem Step.forall_values (good : Value → Prop) (step : Step depth moment next)
    (here : ∀ value ∈ moment.values, good value)
    (new : ∀ value, moment.Brings next value → good value) : ∀ value ∈ next.values, good value := by
  intro value mem
  rcases step.values value mem with old | brings
  · exact here value old
  · exact new value brings

/-- The values that the deed writes are good if those at the moment are, and nothing is. -/
theorem Does.forall_values (good : Value → Prop) {deed : Deed} (does : moment.Does deed)
    (here : ∀ value ∈ moment.values, good value) (nothing : good .nothing) :
    ∀ value ∈ deed.values, good value := by
  have held : ∀ value ∈ moment.focus.values, good value :=
    fun value mem => here value (List.mem_append_left _ mem)
  cases does with
  | @define scope param params arguments body focus =>
    rw [focus] at held
    refine List.forall_mem_singleton.mpr ?_
    cases arguments with
    | nil => exact nothing
    | cons argument rest => exact held argument List.mem_cons_self
  | assign focus =>
    rw [focus] at held
    exact held
  | _ => exact List.forall_mem_nil _

/-! ## A run stays in its program -/

/-- A moment that stands in the program makes functions of the program only. -/
theorem StandsIn.makes (stands : moment.StandsIn program) {deed : Deed} (does : moment.Does deed) :
    (deed.apply moment.machine.store).functions.All (Function.StandsIn program) := by
  refine Deed.all_functions_apply stands.functions fun function same => ?_
  subst same
  cases does with
  | declare focus => exact ⟨_, stands.exec focus⟩
  | dialogue _ _ => trivial

/-- A step from a moment that stands in the program leads to one that does. -/
theorem Step.standsIn (step : Step depth moment next) (stands : moment.StandsIn program) :
    next.StandsIn program := by
  have functions : next.machine.store.functions.All (Function.StandsIn program) :=
    step.store_keeps (fun store => store.functions.All (Function.StandsIn program))
      stands.functions fun _ => stands.makes
  obtain ⟨focus, frames, made⟩ := stands
  cases step with
  | turn others machine turns =>
    obtain ⟨there, pushed⟩ := focus.turn (Task.closed_standsIn program) turns
    exact ⟨there, List.forall_mem_append.mpr ⟨pushed, frames⟩, functions⟩
  | take others machine takes =>
    obtain ⟨frame, frames⟩ := List.forall_mem_cons.mp frames
    obtain ⟨there, pushed⟩ := frame.take takes
    exact ⟨there, List.forall_mem_append.mpr ⟨pushed, frames⟩, functions⟩
  | resume others machine resumes =>
    obtain ⟨frame, frames⟩ := List.forall_mem_cons.mp frames
    obtain ⟨there, pushed⟩ := frame.resume focus resumes
    exact ⟨there, List.forall_mem_append.mpr ⟨pushed, frames⟩, functions⟩
  | resolve callee marker arguments others called =>
    obtain ⟨address, _, found⟩ := Option.bind_eq_some_iff.mp called
    have named : program.HasCall callee marker := focus (.call callee marker) List.mem_cons_self
    exact ⟨List.forall_mem_singleton.mpr ⟨⟨marker, named⟩, made found⟩, frames, functions⟩
  | call callee name params body home arguments others machine =>
    obtain ⟨_, declared⟩ := focus (.enter callee (.declared name params body home))
      List.mem_cons_self
    exact ⟨List.forall_mem_singleton.mpr declared.body, frames, functions⟩
  | enterCall scope arguments body others machine =>
    have known := focus (.body body) List.mem_cons_self
    have pushed := List.forall_mem_cons.mpr ⟨Frame.all_leaveCall machine.scope, frames⟩
    exact ⟨Focus.all_ended_none, List.forall_mem_cons.mpr ⟨Frame.all_rest.mpr known, pushed⟩,
      functions⟩
  | enterBlock span statements others machine =>
    have block : program.Has (.block span statements) :=
      focus (.exec (.block span statements)) List.mem_cons_self
    have known : ∀ statement ∈ statements, program.Has statement := fun _ => block.inner
    have pushed := List.forall_mem_cons.mpr ⟨Frame.all_leaveBlock machine.scope, frames⟩
    exact ⟨Focus.all_ended_none, List.forall_mem_cons.mpr ⟨Frame.all_rest.mpr known, pushed⟩,
      functions⟩
  | compare _ _ | leaveCall _ _ _ _ =>
    exact ⟨List.forall_mem_nil _, (List.forall_mem_cons.mp frames).2, functions⟩
  | leaveBlock outcome scope others machine =>
    exact ⟨focus, (List.forall_mem_cons.mp frames).2, functions⟩
  | assign name names value others machine =>
    exact ⟨fun task mem => focus task (List.mem_cons_of_mem _ mem), frames, functions⟩
  | declare _ _ _ _ _ _ | dialogue _ _ _ _ | direct _ _ _ _ _ =>
    exact ⟨List.forall_mem_map.mpr fun _ _ => trivial, frames, functions⟩
  | define _ _ _ _ _ _ _ => exact ⟨focus, frames, functions⟩
  | _ => exact ⟨List.forall_mem_nil _, frames, functions⟩

theorem Reaches.standsIn (reached : moment.Reaches depth next) (stands : moment.StandsIn program) :
    next.StandsIn program :=
  reached.keeps (StandsIn program) (fun _ _ step => step.standsIn) stands

end Moment

theorem Source.standsIn_firstMoment (source : Source) (answers : Option (List String))
    (program : Program) : (source.firstMoment answers program).StandsIn program where
  focus := List.forall_mem_map.mpr fun _ _ => trivial
  frames := List.forall_mem_singleton.mpr (Frame.all_rest.mpr fun _ => .top)
  functions := by
    cases answers with
    | none => exact Heap.all_empty.alloc trivial
    | some answers => exact Heap.all_empty.alloc trivial

end Marginalia
