import Marginalia.Proofs.Running.Changes

/-!
# What a run that stops points at

There are two mistakes that a running program can make, and both have a mark: a call of something
that is no function has the mark that closes the call, a return at the top the mark of the return.
All else that stops a run has no place. A function keeps its body, so a mark may come from a call of
long ago; it is a mark of the program all the same (`Source.blames_of_run`).

What a return gives back passes through the blocks, conditions and loops around it and ends at the
nearest call. So where a run is in no call, all that is still to be done has no function around it
(`Moment.Outside`), and a return that ends the run is such a return.
-/

namespace Marginalia

/-- The statement declares a function. -/
def Stmt.isFunction : Stmt → Bool
  | .function _ _ _ _ => true
  | _ => false

namespace Program

/-- The statement stands in the program, and none of the statements around it is a function. -/
inductive HasOutside (program : Program) : Stmt → Prop
  | top {statement : Stmt} : statement ∈ program → program.HasOutside statement
  | inner {outer statement : Stmt} :
    program.HasOutside outer → outer.isFunction = false → statement ∈ outer.children →
    program.HasOutside statement

/-- The token is the mark of a return with no function around it. -/
def ReturnsOutside (program : Program) (keyword : Token) : Prop :=
  ∃ span value, program.HasOutside (.giveBack span keyword value)

theorem HasOutside.has {program : Program} {statement : Stmt}
    (outside : program.HasOutside statement) : program.Has statement := by
  induction outside with
  | top mem => exact .top mem
  | inner _ _ mem ih => exact .inner ih mem

/-- The fault points at the mark of a call of the program or at that of a return with no function
around it, or it has no place. -/
inductive Blames (program : Program) : Fault → Prop
  | call {shown : String} {callee : Expr} {marker : Token} :
    program.HasCall callee marker → program.Blames (.run (.notAFunction shown) marker)
  | giveBack {keyword : Token} :
    program.ReturnsOutside keyword → program.Blames (.run .returnAtTop keyword)
  | unplaced {fault : Fault} : fault.diagnostic? = none → program.Blames fault

end Program

theorem Fault.diagnostic?_of_isLimit {fault : Fault} (limit : fault.isLimit = true) :
    fault.diagnostic? = none := by
  cases fault with
  | tooDeep | endless => rfl
  | _ => cases limit

/-! ## Outside of calls -/

/-- The task has no function around it. -/
def Task.Outside (program : Program) : Task → Prop
  | .exec statement => program.HasOutside statement
  | .giveBack keyword => program.ReturnsOutside keyword
  | .eval _ | .call _ _ | .enter _ _ | .body _ | .write _ => True

/-- The parts of a task with no function around it have none around them either. -/
theorem Task.closed_outside (program : Program) : Closed (Outside program) := by
  apply closed_of
  · exact fun _ _ _ _ => trivial
  · exact fun _ _ _ _ _ => trivial
  · exact fun _ _ _ _ => trivial
  · intro statement outside branch mem
    have other : statement.isFunction = false := by
      cases statement with
      | function _ _ _ _ => cases mem
      | _ => rfl
    exact Program.HasOutside.inner outside other (statement.branches_subset_children mem)
  · exact fun _ _ _ _ => trivial
  · exact fun span _ value outside => ⟨span, value, outside⟩

/-- A call is to end behind the frames. -/
def InCall (frames : List Frame) : Prop :=
  ∃ scope, Frame.leaveCall scope ∈ frames

/-- What is left to do in a frame has no function around it, unless a call is to end behind it. -/
def Frame.AllOutside (program : Program) : List Frame → Prop
  | [] => True
  | frame :: behind =>
    (InCall behind ∨ frame.All (Task.Outside program)) ∧ AllOutside program behind

/-- All that is still to be done at the moment has no function around it, but for what is done in
calls. -/
structure Moment.Outside (program : Program) (moment : Moment) : Prop where
  focus : InCall moment.frames ∨ moment.focus.All (Task.Outside program)
  frames : Frame.AllOutside program moment.frames

theorem InCall.append {frames : List Frame} (inCall : InCall frames) (pushed : List Frame) :
    InCall (pushed ++ frames) := by
  obtain ⟨scope, mem⟩ := inCall
  exact ⟨scope, List.mem_append_right pushed mem⟩

theorem InCall.of_cons {frame : Frame} {frames : List Frame} (inCall : InCall (frame :: frames))
    (other : ∀ scope, frame ≠ .leaveCall scope) : InCall frames := by
  obtain ⟨scope, mem⟩ := inCall
  rcases List.mem_cons.mp mem with same | behind
  · exact absurd same.symm (other scope)
  · exact ⟨scope, behind⟩

section Outside

variable {program : Program} {pushed : List Frame}

theorem Frame.AllOutside.append {frames : List Frame} (all : AllOutside program frames)
    (new : InCall frames ∨ ∀ frame ∈ pushed, frame.All (Task.Outside program)) :
    AllOutside program (pushed ++ frames) := by
  induction pushed with
  | nil => exact all
  | cons frame rest ih =>
    rcases new with inCall | outside
    · exact ⟨.inl (inCall.append rest), ih (.inl inCall)⟩
    · obtain ⟨first, others⟩ := List.forall_mem_cons.mp outside
      exact ⟨.inr first, ih (.inr others)⟩

theorem Frame.ne_leaveCall_of_resume {frame : Frame} {outcome : Option Returned}
    {result : Focus × List Frame} (resumes : frame.resume? outcome = some result)
    (scope : ScopeId) : frame ≠ .leaveCall scope := by
  rintro rfl
  cases outcome <;> cases resumes

end Outside

namespace Moment

variable {depth : Nat} {moment next : Moment} {program : Program} {fault : Fault}

/-- Where a run turns to something else, it is in a call as it was before, or the new focus and the
new frames have no function around them. -/
theorem Outside.push {focus : Focus} {pushed frames : List Frame} {machine : Machine}
    (behind : Frame.AllOutside program frames)
    (new : InCall frames ∨ focus.All (Task.Outside program) ∧
      ∀ frame ∈ pushed, frame.All (Task.Outside program)) :
    Outside program ⟨focus, pushed ++ frames, machine⟩ where
  focus := new.imp (fun inCall => inCall.append pushed) And.left
  frames := behind.append (new.imp_right And.right)

/-- A step from a moment that is outside of functions, but for calls, leads to one that is. -/
theorem Step.outside (step : Step depth moment next) (outside : moment.Outside program) :
    next.Outside program := by
  obtain ⟨focus, frames⟩ := outside
  cases step with
  | turn others machine turns =>
    exact .push frames (focus.imp_right fun all => all.turn (Task.closed_outside program) turns)
  | take others machine takes =>
    exact .push frames.2 (frames.1.imp_right fun all => all.take takes)
  | resume others machine resumes =>
    have before := focus.imp_left fun inCall =>
      inCall.of_cons (Frame.ne_leaveCall_of_resume resumes)
    refine .push frames.2 ?_
    rcases before, frames.1 with ⟨inCall | ended, inCall' | all⟩
    · exact .inl inCall
    · exact .inl inCall
    · exact .inl inCall'
    · exact .inr (all.resume ended resumes)
  | compare _ _ | leaveCall _ _ _ _ => exact ⟨.inr (List.forall_mem_nil _), frames.2⟩
  | enterCall scope arguments body others machine =>
    have inCall : InCall (.leaveCall machine.scope :: others) := ⟨_, List.mem_cons_self⟩
    exact ⟨.inr Focus.all_ended_none, .inl inCall, .inr (Frame.all_leaveCall _), frames⟩
  | enterBlock span statements others machine =>
    refine ⟨.inr Focus.all_ended_none, ?_, .inr (Frame.all_leaveBlock _), frames⟩
    refine focus.imp (fun inCall => inCall.append [_]) fun all => Frame.all_rest.mpr ?_
    have block : program.HasOutside (.block span statements) := all _ List.mem_cons_self
    exact fun statement mem => block.inner rfl mem
  | leaveBlock outcome scope others machine =>
    exact ⟨focus.imp_left fun inCall => inCall.of_cons fun _ => nofun, frames.2⟩
  | resolve _ _ _ _ _ | call _ _ _ _ _ _ _ _ | define _ _ _ _ _ _ _ =>
    exact ⟨.inr (List.forall_mem_singleton.mpr trivial), frames⟩
  | assign _ _ _ _ _ | declare _ _ _ _ _ _ | dialogue _ _ _ _ | direct _ _ _ _ _ =>
    exact ⟨.inr (List.forall_mem_map.mpr fun _ _ => trivial), frames⟩
  | _ => exact ⟨.inr (List.forall_mem_nil _), frames⟩

/-- A fault that may stop a run at a moment of a program points at a mark of the program, or it has
no place. -/
theorem Stops.blames (stops : moment.Stops depth fault) (stands : moment.StandsIn program)
    (outside : moment.Outside program) : program.Blames fault := by
  cases stops with
  | limit _ limit => exact .unplaced (Fault.diagnostic?_of_isLimit limit)
  | @notAFunction callee marker _ _ _ _ _ _ _ =>
    have named : program.HasCall callee marker := stands.task rfl List.mem_cons_self
    exact .call named
  | returnAtTop returned machine =>
    rcases outside.focus with ⟨scope, mem⟩ | returns
    · cases mem
    · exact .giveBack (returns (.giveBack returned.keyword) List.mem_cons_self)
  | _ => exact .unplaced rfl

end Moment

/-- A fault that stops the run of a program in a fresh store points at a mark of the program, or it
has no place. -/
theorem Source.blames_of_run {limits : Limits} {source : Source} {answers : Option (List String)}
    {parsed : Parsed} {run : Run} {fault : Fault}
    (ran : source.runUnder limits answers = .ok (parsed, run))
    (stopped : run.fault = some fault) : parsed.program.Blames fault := by
  obtain ⟨_, rfl⟩ := runUnder_eq_ok_iff.mp ran
  have reached := source.reaches_opened answers parsed.program limits.depth
  obtain ⟨moment, here, stops, _⟩ := (Program.walks_runUnder reached).2.2 fault stopped
  have begins : (source.firstMoment answers parsed.program).Outside parsed.program :=
    ⟨.inr (List.forall_mem_map.mpr fun _ _ => trivial), .inr (Frame.all_rest.mpr fun _ => .top),
      trivial⟩
  exact stops.blames (here.standsIn (source.standsIn_firstMoment answers parsed.program))
    (here.keeps (Moment.Outside _) (fun _ _ step => step.outside) begins)

end Marginalia
