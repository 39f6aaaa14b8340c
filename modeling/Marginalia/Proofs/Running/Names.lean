import Marginalia.Proofs.Running.Changes
import Marginalia.Proofs.Store.Spellings

/-!
# The names at the top

A block and a call write their new names into a scope that they have just made, and a branch or the
body of a loop is no declaration. So whatever a program does, new names come into the root scope
only by its declarations at the top, one after the other: `Source.spellings_run` says which, and
what has become of them in a run that stopped.

The invariant that the argument rests on is `Moment.Confined`: of the scopes that were there when an
evaluation began, none takes a name, for all that is done there is no declaration, and declarations
inside of blocks and functions are carried out in scopes that were made since.
-/

namespace Marginalia

/-! ## Declarations -/

/-- The statement has no declaration among its branches, and is none itself. -/
def Stmt.Contained : Stmt → Prop
  | .binding _ _ _ | .function _ _ _ _ | .directive _ _ _ => False
  | .condition _ _ yes none => yes.Contained
  | .condition _ _ yes (some no) => yes.Contained ∧ no.Contained
  | .loop _ _ body => body.Contained
  | .expression _ _ _ | .block _ _ | .giveBack _ _ _ | .remark _ _ | .unknown _ _ _ => True

/-- The branches of a statement without declarations have none. -/
theorem Stmt.Contained.branch {statement branch : Stmt} (contained : statement.Contained)
    (mem : branch ∈ statement.branches) : branch.Contained := by
  cases statement with
  | condition span test yes no =>
    cases no with
    | none =>
      obtain rfl := List.mem_singleton.mp mem
      exact contained
    | some no =>
      obtain rfl | rfl : branch = yes ∨ branch = no := by simpa [branches] using mem
      · exact contained.1
      · exact contained.2
  | loop span test body =>
    obtain rfl := List.mem_singleton.mp mem
    exact contained
  | _ => cases mem

/-- The task writes to no name, and no part of it does. -/
def Task.Contained : Task → Prop
  | .exec statement => statement.Contained
  | .write _ => False
  | .eval _ | .call _ _ | .enter _ _ | .body _ | .giveBack _ => True

theorem Task.closed_contained : Closed Contained := by
  apply closed_of
  · exact fun _ _ _ _ => trivial
  · exact fun _ _ _ _ _ => trivial
  · exact fun _ _ _ _ => trivial
  · exact fun _ contained _ => Stmt.Contained.branch contained
  · exact fun _ _ _ contained => contained
  · exact fun _ _ _ _ => trivial

theorem Focus.contained_ended (outcome : Option Returned) :
    (ended outcome).All Task.Contained :=
  List.forall_mem_map.mpr fun _ _ => trivial

/-- What is left to do in a scope with a number below `old` is no declaration. A frame that ends a
block or a call leads the frames behind it to another scope. -/
def Confined (old : Nat) : ScopeId → List Frame → Prop
  | _, [] => True
  | here, frame :: frames =>
    (here < old → frame.All Task.Contained) ∧ Confined old (frame.scopes.headD here) frames

theorem confined_append {old : Nat} {here : ScopeId} {pushed frames : List Frame}
    (alone : pushed.flatMap Frame.scopes = [])
    (contained : here < old → ∀ frame ∈ pushed, frame.All Task.Contained)
    (confined : Confined old here frames) : Confined old here (pushed ++ frames) := by
  induction pushed with
  | nil => exact confined
  | cons frame pushed ih =>
    rw [List.flatMap_cons, List.append_eq_nil_iff] at alone
    refine ⟨fun inside => contained inside frame List.mem_cons_self, ?_⟩
    rw [alone.1]
    exact ih alone.2 fun inside other mem => contained inside other (List.mem_cons_of_mem _ mem)

/-! ## Steps that confine names -/

namespace Moment

/-- Since the store was the given one no name was added to a scope that it has, and none will be:
what is still to be done in these scopes is no declaration. -/
structure Confined (base : Store) (moment : Moment) : Prop where
  store : base.AddsOnly none moment.machine.store
  focus : moment.machine.scope < base.scopes.size → moment.focus.All Task.Contained
  binds : ∀ scope params arguments body, moment.focus = .bind scope params arguments body →
    base.scopes.size ≤ scope
  frames : Marginalia.Confined base.scopes.size moment.machine.scope moment.frames

variable {depth : Nat} {base : Store} {moment next : Moment}

theorem Confined.does (confined : moment.Confined base) {deed : Deed} (does : moment.Does deed) :
    base.AddsOnly none (deed.apply moment.machine.store) := by
  obtain ⟨store, contained, binds, _⟩ := confined
  cases does with
  | enterBlock _ | call _ => exact store.trans (.of_child (.refl _ _))
  | @define scope param params arguments body focus =>
    have adds := moment.machine.store.addsOnly_define scope param.lexeme
      (arguments.headD .nothing)
    exact (store.anywhere.trans adds).of_new (binds _ _ _ _ focus)
  | @assign name names value focus =>
    have adds := moment.machine.store.addsOnly_assign moment.machine.scope name value
    refine (store.anywhere.trans adds).of_new (Nat.le_of_not_lt fun inside => ?_)
    rw [focus] at contained
    exact contained inside (.write name) List.mem_cons_self
  | declare _ | dialogue _ _ => exact store.trans (moment.machine.store.addsOnly_newFunction _)
  | palimpsest _ _ | answer _ =>
    exact store.trans ⟨Nat.le_refl _, fun _ _ => rfl, fun _ _ _ => rfl, rfl⟩

/-- A step from a confined moment leads to one that is confined. -/
theorem Step.confined (step : Step depth moment next) (confined : moment.Confined base) :
    next.Confined base := by
  have store := step.store_keeps (base.AddsOnly none) confined.store fun _ => confined.does
  have size := confined.store.size
  obtain ⟨_, contained, binds, frames⟩ := confined
  cases step with
  | turn others machine turns =>
    obtain ⟨none, alone⟩ := Focus.scopes_turn turns
    refine ⟨store, fun inside => ((contained inside).turn Task.closed_contained turns).1, ?_, ?_⟩
    · rintro scope params arguments body rfl
      cases none
    · exact confined_append alone
        (fun inside => ((contained inside).turn Task.closed_contained turns).2) frames
  | take others machine takes =>
    obtain ⟨here, none, alone⟩ := Frame.scopes_take takes
    obtain ⟨first, behind⟩ := frames
    rw [here] at behind
    refine ⟨store, fun inside => ((first inside).take takes).1, ?_, ?_⟩
    · rintro scope params arguments body rfl
      cases none
    · exact confined_append alone (fun inside => ((first inside).take takes).2) behind
  | resume others machine resumes =>
    obtain ⟨here, none, alone⟩ := Frame.scopes_resume resumes
    obtain ⟨first, behind⟩ := frames
    rw [here] at behind
    have ended := Focus.contained_ended
    refine ⟨store, fun inside => ((first inside).resume (ended _) resumes).1, ?_, ?_⟩
    · rintro scope params arguments body rfl
      cases none
    · exact confined_append alone (fun inside => ((first inside).resume (ended _) resumes).2) behind
  | call callee name params body home arguments others machine =>
    refine ⟨store, fun _ => List.forall_mem_singleton.mpr trivial, ?_, frames⟩
    rintro scope _ _ _ ⟨⟩
    exact size
  | define scope param params arguments body others machine =>
    refine ⟨store, fun _ => List.forall_mem_singleton.mpr trivial, ?_, frames⟩
    rintro _ _ _ _ ⟨⟩
    exact binds _ _ _ _ rfl
  | enterCall scope arguments body others machine =>
    have outside := binds _ _ _ _ rfl
    refine ⟨store, fun _ => Focus.all_ended_none, nofun, fun inside => ?_,
      fun _ => Frame.all_leaveCall _, frames⟩
    exact absurd inside (Nat.not_lt_of_le outside)
  | enterBlock span statements others machine =>
    refine ⟨store, fun _ => Focus.all_ended_none, nofun, fun inside => ?_,
      fun _ => Frame.all_leaveBlock _, frames⟩
    exact absurd inside (Nat.not_lt_of_le size)
  | compare _ _ | leaveCall _ _ _ _ =>
    exact ⟨store, fun _ => List.forall_mem_nil _, nofun, frames.2⟩
  | leaveBlock outcome scope others machine =>
    exact ⟨store, fun _ => Focus.contained_ended outcome, nofun, frames.2⟩
  | resolve _ _ _ _ _ =>
    exact ⟨store, fun _ => List.forall_mem_singleton.mpr trivial, nofun, frames⟩
  | assign name names value others machine =>
    exact ⟨store, fun inside => (contained inside (.write name) List.mem_cons_self).elim, nofun,
      frames⟩
  | declare _ _ _ _ _ _ | dialogue _ _ _ _ | direct _ _ _ _ _ =>
    exact ⟨store, fun inside => (contained inside _ List.mem_cons_self).elim, nofun, frames⟩
  | _ => exact ⟨store, fun _ => List.forall_mem_nil _, nofun, frames⟩

theorem Reaches.confined {origin : Moment} (reached : origin.Reaches depth moment)
    (confined : origin.Confined base) : moment.Confined base :=
  reached.keeps (Confined base) (fun _ _ step => step.confined) confined

end Moment

/-! ## Evaluation -/

/-- The action is back in the scope of the machine, and has added no name to a scope that was
there. -/
def Action.AddsNothing {α : Type} (action : Action α) (machine : Machine) : Prop :=
  action.Meets machine
    (fun _ last => last.scope = machine.scope ∧ machine.store.AddsOnly none last.store)
    (fun _ last => last.scope = machine.scope ∧ machine.store.AddsOnly none last.store)

namespace Limits

open Marginalia.Action

variable {limits : Limits} {machine : Machine}

/-- What goes along the steps from a confined moment adds no name to a scope that was there. -/
theorem Walks.addsNothing {α : Type} {origin : Moment} {action : Action α} {focus : α → Focus}
    {frames : List Frame} (walks : limits.Walks origin action machine focus frames)
    (confined : origin.Confined machine.store) : action.AddsNothing machine := by
  apply Meets.mono walks
  · rintro a last ⟨back, reached⟩
    exact ⟨back, (reached.confined confined).store⟩
  · rintro fault last ⟨back, moment, reached, _, same⟩
    refine ⟨back, ?_⟩
    rw [same]
    exact (reached.confined confined).store

theorem addsNothing_eval (limits : Limits) (depth : Nat) (expr : Expr) (machine : Machine) :
    (limits.eval depth expr).AddsNothing machine := by
  apply Walks.addsNothing ((limits.walks_evaluation _ depth).expr expr [] machine .refl)
  exact ⟨.refl _ _, fun _ => List.forall_mem_singleton.mpr trivial, nofun, trivial⟩

/-- A statement that neither is nor holds a declaration adds no name to a scope that was there. -/
theorem addsNothing_exec (limits : Limits) (depth : Nat) {statement : Stmt}
    (contained : statement.Contained) (machine : Machine) :
    (limits.exec depth statement).AddsNothing machine := by
  apply Walks.addsNothing ((limits.walks_evaluation _ depth).statement statement [] machine .refl)
  exact ⟨.refl _ _, fun _ => List.forall_mem_singleton.mpr contained, nofun, trivial⟩

end Limits

theorem Action.addsNothing_declare (name : Token) (params : List Token) (body : List Stmt)
    (machine : Machine) : (declare name params body).AddsNothing machine :=
  ⟨rfl, machine.store.addsOnly_newFunction _⟩

/-! ## Declarations at the top -/

/-- The names that a directive writes to. One that opens a dialogue writes to names only if there is
somebody who answers. -/
def directiveNames (answered : Bool) (name value : String) : List String :=
  if name = "as" ∧ value = "palimpsest" then []
  else if name = "in" ∧ value = "dialogue" then if answered then Store.listenerNames else []
  else [name]

/-- The names that a statement at the top writes to as a declaration. -/
def Stmt.topNames (answered : Bool) : Stmt → List String
  | .binding _ name _ | .function _ name _ _ => [name.lexeme]
  | .directive _ name value => directiveNames answered name.lexeme value.lexeme
  | _ => []

/-- Spellings with those that the declarations of a program add to them. -/
def Program.addNames (answered : Bool) (program : Program) (spellings : List String) :
    List String :=
  (program.flatMap (Stmt.topNames answered)).foldl addSpelling spellings

/-- The names of the printer, and those that the declarations of a program add to them. -/
def Program.rootNames (answered : Bool) (program : Program) : List String :=
  program.addNames answered printerNames

/-- The statement is a declaration, or has none among its branches. -/
def Stmt.AtTop : Stmt → Prop
  | .binding _ _ _ | .function _ _ _ _ | .directive _ _ _ => True
  | other => other.Contained

theorem Stmt.Contained.atTop {statement : Stmt} (contained : statement.Contained) :
    statement.AtTop := by
  cases statement with
  | binding _ _ _ | function _ _ _ _ | directive _ _ _ => trivial
  | _ => exact contained

theorem Stmt.Contained.topNames {statement : Stmt} (contained : statement.Contained)
    (answered : Bool) : statement.topNames answered = [] := by
  cases statement with
  | binding _ _ _ | function _ _ _ _ | directive _ _ _ => exact contained.elim
  | _ => rfl

theorem Program.addNames_cons (answered : Bool) (statement : Stmt) (rest : Program)
    (spellings : List String) :
    Program.addNames answered (statement :: rest) spellings =
      rest.addNames answered ((statement.topNames answered).foldl addSpelling spellings) := by
  rw [addNames, addNames, List.flatMap_cons, List.foldl_append]

theorem Program.addNames_prefix (answered : Bool) {done program : Program} (le : done <+: program)
    (spellings : List String) :
    done.addNames answered spellings <+: program.addNames answered spellings := by
  obtain ⟨rest, rfl⟩ := le
  rw [addNames, addNames, List.flatMap_append, List.foldl_append]
  exact prefix_foldl_addSpelling _ _

namespace Grammar

variable {before after : List Token} {statement : Stmt}

/-- A branch or the body of a loop is no declaration. -/
theorem contained_of_statement {depth : Nat} (read : Statement depth before statement after) :
    statement.Contained := by
  induction depth generalizing before statement after with
  | zero => exact read.elim
  | succ depth ih =>
    cases read with
    | condition _ _ yes =>
      rw [Stmt.Contained]
      exact ih yes
    | alternative _ _ yes _ _ _ no => exact ⟨ih yes, ih no⟩
    | giveNothing _ _ => trivial
    | giveBack _ _ => trivial
    | loop _ _ inside =>
      rw [Stmt.Contained]
      exact ih inside
    | block _ _ => trivial
    | expression _ =>
      unfold printed
      split <;> trivial

theorem atTop_of_declaration {nested : Bool} {depth : Nat}
    (read : Declaration nested depth before statement after) : statement.AtTop := by
  cases depth with
  | zero => exact read.elim
  | succ depth =>
    cases read with
    | statement read => exact (contained_of_statement read).atTop
    | _ => trivial

theorem atTop_of_lines {depth : Nat} {program : List Stmt}
    (read : Lines (Declaration false depth) before program after) :
    ∀ statement ∈ program, statement.AtTop := by
  induction read with
  | nil => exact List.forall_mem_nil _
  | lineEnd _ _ ih => exact ih
  | cons first _ ih => exact List.forall_mem_cons.mpr ⟨atTop_of_declaration first, ih⟩

end Grammar

/-! ## Runs at the top -/

/-- The machine is in the root scope, which has these spellings. -/
structure Machine.AtRoot (answered : Bool) (spellings : List String) (machine : Machine) :
    Prop where
  scope : machine.scope = Store.root
  alone : machine.store.Alone Store.root
  spellings : machine.store.spellings Store.root = spellings
  answered : machine.store.settings.dialogue.isSome = answered

namespace Machine.AtRoot

variable {answered : Bool} {spellings : List String} {machine : Machine}

/-- The root has what it had, with some names written to. -/
theorem of_store {store : Store} {place : Option ScopeId} {more : List String}
    (root : machine.AtRoot answered spellings) (adds : machine.store.AddsOnly place store)
    (now : store.spellings Store.root = more) :
    ({ machine with store } : Machine).AtRoot answered more where
  scope := root.scope
  alone := root.alone.of_addsOnly adds
  spellings := now
  answered := by rw [adds.dialogue, root.answered]

theorem assign (root : machine.AtRoot answered spellings) (name : String) (value : Value) :
    ({ machine with store := machine.store.assign machine.scope name value } : Machine).AtRoot
      answered (addSpelling spellings name) := by
  apply root.of_store (machine.store.addsOnly_assign machine.scope name value)
  rw [root.scope, root.alone.spellings_assign, root.spellings]

/-- A directive at the top adds the names it writes to, in their order. -/
theorem direct (root : machine.AtRoot answered spellings) (name value : String) :
    ({ machine with store := machine.store.direct machine.scope name value } : Machine).AtRoot
      answered ((directiveNames answered name value).foldl addSpelling spellings) := by
  apply root.of_store (machine.store.addsOnly_direct machine.scope name value)
  rw [root.scope]
  unfold Store.direct directiveNames
  split
  · exact root.spellings
  split
  · have asked := root.answered
    unfold Store.installListener
    cases found : machine.store.settings.dialogue with
    | none =>
      rw [found] at asked
      subst asked
      exact root.spellings
    | some dialogue =>
      rw [found] at asked
      subst asked
      have made : (machine.store.newFunction (.listener dialogue)).2.Alone Store.root :=
        ⟨root.alone.there, root.alone.chain⟩
      have same : (machine.store.newFunction (.listener dialogue)).2.spellings Store.root =
          spellings := root.spellings
      dsimp only
      rw [made.spellings_assignAll, same]
      rfl
  · rw [root.alone.spellings_assign, root.spellings]
    rfl

/-- Where no spelling is added, the root has those that it had. -/
theorem meets {α : Type} {action : Action α} (root : machine.AtRoot answered spellings)
    (adds : action.AddsNothing machine) :
    action.Meets machine (fun _ => AtRoot answered spellings)
      (fun _ => AtRoot answered spellings) := by
  have still (last : Machine) (back : last.scope = machine.scope)
      (store : machine.store.AddsOnly none last.store) : last.AtRoot answered spellings :=
    { scope := back.trans root.scope
      alone := root.alone.of_addsOnly store
      spellings := by rw [store.unchanged root.alone.there, root.spellings]
      answered := by rw [store.dialogue, root.answered] }
  apply Action.Meets.mono adds
  · exact fun _ last kept => still last kept.1 kept.2
  · exact fun _ last kept => still last kept.1 kept.2

end Machine.AtRoot

namespace Limits

open Marginalia.Action

variable {limits : Limits} {answered : Bool} {spellings : List String} {machine : Machine}

theorem meets_assign_atRoot (root : machine.AtRoot answered spellings) (name : String)
    (value : Value) :
    (limits.assign name value >>= fun _ => pure (none : Option Returned)).Meets machine
      (fun _ => Machine.AtRoot answered (addSpelling spellings name))
      (fun _ => Machine.AtRoot answered spellings) := by
  have checked : (limits.checkName name).Meets machine
      (fun _ => Machine.AtRoot answered spellings) (fun _ => Machine.AtRoot answered spellings) :=
    meets_checkName limits name root root
  apply Meets.bind (checked.bind _)
  · exact fun _ last rooted => meets_pure rooted
  · exact fun _ middle here => here.assign name value

theorem meets_direct_atRoot (root : machine.AtRoot answered spellings) (name value : String) :
    (limits.direct name value).Meets machine
      (fun _ => Machine.AtRoot answered
        ((directiveNames answered name value).foldl addSpelling spellings))
      (fun _ => Machine.AtRoot answered spellings) := by
  have checked : (limits.checkName name).Meets machine
      (fun _ => Machine.AtRoot answered spellings) (fun _ => Machine.AtRoot answered spellings) :=
    meets_checkName limits name root root
  apply checked.bind
  exact fun _ middle here => here.direct name value

/-- A statement at the top adds its names to the root if it is carried out to its end, and none if
it stops. -/
theorem meets_exec_atRoot {depth : Nat} {statement : Stmt} (top : statement.AtTop)
    (root : machine.AtRoot answered spellings) :
    (limits.exec depth statement).Meets machine
      (fun _ => Machine.AtRoot answered
        ((statement.topNames answered).foldl addSpelling spellings))
      (fun _ => Machine.AtRoot answered spellings) := by
  have contained (inside : statement.Contained) :
      (limits.exec depth statement).Meets machine
        (fun _ => Machine.AtRoot answered
          ((statement.topNames answered).foldl addSpelling spellings))
        (fun _ => Machine.AtRoot answered spellings) := by
    rw [inside.topNames]
    exact root.meets (limits.addsNothing_exec depth inside machine)
  cases depth with
  | zero =>
    cases statement with
    | binding _ _ _ | function _ _ _ _ | directive _ _ _ => exact meets_throw root
    | _ => exact contained top
  | succ depth =>
    cases statement with
    | binding span name initial =>
      cases initial with
      | none =>
        rw [exec]
        exact meets_assign_atRoot root name.lexeme .nothing
      | some expr =>
        rw [exec]
        exact (root.meets (limits.addsNothing_eval depth expr machine)).bind fun value _ here =>
          meets_assign_atRoot here name.lexeme value
    | function span name params body =>
      rw [exec]
      exact (root.meets (addsNothing_declare name params body machine)).bind fun value _ here =>
        meets_assign_atRoot here name.lexeme value
    | directive span name value =>
      rw [exec]
      exact (meets_direct_atRoot root name.lexeme value.lexeme).bind fun _ _ here =>
        meets_pure here
    | _ => exact contained top

/-- A run at the top adds the names of its statements, and those of the first few if it stops. -/
theorem meets_interpret_atRoot {program : Program} (top : ∀ statement ∈ program, statement.AtTop)
    (root : machine.AtRoot answered spellings) :
    (limits.interpret program).Meets machine
      (fun _ => Machine.AtRoot answered (program.addNames answered spellings))
      (fun _ last => ∃ done : Program, done <+: program ∧
        last.AtRoot answered (done.addNames answered spellings)) := by
  induction program generalizing machine spellings with
  | nil => exact meets_pure root
  | cons statement rest ih =>
    obtain ⟨first, others⟩ := List.forall_mem_cons.mp top
    rw [interpret]
    have none : [] <+: statement :: rest := List.nil_prefix
    have one : [statement] <+: statement :: rest := ⟨rest, rfl⟩
    apply ((meets_exec_atRoot first root).mono (fun _ _ here => here)
      fun _ _ here => ⟨[], none, here⟩).bind
    intro outcome middle here
    cases outcome with
    | some returned =>
      apply meets_throw
      exact ⟨[statement], one, by rwa [Program.addNames_cons]⟩
    | none =>
      rw [Program.addNames_cons]
      apply (ih others here).mono fun _ _ rooted => rooted
      rintro _ last ⟨done, le, rooted⟩
      refine ⟨statement :: done, List.cons_prefix_cons.mpr ⟨rfl, le⟩, ?_⟩
      rwa [Program.addNames_cons]

end Limits

/-! ## Runs of a source -/

/-- The names of the printer have no name in common. -/
theorem foldl_addSpelling_printerNames : printerNames.foldl addSpelling [] = printerNames := by
  decide +kernel

namespace Source

variable {limits : Limits} {source : Source} {answers : Option (List String)} {parsed : Parsed}
  {run : Run}

/-- A run in an empty root scope begins with the names of the printer. -/
theorem atRoot_start {store : Store} (alone : store.Alone Store.root)
    (empty : store.spellings Store.root = []) (settings : Settings) (text : List Char) :
    (Machine.start store Store.root settings text).AtRoot settings.dialogue.isSome
      printerNames := by
  obtain ⟨printer, made, same⟩ : ∃ printer made,
      Store.newFunction { store with settings } .printer = (printer, made) := ⟨_, _, rfl⟩
  have madeAlone : made.Alone Store.root := by
    cases same
    exact ⟨alone.there, alone.chain⟩
  have madeEmpty : made.spellings Store.root = [] := by
    cases same
    exact empty
  have madeSettings : made.settings = settings := by
    cases same
    rfl
  have whole : (Machine.start store Store.root settings text).store =
      made.assignAll Store.root printerNames printer := by
    rw [Machine.start, Store.installPrinter, same]
  have adds := made.addsOnly_assignAll Store.root printerNames printer
  constructor
  · rfl
  · rw [whole]
    exact madeAlone.of_addsOnly adds
  · rw [whole, madeAlone.spellings_assignAll, madeEmpty, foldl_addSpelling_printerNames]
  · rw [whole, adds.dialogue, madeSettings]

theorem atRoot_opened (source : Source) (answers : Option (List String)) :
    (source.opened answers).AtRoot answers.isSome printerNames := by
  cases answers with
  | none =>
    have alone : Store.fresh.Alone Store.root := ⟨Nat.one_pos, rfl⟩
    exact atRoot_start alone rfl .plain source.text.toList
  | some answers =>
    have alone : (Store.fresh.newDialogue answers).2.Alone Store.root := ⟨Nat.one_pos, rfl⟩
    exact atRoot_start alone rfl ⟨false, some 0⟩ source.text.toList

theorem atTop_of_parseUnder (read : source.parseUnder limits = .ok parsed) :
    ∀ statement ∈ parsed.program, statement.AtTop := by
  obtain ⟨scanned, programRead⟩ := parseUnder_eq_ok_iff.mp read
  obtain ⟨body, final, whole, ends, inside⟩ := exists_body_of_scan scanned
  rw [whole] at programRead
  exact Grammar.atTop_of_lines ((Program.parseWithin_eq_ok_iff inside ends).mp programRead)

/-- The spellings at the root are those of the printer and those that the declarations at the top
add, one after the other, unless a spelling that is there shares a name with theirs. A run that
stops has come to some of these declarations. -/
theorem spellings_run (ran : source.runUnder limits answers = .ok (parsed, run)) :
    (run.fault = none →
      run.machine.store.spellings Store.root = parsed.program.rootNames answers.isSome) ∧
    run.machine.store.spellings Store.root <+: parsed.program.rootNames answers.isSome ∧
    ∃ done : Program, done <+: parsed.program ∧
      run.machine.store.spellings Store.root = done.rootNames answers.isSome := by
  obtain ⟨read, rfl⟩ := runUnder_eq_ok_iff.mp ran
  have meets : (limits.interpret parsed.program).Meets (source.opened answers) _ _ :=
    Limits.meets_interpret_atRoot (atTop_of_parseUnder read) (atRoot_opened source answers)
  unfold Program.runUnder
  cases finished : limits.interpret parsed.program (source.opened answers) with
  | ok result last =>
    have rooted := (meets.of_ok finished).spellings
    refine ⟨fun _ => rooted, ?_, parsed.program, List.prefix_rfl, rooted⟩
    dsimp only
    rw [rooted, Program.rootNames]
  | error fault last =>
    obtain ⟨done, le, rooted⟩ := meets.of_error finished
    refine ⟨fun ended => ?_, ?_, done, le, rooted.spellings⟩
    · cases ended
    dsimp only
    rw [rooted.spellings]
    exact Program.addNames_prefix _ le printerNames

/-- The second binding is one to the name of the first, and those of the block and of the call are
in scopes of their own. -/
theorem spellings_run_dialogue :
    ∃ parsed run, (Source.mk
        "#in dialogue\nlet x|y be a\nlet y be b\n: let z be c.\nto f——: let w be x.\nf——"
        "").runUnder .standard (some []) = .ok (parsed, run) ∧ run.fault = none ∧
      run.machine.store.spellings Store.root =
        ["print", "know", "say", "input", "learn", "listen", "x|y", "f"] := by
  have tested : (((Source.mk
      "#in dialogue\nlet x|y be a\nlet y be b\n: let z be c.\nto f——: let w be x.\nf——"
      "").runUnder .standard (some [])).map fun (parsed, run) =>
        decide (run.fault = none ∧ parsed.program.rootNames true =
          ["print", "know", "say", "input", "learn", "listen", "x|y", "f"])).toOption =
      some true := by
    decide +kernel
  cases ran : (Source.mk
      "#in dialogue\nlet x|y be a\nlet y be b\n: let z be c.\nto f——: let w be x.\nf——"
      "").runUnder .standard (some []) with
  | error fault =>
    rw [ran] at tested
    cases tested
  | ok result =>
    obtain ⟨parsed, run⟩ := result
    rw [ran] at tested
    obtain ⟨well, names⟩ := of_decide_eq_true (Option.some.inj tested)
    exact ⟨parsed, run, rfl, well, ((spellings_run ran).1 well).trans names⟩

end Source

end Marginalia
