import Marginalia.Proofs.Reading.Sources
import Marginalia.Proofs.Running.Limits
import Mathlib.Logic.Relation

/-!
# Moments of a run

The evaluator says what an expression or a statement comes to, and nothing of the way there. A
`Moment` is a run on its way: what it is at (`Focus`), what is left to do with what that comes to,
innermost first (`Frame`), and the machine. `Moment.Step` leads from one moment to the next one. It
either turns to what is to be done next and leaves the machine alone (`Focus.turn?`, `Frame.take?`,
`Frame.resume?`), or it looks at the machine or changes it in one way. The only limit that steps
have is the depth to which values are rendered and compared, so a run that never ends has endlessly
many moments.

The evaluator goes along these steps, under all limits: where it gives a result, the moment is
reached at which the result is there, and where it stops, it leaves the machine of a moment that is
reached and at which the fault may stop a run (`Limits.walks_evaluation`, `Limits.walks_interpret`).
So what one step keeps is kept by every run, however it ends, and nothing else has to be said of the
evaluator to prove it.
-/

namespace Marginalia

/-- What a run is at. -/
inductive Focus where
  /-- An expression is to be evaluated. -/
  | eval (expr : Expr)
  /-- A statement is to be carried out. -/
  | exec (statement : Stmt)
  /-- An expression has come to a value. -/
  | result (value : Value)
  /-- A statement has ended, and may have given back. -/
  | ended (outcome : Option Returned)
  /-- A value is to be written to names, one after the other. -/
  | assign (names : List String) (value : Value)
  /-- A value is to be called: some arguments have their values, the rest is to be evaluated. -/
  | pass (callee : Expr) (marker : Token) (value : Value) (arguments : List Value)
    (rest : List Expr)
  /-- A function is to be called. -/
  | call (callee : Expr) (function : Function) (arguments : List Value)
  /-- Parameters are to be bound in the scope of a call, before its body is carried out. -/
  | bind (scope : ScopeId) (params : List Token) (arguments : List Value) (body : List Stmt)
  /-- A question was put, and the answer is to be taken from the dialogue. -/
  | answer (dialogue : Nat)
deriving Repr

/-- What is left to do with what the focus comes to. -/
inductive Frame where
  | negation
  /-- The left side of a comparison is being evaluated. -/
  | leftOf (right : Expr)
  /-- The right side of a comparison is being evaluated. -/
  | rightOf (left : Value)
  | connective (operator : Token) (right : Expr)
  /-- What is to be called is being evaluated. -/
  | callee (callee : Expr) (marker : Token) (arguments : List Expr)
  | argument (callee : Expr) (marker : Token) (value : Value) (arguments : List Value)
    (rest : List Expr)
  | discard
  | binding (name : String)
  | giveBack (keyword : Token)
  | condition (yes : Stmt) (no : Option Stmt)
  /-- The test of a loop is being evaluated. -/
  | testing (test : Expr) (body : Stmt)
  /-- The body of a loop is being carried out. -/
  | looping (test : Expr) (body : Stmt)
  | rest (statements : List Stmt)
  /-- A block ends that stands in this scope. -/
  | leaveBlock (scope : ScopeId)
  /-- A call ends, and it was made from this scope. -/
  | leaveCall (scope : ScopeId)
deriving Repr

/-- A run on its way. -/
structure Moment where
  focus : Focus
  /-- What is left to do, innermost first. -/
  frames : List Frame
  machine : Machine
deriving Repr

/-! ## Turning to what is next -/

/-- What is to be done first, where the machine has no part in it, and what is left to do then. -/
def Focus.turn? : Focus → Option (Focus × List Frame)
  | .eval (.constant _ value) => some (.result value.value, [])
  | .eval (.negation _ _ operand) => some (.eval operand, [.negation])
  | .eval (.comparison _ left _ right) => some (.eval left, [.leftOf right])
  | .eval (.connective _ left operator right) => some (.eval left, [.connective operator right])
  | .eval (.call _ callee marker arguments) =>
    some (.eval callee, [.callee callee marker arguments])
  | .pass callee marker value arguments (argument :: rest) =>
    some (.eval argument, [.argument callee marker value arguments rest])
  | .exec (.expression _ expr _) => some (.eval expr, [.discard])
  | .exec (.binding _ name none) => some (.assign [name.lexeme] .nothing, [])
  | .exec (.binding _ name (some expr)) => some (.eval expr, [.binding name.lexeme])
  | .exec (.condition _ test yes no) => some (.eval test, [.condition yes no])
  | .exec (.loop _ test body) => some (.eval test, [.testing test body])
  | .exec (.giveBack _ keyword none) => some (.ended (some ⟨keyword, .nothing⟩), [])
  | .exec (.giveBack _ keyword (some expr)) => some (.eval expr, [.giveBack keyword])
  | .exec (.remark _ _) => some (.ended none, [])
  | .assign [] _ => some (.ended none, [])
  | _ => none

/-- What is done with a value that was waited for. -/
def Frame.take? (value : Value) : Frame → Option (Focus × List Frame)
  | .negation => some (.result (.truth (!value.isTruthy)), [])
  | .leftOf right => some (.eval right, [.rightOf value])
  | .connective operator right =>
    if value.isTruthy = decide (operator.kind = .orWord) then some (.result value, [])
    else some (.eval right, [])
  | .callee named marker arguments => some (.pass named marker value [] arguments, [])
  | .argument named marker called arguments others =>
    some (.pass named marker called (arguments ++ [value]) others, [])
  | .discard => some (.ended none, [])
  | .binding name => some (.assign [name] value, [])
  | .giveBack keyword => some (.ended (some ⟨keyword, value⟩), [])
  | .condition yes no =>
    if value.isTruthy then some (.exec yes, [])
    else some (no.elim (.ended none) .exec, [])
  | .testing test body =>
    if value.isTruthy then some (.exec body, [.looping test body]) else some (.ended none, [])
  | .rightOf _ | .looping _ _ | .rest _ | .leaveBlock _ | .leaveCall _ => none

/-- What is done when a statement that was waited for has ended. -/
def Frame.resume? : Option Returned → Frame → Option (Focus × List Frame)
  | none, .looping test body => some (.eval test, [.testing test body])
  | none, .rest (statement :: others) => some (.exec statement, [.rest others])
  | none, .rest [] => some (.ended none, [])
  | some returned, .looping _ _ | some returned, .rest _ => some (.ended (some returned), [])
  | _, _ => none

/-! ## Steps -/

/-- The function that a value calls. -/
def Store.called? (store : Store) (value : Value) : Option Function :=
  (store.callable? value).bind store.functions.get?

namespace Moment

/-- What a run does at a moment, and the moment that follows, where values are rendered and compared
down to a depth. -/
inductive Step (depth : Nat) : Moment → Moment → Prop
  | turn {focus next : Focus} {pushed : List Frame} (frames : List Frame) (machine : Machine) :
    focus.turn? = some (next, pushed) →
    Step depth ⟨focus, frames, machine⟩ ⟨next, pushed ++ frames, machine⟩
  | take {value : Value} {frame : Frame} {next : Focus} {pushed : List Frame} (frames : List Frame)
    (machine : Machine) : frame.take? value = some (next, pushed) →
    Step depth ⟨.result value, frame :: frames, machine⟩ ⟨next, pushed ++ frames, machine⟩
  | resume {outcome : Option Returned} {frame : Frame} {next : Focus} {pushed : List Frame}
    (frames : List Frame) (machine : Machine) : frame.resume? outcome = some (next, pushed) →
    Step depth ⟨.ended outcome, frame :: frames, machine⟩ ⟨next, pushed ++ frames, machine⟩
  | lookup (span : Span) (token : Token) (frames : List Frame) (machine : Machine) :
    Step depth ⟨.eval (.name span token), frames, machine⟩
      ⟨.result (machine.store.lookup machine.scope token.lexeme), frames, machine⟩
  | compare {left right : Value} {same : Bool} (frames : List Frame) {machine : Machine} :
    machine.store.equal depth left right = .ok same →
    Step depth ⟨.result right, .rightOf left :: frames, machine⟩
      ⟨.result (.truth same), frames, machine⟩
  | resolve {value : Value} {function : Function} (callee : Expr) (marker : Token)
    (arguments : List Value) (frames : List Frame) {machine : Machine} :
    machine.store.called? value = some function →
    Step depth ⟨.pass callee marker value arguments [], frames, machine⟩
      ⟨.call callee function arguments, frames, machine⟩
  | print {callee : Expr} {arguments : List Value} {text : String} {page : Page}
    (frames : List Frame) {machine : Machine} :
    machine.store.renderAll depth arguments = .ok text →
    machine.page.print? callee.span.start.line text.toList = some page →
    Step depth ⟨.call callee .printer arguments, frames, machine⟩
      ⟨.result .nothing, frames, { machine with
        page, log := machine.log ++ [.printed callee.span.start.line text] }⟩
  | ask {dialogue : Nat} {arguments : List Value} {text : String} (callee : Expr)
    (frames : List Frame) {machine : Machine} :
    machine.store.renderAll depth arguments = .ok text →
    Step depth ⟨.call callee (.listener dialogue) arguments, frames, machine⟩
      ⟨.answer dialogue, frames, { machine with
        log := machine.log ++ [.asked (String.ofList (trim text.toList))] }⟩
  | answer {dialogue : Nat} {answer : String} {rest : List String} (frames : List Frame)
    {machine : Machine} : machine.store.dialogues.get? dialogue = some (answer :: rest) →
    Step depth ⟨.answer dialogue, frames, machine⟩
      ⟨.result (.text answer), frames, { machine with
        store := { machine.store with
          dialogues := machine.store.dialogues.update dialogue List.tail } }⟩
  | call (callee : Expr) (name : Token) (params : List Token) (body : List Stmt) (home : ScopeId)
    (arguments : List Value) (frames : List Frame) (machine : Machine) :
    Step depth ⟨.call callee (.declared name params body home) arguments, frames, machine⟩
      ⟨.bind machine.store.scopes.size params arguments body, frames, { machine with
        store := machine.store.child home }⟩
  | define (scope : ScopeId) (param : Token) (params : List Token) (arguments : List Value)
    (body : List Stmt) (frames : List Frame) (machine : Machine) :
    Step depth ⟨.bind scope (param :: params) arguments body, frames, machine⟩
      ⟨.bind scope params arguments.tail body, frames, { machine with
        store := machine.store.define scope param.lexeme (arguments.headD .nothing) }⟩
  | enterCall (scope : ScopeId) (arguments : List Value) (body : List Stmt) (frames : List Frame)
    (machine : Machine) :
    Step depth ⟨.bind scope [] arguments body, frames, machine⟩
      ⟨.ended none, .rest body :: .leaveCall machine.scope :: frames, { machine with scope }⟩
  | leaveCall (outcome : Option Returned) (scope : ScopeId) (frames : List Frame)
    (machine : Machine) :
    Step depth ⟨.ended outcome, .leaveCall scope :: frames, machine⟩
      ⟨.result (outcome.elim .nothing Returned.value), frames, { machine with scope }⟩
  | enterBlock (span : Span) (statements : List Stmt) (frames : List Frame) (machine : Machine) :
    Step depth ⟨.exec (.block span statements), frames, machine⟩
      ⟨.ended none, .rest statements :: .leaveBlock machine.scope :: frames, { machine with
        store := machine.store.child machine.scope, scope := machine.store.scopes.size }⟩
  | leaveBlock (outcome : Option Returned) (scope : ScopeId) (frames : List Frame)
    (machine : Machine) :
    Step depth ⟨.ended outcome, .leaveBlock scope :: frames, machine⟩
      ⟨.ended outcome, frames, { machine with scope }⟩
  | assign (name : String) (names : List String) (value : Value) (frames : List Frame)
    (machine : Machine) :
    Step depth ⟨.assign (name :: names) value, frames, machine⟩
      ⟨.assign names value, frames, { machine with
        store := machine.store.assign machine.scope name value }⟩
  | declare (span : Span) (name : Token) (params : List Token) (body : List Stmt)
    (frames : List Frame) (machine : Machine) :
    Step depth ⟨.exec (.function span name params body), frames, machine⟩
      ⟨.assign [name.lexeme] (.function machine.store.functions.size), frames, { machine with
        store := (machine.store.newFunction (.declared name params body machine.scope)).2 }⟩
  | palimpsest (span : Span) {name value : Token} (frames : List Frame) (machine : Machine) :
    name.lexeme = "as" ∧ value.lexeme = "palimpsest" →
    Step depth ⟨.exec (.directive span name value), frames, machine⟩
      ⟨.ended none, frames, { machine with
        store := { machine.store with
          settings := { machine.store.settings with palimpsest := true } } }⟩
  | nobody (span : Span) {name value : Token} (frames : List Frame) {machine : Machine} :
    name.lexeme = "in" ∧ value.lexeme = "dialogue" → machine.store.settings.dialogue = none →
    Step depth ⟨.exec (.directive span name value), frames, machine⟩ ⟨.ended none, frames, machine⟩
  | dialogue (span : Span) {name value : Token} {dialogue : Nat} (frames : List Frame)
    {machine : Machine} :
    name.lexeme = "in" ∧ value.lexeme = "dialogue" →
    machine.store.settings.dialogue = some dialogue →
    Step depth ⟨.exec (.directive span name value), frames, machine⟩
      ⟨.assign listenerNames (.function machine.store.functions.size), frames, { machine with
        store := (machine.store.newFunction (.listener dialogue)).2 }⟩
  | direct (span : Span) {name value : Token} (frames : List Frame) (machine : Machine) :
    ¬ (name.lexeme = "as" ∧ value.lexeme = "palimpsest") →
    ¬ (name.lexeme = "in" ∧ value.lexeme = "dialogue") →
    Step depth ⟨.exec (.directive span name value), frames, machine⟩
      ⟨.assign [name.lexeme] (.text value.lexeme), frames, machine⟩

/-- The run comes from the one moment to the other one, where values are rendered and compared down
to a depth. -/
abbrev Reaches (depth : Nat) : Moment → Moment → Prop :=
  Relation.ReflTransGen (Step depth)

/-- The fault may stop a run at the moment. A limit may do so at any moment. -/
inductive Stops (depth : Nat) : Moment → Fault → Prop
  | limit (moment : Moment) {fault : Fault} : fault.isLimit = true → Stops depth moment fault
  | notAFunction {callee : Expr} {marker : Token} {value : Value} {arguments : List Value}
    {frames : List Frame} {machine : Machine} {shown : String} :
    machine.store.called? value = none → machine.store.render depth value = .ok shown →
    Stops depth ⟨.pass callee marker value arguments [], frames, machine⟩
      (.run (.notAFunction shown) marker)
  | noSuchLine {callee : Expr} {arguments : List Value} {frames : List Frame} {machine : Machine}
    {text : String} : machine.store.renderAll depth arguments = .ok text →
    machine.page.print? callee.span.start.line text.toList = none →
    Stops depth ⟨.call callee .printer arguments, frames, machine⟩ .noSuchLine
  | noAnswer {dialogue : Nat} {frames : List Frame} {machine : Machine} :
    (∀ answer rest, machine.store.dialogues.get? dialogue ≠ some (answer :: rest)) →
    Stops depth ⟨.answer dialogue, frames, machine⟩ .noAnswer
  | unknownExpression (span : Span) (kind : String) (view : Document) (frames : List Frame)
    (machine : Machine) :
    Stops depth ⟨.eval (.unknown span kind view), frames, machine⟩ (.unknownExpression kind)
  | unknownStatement (span : Span) (kind : String) (view : Document) (frames : List Frame)
    (machine : Machine) :
    Stops depth ⟨.exec (.unknown span kind view), frames, machine⟩ (.unknownStatement kind)
  | returnAtTop (returned : Returned) (machine : Machine) :
    Stops depth ⟨.ended (some returned), [], machine⟩ (.run .returnAtTop returned.keyword)

/-- The machine is that of a moment that is reached, apart from the scope that it is back in. -/
def Leaves (depth : Nat) (origin : Moment) (last : Machine) : Prop :=
  ∃ moment, origin.Reaches depth moment ∧ last = { moment.machine with scope := last.scope }

/-- The machine is that of a moment that is reached and at which the fault may stop a run, apart
from the scope that it is back in. -/
def StopsWith (depth : Nat) (origin : Moment) (fault : Fault) (last : Machine) : Prop :=
  ∃ moment, origin.Reaches depth moment ∧ moment.Stops depth fault ∧
    last = { moment.machine with scope := last.scope }

/-- The run of a program on a text begins: the printer was made, and is to be bound to its names. -/
def first (store : Store) (scope : ScopeId) (settings : Settings) (text : List Char)
    (program : Program) : Moment :=
  let (printer, store) := { store with settings }.newFunction .printer
  ⟨.assign printerNames printer, [.rest program], ⟨store, .ofSource text, scope, []⟩⟩

/-- The statements of a program are to be carried out at the top. -/
def top (program : Program) (machine : Machine) : Moment :=
  ⟨.ended none, [.rest program], machine⟩

variable {depth : Nat} {origin : Moment} {frames : List Frame} {machine : Machine}

theorem Reaches.leaves {moment : Moment} (reached : origin.Reaches depth moment) :
    origin.Leaves depth moment.machine :=
  ⟨moment, reached, rfl⟩

theorem StopsWith.leaves {fault : Fault} (stopped : origin.StopsWith depth fault machine) :
    origin.Leaves depth machine := by
  obtain ⟨moment, reached, _, same⟩ := stopped
  exact ⟨moment, reached, same⟩

theorem StopsWith.within {fault : Fault} (stopped : origin.StopsWith depth fault machine)
    (scope : ScopeId) : origin.StopsWith depth fault { machine with scope } := by
  obtain ⟨moment, reached, stops, same⟩ := stopped
  refine ⟨moment, reached, stops, ?_⟩
  rw [same]

/-- What each step keeps is kept from one moment to every other one that is reached. -/
theorem Reaches.keeps (holds : Moment → Prop) {moment : Moment}
    (reached : origin.Reaches depth moment)
    (keeps : ∀ ⦃moment next⦄, Step depth moment next → holds moment → holds next)
    (begins : holds origin) : holds moment := by
  induction reached with
  | refl => exact begins
  | tail _ step ih => exact keeps step ih

theorem Reaches.step {moment next : Moment} (reached : origin.Reaches depth moment)
    (step : Step depth moment next) : origin.Reaches depth next :=
  Relation.ReflTransGen.tail reached step

theorem Reaches.turn {focus next : Focus} {pushed : List Frame}
    (reached : origin.Reaches depth ⟨focus, frames, machine⟩)
    (turns : focus.turn? = some (next, pushed)) :
    origin.Reaches depth ⟨next, pushed ++ frames, machine⟩ :=
  reached.step (.turn frames machine turns)

theorem Reaches.take {value : Value} {frame : Frame} {next : Focus} {pushed : List Frame}
    (reached : origin.Reaches depth ⟨.result value, frame :: frames, machine⟩)
    (takes : frame.take? value = some (next, pushed)) :
    origin.Reaches depth ⟨next, pushed ++ frames, machine⟩ :=
  reached.step (.take frames machine takes)

theorem Reaches.resume {outcome : Option Returned} {frame : Frame} {next : Focus}
    {pushed : List Frame}
    (reached : origin.Reaches depth ⟨.ended outcome, frame :: frames, machine⟩)
    (resumes : frame.resume? outcome = some (next, pushed)) :
    origin.Reaches depth ⟨next, pushed ++ frames, machine⟩ :=
  reached.step (.resume frames machine resumes)

theorem Reaches.assignAll {names : List String} {value : Value}
    (reached : origin.Reaches depth ⟨.assign names value, frames, machine⟩) :
    origin.Reaches depth ⟨.ended none, frames, { machine with
      store := machine.store.assignAll machine.scope names value }⟩ := by
  induction names generalizing machine with
  | nil => exact reached.turn rfl
  | cons name names ih => exact ih (reached.step (.assign name names value frames machine))

theorem Reaches.direct {span : Span} {name value : Token}
    (reached : origin.Reaches depth ⟨.exec (.directive span name value), frames, machine⟩) :
    origin.Reaches depth ⟨.ended none, frames, { machine with
      store := machine.store.direct machine.scope name.lexeme value.lexeme }⟩ := by
  unfold Store.direct
  split
  next asked => exact reached.step (.palimpsest span frames machine asked)
  next other =>
    split
    next asked =>
      unfold Store.installListener
      split
      next nobody => exact reached.step (.nobody span frames asked nobody)
      next dialogue answered =>
        exact Reaches.assignAll (reached.step (.dialogue span frames asked answered))
    next another =>
      exact Reaches.assignAll (reached.step (.direct span frames machine other another))

end Moment

/-! ## The evaluator goes along the steps -/

namespace Limits

open Marginalia.Action

/-- The action is back in the scope of the machine. It comes to a moment that is reached, with the
focus that its result stands for in front of these frames, or it stops at one that is reached. -/
def Walks {α : Type} (limits : Limits) (origin : Moment) (action : Action α) (machine : Machine)
    (focus : α → Focus) (frames : List Frame) : Prop :=
  action.Meets machine
    (fun a last => last.scope = machine.scope ∧
      origin.Reaches limits.depth ⟨focus a, frames, last⟩)
    (fun fault last => last.scope = machine.scope ∧ origin.StopsWith limits.depth fault last)

variable {limits : Limits} {origin : Moment} {frames : List Frame} {machine : Machine}

section Walks

variable {α β : Type} {focus : α → Focus} {target : β → Focus} {others : List Frame}

theorem walks_pure {a : α} (reached : origin.Reaches limits.depth ⟨focus a, frames, machine⟩) :
    limits.Walks origin (pure a) machine focus frames :=
  ⟨rfl, reached⟩

theorem walks_throw {moment : Moment} {fault : Fault}
    (reached : origin.Reaches limits.depth moment) (stops : moment.Stops limits.depth fault) :
    limits.Walks origin (throw fault) moment.machine focus frames :=
  ⟨rfl, moment, reached, stops, rfl⟩

theorem Walks.bind {x : Action α} {f : α → Action β}
    (first : limits.Walks origin x machine focus frames)
    (next : ∀ a middle, origin.Reaches limits.depth ⟨focus a, frames, middle⟩ →
      limits.Walks origin (f a) middle target others) :
    limits.Walks origin (x >>= f) machine target others := by
  apply Meets.bind first
  rintro a middle ⟨back, here⟩
  apply Meets.mono (next a middle here)
  · exact fun b last ended => ⟨ended.1.trans back, ended.2⟩
  · exact fun fault last stopped => ⟨stopped.1.trans back, stopped.2⟩

theorem walks_get_bind {f : Machine → Action β}
    (next : limits.Walks origin (f machine) machine target others) :
    limits.Walks origin (get >>= f) machine target others :=
  next

theorem walks_onStore {change : Store → Store} {there : Focus}
    (reached : origin.Reaches limits.depth
      ⟨there, frames, { machine with store := change machine.store }⟩) :
    limits.Walks origin (onStore change) machine (fun _ => there) frames :=
  ⟨rfl, reached⟩

/-- An action in another scope comes back to the one it left. -/
theorem walks_within {scope : ScopeId} {action : Action α}
    (inside : limits.Walks origin action { machine with scope } focus frames)
    {target : α → Focus}
    (leaves : ∀ a last, origin.Reaches limits.depth ⟨focus a, frames, last⟩ →
      origin.Reaches limits.depth
        ⟨target a, others, { last with scope := machine.scope }⟩) :
    limits.Walks origin (within scope action) machine target others := by
  apply meets_within
  apply Meets.mono inside
  · exact fun a last ended => ⟨rfl, leaves a last ended.2⟩
  · exact fun fault last stopped => ⟨rfl, stopped.2.within machine.scope⟩

theorem walks_checkName {there : Focus} (name : String)
    (reached : origin.Reaches limits.depth ⟨there, frames, machine⟩) :
    limits.Walks origin (limits.checkName name) machine (fun _ => there) frames :=
  meets_checkName limits name ⟨rfl, reached⟩ ⟨rfl, _, reached, .limit _ rfl, rfl⟩

/-- A question to the store stays at the moment, and where it is not answered it has come to the
limit. -/
theorem walks_consult_bind {query : Store → Except Fault α} {f : α → Action β} {there : Focus}
    (reached : origin.Reaches limits.depth ⟨there, frames, machine⟩)
    (givesUp : GivesUpOnly (query machine.store))
    (next : ∀ a, query machine.store = .ok a →
      limits.Walks origin (f a) machine target others) :
    limits.Walks origin (consult query >>= f) machine target others := by
  have looked : (consult query).Meets machine
      (fun a last => last = machine ∧ query machine.store = .ok a)
      (fun fault last => last.scope = machine.scope ∧
        origin.StopsWith limits.depth fault last) := by
    apply meets_consult
    · exact fun a found => ⟨rfl, found⟩
    · intro fault failed
      rw [givesUp failed]
      exact ⟨rfl, _, reached, .limit _ rfl, rfl⟩
  apply looked.bind
  rintro a _ ⟨rfl, found⟩
  exact next a found

end Walks

theorem walks_lookup {span : Span} {token : Token}
    (reached : origin.Reaches limits.depth ⟨.eval (.name span token), frames, machine⟩) :
    limits.Walks origin (limits.lookup token.lexeme) machine .result frames :=
  (walks_checkName _ reached).bind fun _ middle here =>
    walks_get_bind (walks_pure (here.step (.lookup span token frames middle)))

theorem walks_assign {name : String} {value : Value}
    (reached : origin.Reaches limits.depth ⟨.assign [name] value, frames, machine⟩) :
    limits.Walks origin (limits.assign name value >>= fun _ => pure none) machine .ended
      frames := by
  have assigned : limits.Walks origin (limits.assign name value) machine (fun _ => .ended none)
      frames :=
    (walks_checkName _ reached).bind fun _ _ here =>
      walks_get_bind (walks_onStore here.assignAll)
  exact assigned.bind fun _ _ here => walks_pure here

theorem walks_direct {span : Span} {name value : Token}
    (reached : origin.Reaches limits.depth ⟨.exec (.directive span name value), frames, machine⟩) :
    limits.Walks origin (limits.direct name.lexeme value.lexeme >>= fun _ => pure none) machine
      .ended frames := by
  have directed : limits.Walks origin (limits.direct name.lexeme value.lexeme) machine
      (fun _ => .ended none) frames :=
    (walks_checkName _ reached).bind fun _ _ here => walks_get_bind (walks_onStore here.direct)
  exact directed.bind fun _ _ here => walks_pure here

theorem walks_print {callee : Expr} {arguments : List Value}
    (reached : origin.Reaches limits.depth ⟨.call callee .printer arguments, frames, machine⟩) :
    limits.Walks origin (limits.print callee.span.start.line arguments >>= fun _ => pure .nothing)
      machine .result frames := by
  have printed : limits.Walks origin (limits.print callee.span.start.line arguments) machine
      (fun _ => .result .nothing) frames := by
    apply walks_consult_bind reached (machine.store.givesUpOnly_renderAll _ _)
    intro text rendered
    apply walks_get_bind
    split
    next missing => exact walks_throw reached (.noSuchLine rendered missing)
    next page found => exact ⟨rfl, reached.step (.print frames rendered found)⟩
  exact printed.bind fun _ _ here => walks_pure here

theorem walks_ask {callee : Expr} {dialogue : Nat} {arguments : List Value}
    (reached : origin.Reaches limits.depth
      ⟨.call callee (.listener dialogue) arguments, frames, machine⟩) :
    limits.Walks origin (limits.ask dialogue arguments) machine .result frames := by
  apply walks_consult_bind reached (machine.store.givesUpOnly_renderAll _ _)
  intro text rendered
  have noted : limits.Walks origin (modify fun machine =>
      { machine with log := machine.log ++ [.asked (String.ofList (trim text.toList))] }) machine
      (fun _ => .answer dialogue) frames :=
    ⟨rfl, reached.step (.ask callee frames rendered)⟩
  apply noted.bind
  intro _ middle asked
  apply walks_get_bind
  split
  next answer rest found =>
    have answered := asked.step (.answer frames found)
    exact (walks_onStore answered).bind fun _ _ here => walks_pure here
  next silent => exact walks_throw asked (.noAnswer silent)

theorem walks_bindParams {scope : ScopeId} {params : List Token} {arguments : List Value}
    {body : List Stmt}
    (reached : origin.Reaches limits.depth ⟨.bind scope params arguments body, frames, machine⟩) :
    limits.Walks origin (limits.bindParams scope params arguments) machine
      (fun _ => .bind scope [] (arguments.drop params.length) body) frames := by
  induction params generalizing machine arguments with
  | nil => exact walks_pure reached
  | cons param params ih =>
    rw [bindParams]
    apply (walks_checkName param.lexeme reached).bind
    intro _ middle here
    have bound := here.step (.define scope param params arguments body frames middle)
    apply (walks_onStore bound).bind
    intro _ last there
    have rest := ih there
    rwa [List.drop_tail] at rest

/-- Statements in a row go to where the first that gives back has ended, or the last one. -/
theorem walks_firstReturn {exec : Stmt → Action (Option Returned)} {statements : List Stmt}
    (each : ∀ statement frames machine,
      origin.Reaches limits.depth ⟨.exec statement, frames, machine⟩ →
      limits.Walks origin (exec statement) machine .ended frames)
    (reached : origin.Reaches limits.depth ⟨.ended none, .rest statements :: frames, machine⟩) :
    limits.Walks origin (firstReturn exec statements) machine .ended frames := by
  induction statements generalizing machine with
  | nil => exact walks_pure (reached.resume rfl)
  | cons statement rest ih =>
    rw [firstReturn]
    apply (each statement _ _ (reached.resume rfl)).bind
    intro outcome middle here
    cases outcome with
    | some returned => exact walks_pure (here.resume rfl)
    | none => exact ih here

/-- A loop goes round until its test fails or its body gives back. -/
theorem walks_rounds {test : Action Value} {body : Action (Option Returned)} {testing : Expr}
    {looping : Stmt}
    (tests : ∀ frames machine, origin.Reaches limits.depth ⟨.eval testing, frames, machine⟩ →
      limits.Walks origin test machine .result frames)
    (bodies : ∀ frames machine, origin.Reaches limits.depth ⟨.exec looping, frames, machine⟩ →
      limits.Walks origin body machine .ended frames)
    (left : Nat)
    (reached : origin.Reaches limits.depth
      ⟨.eval testing, .testing testing looping :: frames, machine⟩) :
    limits.Walks origin (Marginalia.rounds (return (← test).isTruthy) body left) machine .ended
      frames := by
  induction left generalizing machine with
  | zero => exact walks_throw reached (.limit _ rfl)
  | succ left ih =>
    rw [Marginalia.rounds, bind_assoc]
    apply (tests _ _ reached).bind
    intro value middle here
    rw [pure_bind]
    cases holds : value.isTruthy with
    | false =>
      have finishes : (Frame.testing testing looping).take? value = some (.ended none, []) := by
        rw [Frame.take?, if_neg (by simp [holds])]
      exact walks_pure (here.take finishes)
    | true =>
      have again : (Frame.testing testing looping).take? value =
          some (.exec looping, [.looping testing looping]) := by
        rw [Frame.take?, if_pos holds]
      apply (bodies _ _ (here.take again)).bind
      intro outcome last there
      cases outcome with
      | some returned => exact walks_pure (there.resume rfl)
      | none => exact ih (there.resume rfl)

/-- A call goes to its result. -/
theorem walks_callFunction {run : List Stmt → Action (Option Returned)}
    (runs : ∀ body frames machine,
      origin.Reaches limits.depth ⟨.ended none, .rest body :: frames, machine⟩ →
      limits.Walks origin (run body) machine .ended frames)
    {callee : Expr} {arguments : List Value} {function : Function}
    (reached : origin.Reaches limits.depth ⟨.call callee function arguments, frames, machine⟩) :
    limits.Walks origin (limits.callFunction run callee arguments function) machine .result
      frames := by
  cases function with
  | printer => exact walks_print reached
  | listener dialogue => exact walks_ask reached
  | declared name params body home =>
    rw [callFunction]
    apply walks_get_bind
    have begun := reached.step (.call callee name params body home arguments frames machine)
    apply (walks_onStore begun).bind
    intro _ middle here
    apply (walks_bindParams here).bind
    intro _ bound ready
    have entered := ready.step (.enterCall _ _ body frames bound)
    have ran : limits.Walks origin (within machine.store.scopes.size (run body)) bound
        (fun outcome => .result (outcome.elim .nothing Returned.value)) frames := by
      apply walks_within (runs body _ _ entered)
      exact fun outcome last there => there.step (.leaveCall outcome bound.scope frames last)
    apply ran.bind
    intro outcome last there
    cases outcome with
    | some returned => exact walks_pure there
    | none => exact walks_pure there

/-- Expressions and statements of one depth go along the steps, whatever is left to do behind
them. -/
structure WalksLayer (limits : Limits) (origin : Moment) (depth : Nat) : Prop where
  expr : ∀ expr frames machine, origin.Reaches limits.depth ⟨.eval expr, frames, machine⟩ →
    limits.Walks origin (limits.eval depth expr) machine .result frames
  statement : ∀ statement frames machine,
    origin.Reaches limits.depth ⟨.exec statement, frames, machine⟩ →
    limits.Walks origin (limits.exec depth statement) machine .ended frames

namespace WalksLayer

variable {depth : Nat}

theorem zero (limits : Limits) (origin : Moment) : limits.WalksLayer origin 0 where
  expr expr frames machine reached := by
    rw [eval]
    exact walks_throw reached (.limit _ rfl)
  statement statement frames machine reached := by
    cases statement with
    | remark span text =>
      rw [exec]
      split
      · exact walks_throw reached (.limit _ rfl)
      · exact walks_pure (reached.turn rfl)
    | _ => exact walks_throw reached (.limit _ rfl)

theorem arguments (layer : limits.WalksLayer origin depth) {callee : Expr} {marker : Token}
    {value : Value} {done : List Value} {rest : List Expr}
    (reached : origin.Reaches limits.depth
      ⟨.pass callee marker value done rest, frames, machine⟩) :
    limits.Walks origin (rest.mapM (limits.eval depth)) machine
      (fun values => .pass callee marker value (done ++ values) []) frames := by
  induction rest generalizing machine done with
  | nil =>
    rw [← List.append_nil done] at reached
    exact walks_pure reached
  | cons argument rest ih =>
    rw [List.mapM_cons]
    apply (layer.expr argument _ _ (reached.turn rfl)).bind
    intro first middle here
    apply (ih (here.take rfl)).bind
    intro values last there
    apply walks_pure
    rwa [List.append_cons]

theorem statements (layer : limits.WalksLayer origin depth) (body : List Stmt)
    (frames : List Frame) (machine : Machine)
    (reached : origin.Reaches limits.depth ⟨.ended none, .rest body :: frames, machine⟩) :
    limits.Walks origin (firstReturn (limits.exec depth) body) machine .ended frames :=
  walks_firstReturn layer.statement reached

/-- An expression of one more level goes along the steps, if its parts and the bodies of functions
do. -/
theorem expr_succ (layer : limits.WalksLayer origin depth) (expr : Expr) (frames : List Frame)
    (machine : Machine)
    (reached : origin.Reaches limits.depth ⟨.eval expr, frames, machine⟩) :
    limits.Walks origin (limits.eval (depth + 1) expr) machine .result frames := by
  cases expr with
  | constant span value => exact walks_pure (reached.turn rfl)
  | name span token => exact walks_lookup reached
  | negation span operator operand =>
    rw [eval]
    exact (layer.expr operand _ _ (reached.turn rfl)).bind fun _ _ here =>
      walks_pure (here.take rfl)
  | comparison span left operator right =>
    rw [eval]
    apply (layer.expr left _ _ (reached.turn rfl)).bind
    intro leftValue middle here
    apply (layer.expr right _ _ (here.take rfl)).bind
    intro rightValue last there
    apply walks_consult_bind there (last.store.givesUpOnly_equal _ _ _)
    exact fun same compared => walks_pure (there.step (.compare _ compared))
  | connective span left operator right =>
    rw [eval]
    apply (layer.expr left _ _ (reached.turn rfl)).bind
    intro value middle here
    split
    next settled => exact walks_pure (here.take (if_pos settled))
    next undecided => exact layer.expr right _ _ (here.take (if_neg undecided))
  | call span callee marker arguments =>
    rw [eval]
    apply (layer.expr callee _ _ (reached.turn rfl)).bind
    intro value middle here
    apply (layer.arguments (here.take rfl)).bind
    intro values last there
    apply walks_get_bind
    dsimp only
    split
    next function called =>
      exact walks_callFunction layer.statements
        (there.step (.resolve callee marker values frames called))
    next missing =>
      apply walks_consult_bind there (last.store.givesUpOnly_render _ _)
      exact fun shown rendered => walks_throw there (.notAFunction missing rendered)
  | unknown span kind view =>
    exact walks_throw reached (.unknownExpression span kind view frames machine)

/-- So does a statement of one more level. -/
theorem statement_succ (layer : limits.WalksLayer origin depth) (statement : Stmt)
    (frames : List Frame) (machine : Machine)
    (reached : origin.Reaches limits.depth ⟨.exec statement, frames, machine⟩) :
    limits.Walks origin (limits.exec (depth + 1) statement) machine .ended frames := by
  cases statement with
  | expression span expr wrapped =>
    rw [exec]
    exact (layer.expr expr _ _ (reached.turn rfl)).bind fun _ _ here => walks_pure (here.take rfl)
  | binding span name initial =>
    cases initial with
    | none =>
      rw [exec]
      exact walks_assign (reached.turn rfl)
    | some expr =>
      rw [exec]
      exact (layer.expr expr _ _ (reached.turn rfl)).bind fun _ _ here =>
        walks_assign (here.take rfl)
  | block span statements =>
    rw [exec]
    have entered := reached.step (.enterBlock span statements frames machine)
    apply walks_get_bind
    have begun : limits.Walks origin
        (within machine.store.scopes.size (firstReturn (limits.exec depth) statements))
        { machine with store := machine.store.child machine.scope } .ended frames := by
      apply walks_within (layer.statements statements _ _ entered)
      exact fun outcome last there => there.step (.leaveBlock outcome machine.scope frames last)
    exact begun
  | condition span test yes no =>
    cases no with
    | none =>
      rw [exec]
      apply (layer.expr test _ _ (reached.turn rfl)).bind
      intro value middle here
      split
      next holds => exact layer.statement yes _ _ (here.take (if_pos holds))
      next fails => exact walks_pure (here.take (if_neg fails))
    | some no =>
      rw [exec]
      apply (layer.expr test _ _ (reached.turn rfl)).bind
      intro value middle here
      split
      next holds => exact layer.statement yes _ _ (here.take (if_pos holds))
      next fails => exact layer.statement no _ _ (here.take (if_neg fails))
  | loop span test body =>
    rw [exec]
    exact walks_rounds (layer.expr test) (layer.statement body) limits.rounds (reached.turn rfl)
  | giveBack span keyword value =>
    cases value with
    | none =>
      rw [exec]
      exact walks_pure (reached.turn rfl)
    | some expr =>
      rw [exec]
      exact (layer.expr expr _ _ (reached.turn rfl)).bind fun _ _ here =>
        walks_pure (here.take rfl)
  | function span name params body =>
    rw [exec]
    have declared : limits.Walks origin (declare name params body) machine
        (.assign [name.lexeme]) frames :=
      ⟨rfl, reached.step (.declare span name params body frames machine)⟩
    exact declared.bind fun _ _ here => walks_assign here
  | directive span name value =>
    rw [exec]
    exact walks_direct reached
  | remark span text => exact walks_pure (reached.turn rfl)
  | unknown span kind view =>
    exact walks_throw reached (.unknownStatement span kind view frames machine)

end WalksLayer

/-- Expressions and statements go along the steps. -/
theorem walks_evaluation (limits : Limits) (origin : Moment) (depth : Nat) :
    limits.WalksLayer origin depth := by
  induction depth with
  | zero => exact .zero limits origin
  | succ depth layer => exact ⟨layer.expr_succ, layer.statement_succ⟩

/-- A whole program goes along the steps, to where nothing is left to do. -/
theorem walks_interpret (limits : Limits) {program : Program}
    (reached : origin.Reaches limits.depth (.top program machine)) :
    limits.Walks origin (limits.interpret program) machine (fun _ => .ended none) [] := by
  induction program generalizing machine with
  | nil => exact walks_pure (reached.resume rfl)
  | cons statement rest ih =>
    rw [interpret]
    have layer := limits.walks_evaluation origin limits.depth
    apply (layer.statement statement _ _ (reached.resume rfl)).bind
    intro outcome middle here
    cases outcome with
    | some returned => exact walks_throw (here.resume rfl) (.returnAtTop returned middle)
    | none => exact ih here

end Limits

/-! ## Runs -/

/-- A run goes along the steps from its first moment: where it has no fault it comes to a moment at
which nothing is left to do, and else to one at which the fault may stop it. It is back in the scope
it began in. -/
theorem Program.walks_runUnder {limits : Limits} {origin : Moment} {program : Program}
    {machine : Machine} (reached : origin.Reaches limits.depth (.top program machine)) :
    (program.runUnder limits machine).machine.scope = machine.scope ∧
      ((program.runUnder limits machine).fault = none →
        origin.Reaches limits.depth
          ⟨.ended none, [], (program.runUnder limits machine).machine⟩) ∧
      ∀ fault, (program.runUnder limits machine).fault = some fault →
        origin.StopsWith limits.depth fault (program.runUnder limits machine).machine := by
  have walks := limits.walks_interpret reached
  unfold Program.runUnder
  cases finished : limits.interpret program machine with
  | ok result last =>
    obtain ⟨back, ended⟩ := Action.Meets.of_ok walks finished
    exact ⟨back, fun _ => ended, fun fault same => (Option.some_ne_none fault same.symm).elim⟩
  | error fault last =>
    obtain ⟨back, stopped⟩ := Action.Meets.of_error walks finished
    refine ⟨back, fun none => (Option.some_ne_none fault none).elim, fun other same => ?_⟩
    obtain rfl : fault = other := Option.some.inj same
    exact stopped

/-- A run leaves the machine of a moment that is reached. -/
theorem Program.leaves_runUnder {limits : Limits} {origin : Moment} {program : Program}
    {machine : Machine} (reached : origin.Reaches limits.depth (.top program machine)) :
    origin.Leaves limits.depth (program.runUnder limits machine).machine := by
  obtain ⟨_, ended, stopped⟩ := walks_runUnder reached
  cases same : (program.runUnder limits machine).fault with
  | none => exact (ended same).leaves
  | some fault => exact (stopped fault same).leaves

namespace Source

/-- The run of a program on the source in a fresh store begins. -/
def firstMoment (source : Source) (answers : Option (List String)) (program : Program) : Moment :=
  let (settings, store) := Store.fresh.answering answers
  .first store Store.root settings source.text.toList program

theorem reaches_opened (source : Source) (answers : Option (List String)) (program : Program)
    (depth : Nat) :
    (source.firstMoment answers program).Reaches depth
      (.top program (source.opened answers)) :=
  Moment.Reaches.assignAll .refl

end Source

end Marginalia
