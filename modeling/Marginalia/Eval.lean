import Marginalia.Machine

/-!
# Evaluation

`Limits.eval` gives the value of an expression and `Limits.exec` carries out a statement. Both count
down how much deeper they may go, one for every expression, statement and call inside another, so
that endless recursion ends with `Fault.tooDeep`; a loop counts its rounds apart from that.

A statement that gives back a value ends the statements around it one by one, up to the body of
the function that is being called (`firstReturn`, `rounds`). At the top nobody is calling, and
`Limits.interpret` stops there.
-/

namespace Marginalia

/-- What a statement that gives back hands to the call it ends. -/
structure Returned where
  keyword : Token
  value : Value
deriving DecidableEq, Repr

/-- Carries out statements in order up to the first that gives back. -/
def firstReturn (exec : Stmt → Action (Option Returned)) :
    List Stmt → Action (Option Returned)
  | [] => return none
  | statement :: rest => do
    match ← exec statement with
    | some returned => return some returned
    | none => firstReturn exec rest

/-- Goes round while the test holds and nothing is given back. -/
def rounds (test : Action Bool) (body : Action (Option Returned)) :
    Nat → Action (Option Returned)
  | 0 => throw .endless
  | left + 1 => do
    if ← test then
      match ← body with
      | some returned => return some returned
      | none => rounds test body left
    else
      return none

namespace Limits

variable (limits : Limits)

/-- Binds parameters to arguments in a scope; a parameter without an argument is nothing. -/
def bindParams (scope : ScopeId) : List Token → List Value → Action Unit
  | [], _ => return ()
  | param :: params, arguments => do
    limits.checkName param.lexeme
    Action.onStore (·.define scope param.lexeme (arguments.headD .nothing))
    bindParams scope params arguments.tail

/-- Calls a function. `callee` is the expression that named it: what is printed lands on its
line. `run` carries out the body of a declared function. -/
def callFunction (run : List Stmt → Action (Option Returned)) (callee : Expr)
    (arguments : List Value) : Function → Action Value
  | .printer => do
    limits.print callee.span.start.line arguments
    return .nothing
  | .listener dialogue => limits.ask dialogue arguments
  | .declared _ params body home => do
    let scope := (← get).store.scopes.size
    Action.onStore (·.child home)
    limits.bindParams scope params arguments
    match ← Action.within scope (run body) with
    | some returned => return returned.value
    | none => return .nothing

mutual

/-- The value of an expression. -/
def eval : Nat → Expr → Action Value
  | 0, _ => throw .tooDeep
  | depth + 1, expr =>
    match expr with
    | .constant _ value => return value.value
    | .name _ token => limits.lookup token.lexeme
    | .negation _ _ operand => return .truth (!(← eval depth operand).isTruthy)
    | .comparison _ left _ right => do
      let left ← eval depth left
      let right ← eval depth right
      return .truth (← Action.consult (·.equal limits.depth left right))
    | .connective _ left operator right => do
      let value ← eval depth left
      if value.isTruthy = decide (operator.kind = .orWord) then return value
      else eval depth right
    | .call _ callee marker arguments => do
      let value ← eval depth callee
      let arguments ← arguments.mapM (eval depth)
      let store := (← get).store
      match (store.callable? value).bind store.functions.get? with
      | some function =>
        limits.callFunction (firstReturn (exec depth)) callee arguments function
      | none =>
        let shown ← Action.consult (·.render limits.depth value)
        throw (.run (.notAFunction shown) marker)
    | .unknown _ kind _ => throw (.unknownExpression kind)

/-- Carries out a statement. -/
def exec : Nat → Stmt → Action (Option Returned)
  | 0, .remark _ _ => if limits.remarks then throw .tooDeep else return none
  | 0, _ => throw .tooDeep
  | depth + 1, statement =>
    match statement with
    | .expression _ expr _ => do
      let _ ← eval depth expr
      return none
    | .binding _ name initial => do
      let value ← match initial with
        | none => pure .nothing
        | some expr => eval depth expr
      limits.assign name.lexeme value
      return none
    | .block _ statements => do
      let machine ← get
      let scope := machine.store.scopes.size
      Action.onStore (·.child machine.scope)
      Action.within scope (firstReturn (exec depth) statements)
    | .condition _ test yes no => do
      if (← eval depth test).isTruthy then exec depth yes
      else
        match no with
        | none => return none
        | some no => exec depth no
    | .loop _ test body =>
      Marginalia.rounds (return (← eval depth test).isTruthy) (exec depth body) limits.rounds
    | .giveBack _ keyword value => do
      let value ← match value with
        | none => pure .nothing
        | some expr => eval depth expr
      return some ⟨keyword, value⟩
    | .function _ name params body => do
      let value ← Action.declare name params body
      limits.assign name.lexeme value
      return none
    | .directive _ name value => do
      limits.direct name.lexeme value.lexeme
      return none
    | .remark _ _ => return none
    | .unknown _ kind _ => throw (.unknownStatement kind)

end

/-- Carries out the statements of a program at the top. -/
def interpret : Program → Action Unit
  | [] => return ()
  | statement :: rest => do
    match ← limits.exec limits.depth statement with
    | some returned => throw (.run .returnAtTop returned.keyword)
    | none => interpret rest

end Limits

end Marginalia
