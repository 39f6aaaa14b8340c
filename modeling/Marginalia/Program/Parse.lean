import Marginalia.Program
import Marginalia.Fault

/-!
# Reading programs

`Program.parse` reads a list of tokens by descent. A `Stream` is what is left of the tokens, and a
`Parser` takes some of it. Repetition is one combinator, `Parser.repeatFrom`: each round takes at
least one token, so the tokens left bound the rounds.

Expressions come in two kinds that differ in their operands. In arguments and conditions an
operand is a plain one (`primary`), because a dash there closes the list; elsewhere an operand may
be called (`called`). So no flag has to be carried along: `expressionOver` builds the operators
over either kind of operand.

`depth` arguments count how much deeper the reader follows nested statements and negations; beyond
that it gives up with `Fault.tooDeep`.
-/

namespace Marginalia

/-- What is left of some tokens. -/
structure Stream where
  /-- The tokens still to be taken. -/
  rest : List Token
  /-- The token that is seen when all others have been taken. -/
  final : Token
deriving DecidableEq, Repr

/-- The stream of a list of tokens. The token of the end of the text closes it; a list without one
shows its last token again and again. An empty list shows nothing and is no stream. -/
def Stream.ofTokens? (tokens : List Token) : Option Stream :=
  let body := tokens.takeWhile (·.kind ≠ .textEnd)
  match tokens.find? (·.kind = .textEnd), tokens.getLast? with
  | some final, _ => some ⟨body, final⟩
  | none, some last => some ⟨body, last⟩
  | none, none => none

/-- A reader of some of a stream. -/
abbrev Parser := StateT Stream (Except Fault)

/-- At most so many arguments or parameters stand in a list. -/
def argumentLimit : Nat := 255

namespace Parser

/-! ## Looking and taking -/

/-- The next token. -/
def peek : Parser Token := do
  let stream ← get
  return stream.rest.headD stream.final

/-- Takes the next token. The end of the text can be seen and not taken; a token that is only
shown again is no longer there. -/
def take : Parser Token := do
  let stream ← get
  match stream.rest with
  | token :: rest =>
    set { stream with rest }
    return token
  | [] => throw .noMoreTokens

/-- Stops at the next token. -/
def fail {α : Type} (cause : ParseCause) : Parser α := do
  throw (.parse cause (← peek))

/-- Takes the next token if it is of one of the kinds. -/
def takeIf (kinds : List TokenKind) : Parser (Option Token) := do
  if kinds.contains (← peek).kind then
    return some (← take)
  else
    return none

/-- Takes a token of the kind, or says which part is missing. -/
def expect (kind : TokenKind) (part : Part) : Parser Token := do
  match ← takeIf [kind] with
  | some token => return token
  | none => fail (.missing part)

/-- Runs the rounds of a repetition, at most one for every token of a list: each ends it with a
result or goes on with a new state. -/
def repeatFor {σ α : Type} (round : σ → Parser (σ ⊕ α)) : List Token → σ → Parser α
  | [], _ => throw .endless
  | _ :: rounds, state => do
    match ← round state with
    | .inl next => repeatFor round rounds next
    | .inr result => return result

/-- Repeats a round that takes at least one token until it gives a result. -/
def repeatFrom {σ α : Type} (state : σ) (round : σ → Parser (σ ⊕ α)) : Parser α := do
  let stream ← get
  repeatFor round (stream.final :: stream.rest) state

/-- Skips line ends. -/
def skipLineEnds : Parser Unit := do
  modify fun stream => { stream with rest := stream.rest.dropWhile (·.kind = .lineEnd) }
  if (← peek).kind = .lineEnd then throw .noMoreTokens

/-- The kind of the first token that is no line end; nothing is taken. -/
def kindPastLineEnds : Parser TokenKind := do
  let stream ← get
  return ((stream.rest.dropWhile (·.kind = .lineEnd)).headD stream.final).kind

/-! ## Expressions -/

/-- A value written out, or a name. -/
def primary : Parser Expr := do
  let token ← peek
  match token.kind with
  | .falseWord => return .constant (← take).span (.truth false)
  | .trueWord => return .constant (← take).span (.truth true)
  | .nothingWord => return .constant (← take).span .nothing
  | .string => return .constant (← take).span (.ofLiteral token.literal)
  | .name => return .name (← take).span token
  | _ => fail .noExpression

/-- Up to `depth` times `not` before an operand. -/
def negated (operand : Parser Expr) (depth : Nat) : Parser Expr := do
  match ← takeIf [.notWord] with
  | none => operand
  | some operator =>
    match depth with
    | 0 => throw .tooDeep
    | depth + 1 =>
      let inner ← negated operand depth
      return .negation (operator.span.upTo inner.span) operator inner

/-- An operator of some kinds and its right operand, if there is one. -/
def moreOperands (node : Span → Expr → Token → Expr → Expr) (kinds : List TokenKind)
    (operand : Parser Expr) (left : Expr) : Parser (Expr ⊕ Expr) := do
  match ← takeIf kinds with
  | none => return .inr left
  | some operator =>
    let right ← operand
    return .inl (node (left.span.upTo right.span) left operator right)

/-- Operands with operators of some kinds between them, grouped to the left. -/
def leftGrouped (node : Span → Expr → Token → Expr → Expr) (kinds : List TokenKind)
    (operand : Parser Expr) : Parser Expr := do
  repeatFrom (← operand) (moreOperands node kinds operand)

/-- Negations, comparisons, `and`, `or` over a kind of operand, each binding less than the one
before it. -/
def expressionOver (operand : Parser Expr) (depth : Nat) : Parser Expr :=
  leftGrouped .connective [.orWord] <|
    leftGrouped .connective [.andWord] <|
      leftGrouped .comparison [.isWord, .amWord, .areWord] <|
        negated operand depth

/-- An expression in which a dash is no call: an argument or a condition. -/
def plainExpression (depth : Nat) : Parser Expr :=
  expressionOver primary depth

/-- One more item of a list, as long as there is room, and whether a comma follows it. -/
def moreItems {α : Type} (item : Parser α) (items : List α) : Parser (List α ⊕ List α) := do
  if argumentLimit ≤ items.length then
    fail .tooManyArguments
  else
    let found ← item
    match ← takeIf [.comma] with
    | some _ => return .inl (items ++ [found])
    | none => return .inr (items ++ [found])

/-- Items with commas between them, at most as many as a list may hold. -/
def separated {α : Type} (item : Parser α) : Parser (List α) :=
  repeatFrom [] (moreItems item)

/-- The items of a list before the dash that closes it. -/
def listed {α : Type} (item : Parser α) : Parser (List α) := do
  if (← peek).kind = .dash then return []
  separated item

/-- The arguments of a call, if one follows. -/
def moreCalls (depth : Nat) (callee : Expr) : Parser (Expr ⊕ Expr) := do
  match ← takeIf [.dash] with
  | none => return .inr callee
  | some _ =>
    let arguments ← listed (plainExpression depth)
    let marker ← expect .dash .dashAfterArguments
    return .inl (.call (callee.span.upTo marker.span) callee marker arguments)

/-- A plain operand and the calls that follow it. -/
def called (depth : Nat) : Parser Expr := do
  repeatFrom (← primary) (moreCalls depth)

/-- An expression. -/
def expression (depth : Nat) : Parser Expr :=
  expressionOver (called depth) depth

/-! ## Statements -/

/-- The expression is a direct call of the printer by one of its names. -/
def isPrinterCall : Expr → Bool
  | .call _ (.name _ token) _ _ => printerNames.contains token.lexeme
  | _ => false

/-- A call of the printer around an expression. Its tokens stand where the expression does, so
that the output lands on the line where the expression begins. -/
def inPrinter (expr : Expr) : Expr :=
  .call expr.span (.name expr.span ⟨.name, "print", none, expr.span⟩)
    ⟨.dash, "—", none, expr.span⟩ [expr]

/-- An expression as a statement. -/
def expressionStatement (depth : Nat) : Parser Stmt := do
  let expr ← expression depth
  if isPrinterCall expr then
    return .expression expr.span expr false
  else
    return .expression expr.span (inPrinter expr) true

/-- The condition between two dashes. -/
def condition (depth : Nat) (opening : Part) : Parser Expr := do
  let _ ← expect .dash opening
  let test ← plainExpression depth
  let _ ← expect .dash .dashAfterCondition
  return test

/-- What may stand behind the mark of a return that gives nothing back. -/
def returnStops : List TokenKind :=
  [.lineEnd, .dot, .dagger, .textEnd]

/-- What follows the mark of a return: nothing before the end of a line, block or text or before a
remark, else an expression. -/
def giveBack (depth : Nat) (keyword : Token) : Parser Stmt := do
  if returnStops.contains (← peek).kind then
    return .giveBack keyword.span keyword none
  else
    let value ← expression depth
    return .giveBack (keyword.span.upTo value.span) keyword (some value)

/-- The text of a remark. -/
def remark (dagger : Token) : Parser Stmt := do
  let text ← expect .string .remarkText
  return .remark (dagger.span.upTo text.span) text

/-- The name and value of a directive. -/
def directive (nested : Bool) (pound : Token) : Parser Stmt := do
  if nested then
    throw (.parse .nestedDirective pound)
  else
    let name ← expect .name .directiveName
    let _ ← takeIf [.beWord]
    let value ← expect .name .directiveValue
    return .directive (pound.span.upTo value.span) name value

/-- The name and, after `be`, the value of a variable. -/
def binding (depth : Nat) (letToken : Token) : Parser Stmt := do
  let name ← expect .name .variableName
  match ← takeIf [.beWord] with
  | none => return .binding (letToken.span.upTo name.span) name none
  | some _ =>
    let value ← expression depth
    return .binding (letToken.span.upTo value.span) name (some value)

/-- One more declaration, past the line ends before it, unless one of the stops comes first. -/
def moreLines (stops : List TokenKind) (item : Parser Stmt) (latestFirst : List Stmt) :
    Parser (List Stmt ⊕ List Stmt) := do
  skipLineEnds
  if stops.contains (← peek).kind then
    return .inr latestFirst.reverse
  else
    return .inl ((← item) :: latestFirst)

/-- Declarations up to one of the stops. -/
def lines (stops : List TokenKind) (item : Parser Stmt) : Parser (List Stmt) :=
  repeatFrom [] (moreLines stops item)

/-- The declarations of a block up to its dot. -/
def block (item : Parser Stmt) : Parser (List Stmt × Token) := do
  let statements ← lines [.dot, .textEnd] item
  let dot ← expect .dot .dotAfterBlock
  return (statements, dot)

/-- The name, parameters and body of a function. -/
def function (body : Parser (List Stmt × Token)) (toToken : Token) : Parser Stmt := do
  let name ← expect .name .functionName
  let _ ← expect .dash .dashAfterFunctionName
  let params ← listed (expect .name .parameterName)
  let _ ← expect .dash .dashAfterParameters
  let _ ← expect .colon .colonBeforeBody
  let (statements, dot) ← body
  return .function (toToken.span.upTo dot.span) name params statements

mutual

/-- A statement: what may stand as a branch or as the body of a loop. -/
def statement : Nat → Parser Stmt
  | 0 => throw .tooDeep
  | depth + 1 => do
    match (← peek).kind with
    | .ifWord =>
      let ifToken ← take
      let test ← condition depth .dashAfterIf
      let yes ← statement depth
      if (← kindPastLineEnds) = .elseWord then
        skipLineEnds
        let _ ← take
        let no ← statement depth
        return .condition (ifToken.span.upTo no.span) test yes (some no)
      else
        return .condition (ifToken.span.upTo yes.span) test yes none
    | .ampersand => giveBack depth (← take)
    | .whileWord =>
      let whileToken ← take
      let test ← condition depth .dashAfterWhile
      let body ← statement depth
      return .loop (whileToken.span.upTo body.span) test body
    | .colon =>
      let colon ← take
      let (statements, dot) ← body depth
      return .block (colon.span.upTo dot.span) statements
    | _ => expressionStatement depth

/-- A declaration or a statement: what may stand in a block or at the top. -/
def declaration (nested : Bool) : Nat → Parser Stmt
  | 0 => throw .tooDeep
  | depth + 1 => do
    match (← peek).kind with
    | .dagger => remark (← take)
    | .pound => directive nested (← take)
    | .toWord => function (body depth) (← take)
    | .letWord => binding depth (← take)
    | _ => statement depth

/-- The inside of a block. -/
def body : Nat → Parser (List Stmt × Token)
  | 0 => throw .tooDeep
  | depth + 1 => block (declaration true depth)

end

/-- All declarations up to the end of the text. -/
def program (depth : Nat) : Parser Program :=
  lines [.textEnd] (declaration false depth)

end Parser

/-- Reads tokens as a program that is nested less than `depth` deep. -/
def Program.parseWithin (depth : Nat) (tokens : List Token) : Except Fault Program :=
  match Stream.ofTokens? tokens with
  | none => .error .noMoreTokens
  | some stream => (Parser.program depth).run' stream

/-- Reads tokens as a program. -/
def Program.parse (tokens : List Token) : Except Fault Program :=
  Program.parseWithin depthLimit tokens

end Marginalia
