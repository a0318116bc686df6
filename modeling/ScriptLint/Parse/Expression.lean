import ScriptLint.Parse.Function

namespace ScriptLint
namespace Parse

open ScriptLint.Parser

/-- An expression, in which commas may stand. -/
def expression (g : Grammar) : Parser NodeId := do
  let start ← currentSpan
  let expressions ← separatedBy .comma g.assignment
  match expressions with
  | [single] => return single
  | expressions => finish start (.sequenceExpression expressions)

/-- Three dots and an expression, or the expression alone. -/
def spreadOrAssignment (g : Grammar) : Parser NodeId := do
  if ← check .dotDotDot then
    let start ← currentSpan
    skip
    let argument ← g.assignment
    finish start (.spreadElement argument)
  else g.assignment

/-- The arguments of a call in their parentheses. -/
def arguments (g : Grammar) : Parser (List NodeId) := do
  expect .leftParen
  withIn true do
    let arguments ← commaSeparated .rightParen (spreadOrAssignment g)
    expect .rightParen
    return arguments

/-- The expression of a substitution, which takes all its tokens. -/
def substitution (g : Grammar) (tokens : List SpannedToken) : Parser NodeId :=
  withTokens tokens do
    let e ← expression g
    if ← atEof then return e else unexpected [.punct .rightBrace]

/-- The nodes of a template's parts: its quasis and its expressions. The last quasi is the
tail. -/
def templateParts (g : Grammar) (quasiCount : Nat) :
    List TemplatePart → List NodeId → List NodeId → Parser (List NodeId × List NodeId)
  | [], quasis, expressions => return (quasis.reverse, expressions.reverse)
  | .quasi raw span :: parts, quasis, expressions => do
    let tail := quasis.length + 1 == quasiCount
    let quasi ← alloc (.templateElement raw tail) span
    templateParts g quasiCount parts (quasi :: quasis) expressions
  | .substitution tokens :: parts, quasis, expressions => do
    let e ← substitution g tokens
    templateParts g quasiCount parts quasis (e :: expressions)

def isQuasi : TemplatePart → Bool
  | .quasi _ _ => true
  | .substitution _ => false

/-- A template literal. -/
def template (g : Grammar) : Parser NodeId := do
  let span ← currentSpan
  match ← advance with
  | .template parts =>
    let (quasis, expressions) ← templateParts g (parts.countP isQuasi) parts [] []
    alloc (.templateLiteral quasis expressions) span
  | _ => fail ⟨.invalidSyntax "expected template literal", span, none⟩

/-- An expression in parentheses. -/
def parenthesized (g : Grammar) : Parser NodeId := do
  let start ← currentSpan
  expect .leftParen
  let e ← withIn true (expression g)
  expect .rightParen
  finish start (.parenthesizedExpression e)

/-- An array literal. -/
def arrayLiteral (g : Grammar) : Parser NodeId := do
  let start ← currentSpan
  expect .leftBracket
  let elements ← withIn true (elementsWithHoles (spreadOrAssignment g))
  expect .rightBracket
  finish start (.arrayExpression elements)

/-- The kind of an object's member, by its accessor's word. -/
def propertyKind : Option Bool → PropertyKind
  | some true => .get
  | some false => .set
  | none => .init

/-- A member of an object literal. A shorthand may have a default value, as it may turn out to
be part of a pattern. -/
def objectMember (g : Grammar) : Parser NodeId := do
  let start ← currentSpan
  if ← check .dotDotDot then spreadOrAssignment g
  else
    let head ← memberHead
    let kind := propertyKind head.accessor
    let (key, computed) ← propertyKey g
    if (← check .leftParen) || (← check .less) then
      let value ← methodFunction g head.isAsync head.generator
      finish start (.property
        { key, value, kind, computed, shorthand := false, method := kind == .init })
    else if kind != .init || head.isAsync || head.generator then unexpected [.punct .leftParen]
    else if ← eat .colon then
      let value ← g.assignment
      finish start (.property { key, value, kind, computed, shorthand := false, method := false })
    else if computed || !(← isIdentifier key) then unexpected [.punct .colon]
    else
      let value ← if ← eat .equal then do
          let right ← g.assignment
          finish start (.assignmentPattern key right)
        else pure key
      finish start (.property
        { key, value, kind, computed := false, shorthand := true, method := false })

/-- An object literal. -/
def objectLiteral (g : Grammar) : Parser NodeId := do
  let start ← currentSpan
  expect .leftBrace
  let properties ← withIn true (commaSeparated .rightBrace (objectMember g))
  expect .rightBrace
  finish start (.objectExpression properties)

/-- Whether `async` here begins a function. -/
def atAsyncFunction : Parser Bool := ask fun s =>
  s.current.isName "async" && s.peek.isKeyword .functionWord &&
    !s.newlineBeforeAt (s.pos + 1)

/-- Takes the current token as a node. -/
def word (node : Node) : Parser NodeId := do
  let span ← currentSpan
  skip
  alloc node span

/-- An expression that is one token, or begins and ends with a bracket. -/
def primary (g : Grammar) : Parser NodeId := do
  let span ← currentSpan
  match ← current with
  | .identifier _ => if ← atAsyncFunction then functionExpression g else identifier
  | .keyword .thisWord => word .thisExpression
  | .keyword .superWord => word .superExpression
  | .keyword .trueWord => literal (.boolean true)
  | .keyword .falseWord => literal (.boolean false)
  | .keyword .nullWord => literal .null
  | .keyword .functionWord => functionExpression g
  | .keyword .classWord => classLike g true
  | .keyword .importWord => word (.identifier { name := "import" })
  | .number value => literal (.number value)
  | .string value => literal (.string value)
  | .template _ => template g
  | .punct .leftParen => parenthesized g
  | .punct .leftBracket => arrayLiteral g
  | .punct .leftBrace => objectLiteral g
  | .punct .slash | .punct .slashEqual => fail (.unsupported "regular expression literal" span)
  | .punct .less => fail (.unsupported "JSX" span)
  | _ => unexpected []

/-- An expression in brackets after an object. -/
def index (g : Grammar) : Parser NodeId := do
  skip
  let property ← withIn true (expression g)
  expect .rightBracket
  return property

/-- What may follow an expression directly: one access, call, template or `!`. Gives the longer
expression and whether it is optional, or nothing. -/
def suffix? (g : Grammar) (calls : Bool) (start : Span) (object : NodeId) :
    Parser (Option (NodeId × Bool)) := do
  match ← current with
  | .punct .dot =>
    skip
    let property ← propertyIdentifier
    let e ← finish start (.memberExpression
      { object, property, computed := false, optional := false })
    return some (e, false)
  | .punct .questionDot =>
    if calls then
      skip
      match ← current with
      | .punct .leftParen =>
        let arguments ← arguments g
        return some (← finish start (.callExpression object arguments true), true)
      | .punct .leftBracket =>
        let property ← index g
        let e ← finish start (.memberExpression
          { object, property, computed := true, optional := true })
        return some (e, true)
      | _ =>
        let property ← propertyIdentifier
        let e ← finish start (.memberExpression
          { object, property, computed := false, optional := true })
        return some (e, true)
    else return none
  | .punct .leftBracket =>
    let property ← index g
    let e ← finish start (.memberExpression
      { object, property, computed := true, optional := false })
    return some (e, false)
  | .punct .leftParen =>
    if calls then
      let arguments ← arguments g
      return some (← finish start (.callExpression object arguments false), false)
    else return none
  | .template _ =>
    let quasi ← template g
    return some (← finish start (.taggedTemplateExpression object quasi), false)
  | .punct .bang =>
    if ← newlineBefore then return none
    else
      skip
      return some (← finish start (.nonNullExpression object), false)
  | _ => return none

/-- All that follows an expression directly. An optional access anywhere makes the whole a
chain. -/
def suffixes (g : Grammar) (calls : Bool) (start : Span) (object : NodeId) : Parser NodeId := do
  let (e, inChain) ← loop (object, false) fun (object, inChain) => do
    match ← suffix? g calls start object with
    | some (e, optional) => return .next (e, inChain || optional)
    | none => return .stop (object, inChain)
  if inChain then finish start (.chainExpression e) else return e

/-- An expression that begins with `new`. -/
def newExpression (g : Grammar) : Parser NodeId := do
  let start ← currentSpan
  expectKeyword .newWord
  if ← check .dot then fail (.unsupported "new.target" start)
  let calleeStart ← currentSpan
  let callee ← if ← checkKeyword .newWord then g.new else primary g
  let callee ← suffixes g false calleeStart callee
  let arguments ← if ← check .leftParen then arguments g else pure []
  finish start (.newExpression callee arguments)

/-- A primary expression or `new`, with its accesses and calls. -/
def leftHandSide (g : Grammar) : Parser NodeId := do
  let start ← currentSpan
  let e ← if ← checkKeyword .newWord then newExpression g else primary g
  suffixes g true start e

/-- An operand with `++` or `--` after it. -/
def postfixExpression (g : Grammar) : Parser NodeId := do
  let start ← currentSpan
  let argument ← leftHandSide g
  match UpdateOperator.ofToken? (← current) with
  | some operator =>
    if ← newlineBefore then return argument
    else
      skip
      finish start (.updateExpression operator false argument)
  | none => return argument

/-- An operand with the operators before it. -/
def unaryOperand (g : Grammar) : Parser NodeId := do
  let start ← currentSpan
  let t ← current
  match UnaryOperator.ofToken? t, UpdateOperator.ofToken? t with
  | some operator, _ =>
    skip
    let argument ← g.unary
    finish start (.unaryExpression operator argument)
  | none, some operator =>
    skip
    let argument ← g.unary
    finish start (.updateExpression operator true argument)
  | none, none =>
    if ← eatKeyword .awaitWord then
      let argument ← g.unary
      finish start (.awaitExpression argument)
    else if t.isPunct .less then fail (.unsupported "angle-bracket type assertion" start)
    else postfixExpression g

def unary (g : Grammar) : Parser NodeId := nested (unaryOperand g)

/-- The node of an operator and its operands. -/
def infixNode (left right : NodeId) : InfixOperator → Node
  | .binary operator => .binaryExpression operator left right
  | .logical operator => .logicalExpression operator left right

/-- One operator of at least a level with its right operand, or a type assertion. -/
def infixTail? (g : Grammar) (least : Precedence) (start : Span) (left : NodeId) :
    Parser (Option NodeId) := do
  if (← checkName "as") && !(← newlineBefore) && least.level ≤ Precedence.relational.level then
    skip
    let type ← g.type
    return some (← finish start (.asExpression left type))
  else
    match InfixOperator.ofToken? (← ask State.allowIn) (← current) with
    | some operator =>
      if operator.precedence.level < least.level then return none
      else
        skip
        let right ← g.binary operator.operandLevel
        return some (← finish start (infixNode left right operator))
    | none => return none

/-- Operands joined by operators of at least a level. -/
def binary (g : Grammar) (least : Precedence) : Parser NodeId := do
  let start ← currentSpan
  let first ← unary g
  loop first fun left => do
    match ← infixTail? g least start left with
    | some e => return .next e
    | none => return .stop left

/-- An expression with a `?` and its two branches. -/
def conditional (g : Grammar) : Parser NodeId := do
  let start ← currentSpan
  let test ← binary g .nullCoalescing
  if ← eat .question then
    let consequent ← withIn true g.assignment
    expect .colon
    let alternate ← g.assignment
    finish start (.conditionalExpression test consequent alternate)
  else return test

/-- Tokens before which a `yield` has no operand. -/
def endsYield : Token → Bool
  | .punct .rightParen | .punct .rightBracket | .punct .rightBrace | .punct .comma
  | .punct .semicolon | .punct .colon | .eof => true
  | _ => false

/-- A `yield` and its operand. -/
def yieldExpression (g : Grammar) : Parser NodeId := do
  let start ← currentSpan
  skip
  let delegate ← eat .star
  let endsHere := (← newlineBefore) || endsYield (← current)
  let argument ← if endsHere && !delegate then pure none else some <$> g.assignment
  finish start (.yieldExpression argument delegate)

/-- Whether an arrow function begins here, as far as the next tokens tell. -/
inductive ArrowGuess where
  | yes
  | maybe
  | no

/-- What follows the parenthesis that closes the one at a place. -/
def guessAfterParen (s : State) (i : Nat) : ArrowGuess :=
  match s.matchingClose i with
  | some close =>
    match s.tokenAt (close + 1) with
    | .punct .arrow => .yes
    | .punct .colon => .maybe
    | _ => .no
  | none => .no

/-- Looks ahead for an arrow function. -/
def arrowGuess (s : State) : ArrowGuess :=
  let startsParams : Token → Bool
    | .identifier _ | .punct .leftParen => true
    | _ => false
  let i := if s.current.isName "async" && !s.newlineBeforeAt (s.pos + 1) && startsParams s.peek
    then s.pos + 1 else s.pos
  match s.tokenAt i with
  | .identifier _ => if (s.tokenAt (i + 1)).isPunct .arrow then .yes else .no
  | .punct .leftParen => guessAfterParen s i
  | .punct .less => .maybe
  | _ => .no

/-- An arrow function. -/
def arrowFunction (g : Grammar) : Parser NodeId := do
  let start ← currentSpan
  let isAsync := (← checkName "async") && !(← peek).isPunct .arrow
  if isAsync then skip
  skipTypeParameters
  let params ← if ← atIdentifier then (fun id => [id]) <$> identifier else formalParameters g
  let returnType ← typeAscription? g
  expect .arrow
  if ← check .leftBrace then
    let body ← block g
    finish start (.arrowFunctionExpression
      { params, body, isAsync, expression := false, returnType })
  else
    let body ← g.assignment
    finish start (.arrowFunctionExpression
      { params, body, isAsync, expression := true, returnType })

/-- An expression that begins with no arrow function: `yield`, or a conditional that may be
assigned to. -/
def plainAssignment (g : Grammar) : Parser NodeId := do
  if ← checkKeyword .yieldWord then yieldExpression g
  else
    let start ← currentSpan
    let left ← conditional g
    match AssignmentOperator.ofToken? (← current) with
    | none => return left
    | some operator =>
      skip
      if operator = .assign then toPattern left
      let right ← g.assignment
      finish start (.assignmentExpression operator left right)

/-- An expression without a comma at its top. -/
def assignment (g : Grammar) : Parser NodeId := nested do
  match ← ask arrowGuess with
  | .yes => arrowFunction g
  | .maybe =>
    match ← attempt (arrowFunction g) with
    | some arrow => return arrow
    | none => plainAssignment g
  | .no => plainAssignment g

end Parse
end ScriptLint
