import ScriptLint.Parse.Expression

namespace ScriptLint
namespace Parse

open ScriptLint.Parser

/-- An expression in parentheses that belong to a statement. -/
def parenExpression (g : Grammar) : Parser NodeId := do
  expect .leftParen
  let e ← withIn true (expression g)
  expect .rightParen
  return e

/-- An expression as a statement. -/
def expressionStatement (g : Grammar) : Parser NodeId := do
  let start ← currentSpan
  let e ← expression g
  consumeSemicolon
  finish start (.expressionStatement e)

/-- One variable of a declaration and its value. -/
def variableDeclarator (g : Grammar) : Parser NodeId := do
  let start ← currentSpan
  let id ← annotatedBinding g
  let init ← optionally (eat .equal) g.assignment
  finish start (.variableDeclarator id init)

/-- The variables of a declaration after its first word. -/
def variableDeclarations (g : Grammar) : Parser (VariableKind × List NodeId) := do
  let kind : VariableKind := match ← advance with
    | .keyword .varWord => .varKind
    | .keyword .letWord => .letKind
    | _ => .constKind
  return (kind, ← separatedBy .comma (variableDeclarator g))

/-- A declaration of variables as a statement. -/
def variableStatement (g : Grammar) : Parser NodeId := do
  let start ← currentSpan
  let (kind, declarations) ← variableDeclarations g
  consumeSemicolon
  finish start (.variableDeclaration kind declarations)

/-- A declaration of variables in the head of a `for`. -/
def variableHead (g : Grammar) : Parser NodeId := do
  let start ← currentSpan
  let (kind, declarations) ← variableDeclarations g
  finish start (.variableDeclaration kind declarations)

def ifStatement (g : Grammar) : Parser NodeId := do
  let start ← currentSpan
  expectKeyword .ifWord
  let test ← parenExpression g
  let consequent ← g.statement
  let alternate ← optionally (eatKeyword .elseWord) g.statement
  finish start (.ifStatement test consequent alternate)

/-- What stands first in the head of a `for`. -/
def forInit (g : Grammar) : Parser (Option NodeId) := do
  match ← current with
  | .punct .semicolon => return none
  | .keyword .varWord | .keyword .letWord | .keyword .constWord =>
    some <$> withIn false (variableHead g)
  | _ => some <$> withIn false (expression g)

/-- The rest of a loop over the elements or keys of a value, after `of` or `in`. -/
def forEach (g : Grammar) (start : Span) (isAwait isOf : Bool) (left : NodeId) :
    Parser NodeId := do
  skip
  toPattern left
  let right ← withIn true (if isOf then g.assignment else expression g)
  expect .rightParen
  let body ← g.statement
  finish start (if isOf then .forOfStatement left right body isAwait
    else .forInStatement left right body)

/-- The rest of a loop with a test and an update, from its first semicolon. -/
def forTestUpdate (g : Grammar) (start : Span) (init : Option NodeId) : Parser NodeId := do
  expect .semicolon
  let test ← if ← check .semicolon then pure none else some <$> withIn true (expression g)
  expect .semicolon
  let update ← if ← check .rightParen then pure none else some <$> withIn true (expression g)
  expect .rightParen
  let body ← g.statement
  finish start (.forStatement init test update body)

def forStatement (g : Grammar) : Parser NodeId := do
  let start ← currentSpan
  expectKeyword .forWord
  let isAwait ← eatKeyword .awaitWord
  expect .leftParen
  let init ← forInit g
  let isOf ← checkName "of"
  let isIn ← checkKeyword .inWord
  match init with
  | some left =>
    if isOf || isIn then forEach g start isAwait isOf left else forTestUpdate g start init
  | none => forTestUpdate g start init

def whileStatement (g : Grammar) : Parser NodeId := do
  let start ← currentSpan
  expectKeyword .whileWord
  let test ← parenExpression g
  let body ← g.statement
  finish start (.whileStatement test body)

def doWhileStatement (g : Grammar) : Parser NodeId := do
  let start ← currentSpan
  expectKeyword .doWord
  let body ← g.statement
  expectKeyword .whileWord
  let test ← parenExpression g
  let _ ← eat .semicolon
  finish start (.doWhileStatement body test)

/-- Whether a statement ends here. -/
def atStatementEnd : Parser Bool := ask fun s =>
  s.current.isPunct .semicolon || s.current.isPunct .rightBrace || s.atEof || s.newlineBefore

def returnStatement (g : Grammar) : Parser NodeId := do
  let start ← currentSpan
  expectKeyword .returnWord
  let argument ← if ← atStatementEnd then pure none else some <$> expression g
  consumeSemicolon
  finish start (.returnStatement argument)

/-- A `break` or `continue`, whose node `make` is. -/
def jumpStatement (make : Option NodeId → Node) : Parser NodeId := do
  let start ← currentSpan
  skip
  let label ← if (← atIdentifier) && !(← newlineBefore) then some <$> identifier else pure none
  consumeSemicolon
  finish start (make label)

def throwStatement (g : Grammar) : Parser NodeId := do
  let start ← currentSpan
  expectKeyword .throwWord
  let argument ← expression g
  consumeSemicolon
  finish start (.throwStatement argument)

/-- What a `catch` binds, in its parentheses. -/
def catchParameter (g : Grammar) : Parser NodeId := do
  let param ← annotatedBinding g
  expect .rightParen
  return param

def catchClause (g : Grammar) : Parser NodeId := do
  let start ← currentSpan
  skip
  let param ← optionally (eat .leftParen) (catchParameter g)
  let body ← block g
  finish start (.catchClause param body)

def tryStatement (g : Grammar) : Parser NodeId := do
  let start ← currentSpan
  expectKeyword .tryWord
  let body ← block g
  let handler ← optionally (checkKeyword .catchWord) (catchClause g)
  let finalizer ← optionally (eatKeyword .finallyWord) (block g)
  if handler.isNone && finalizer.isNone then
    fail ⟨.invalidSyntax "try statement needs a catch or finally clause", ← currentSpan, none⟩
  else finish start (.tryStatement body handler finalizer)

/-- Whether the statements of a `case` end here. -/
def atCaseEnd : Parser Bool := ask fun s =>
  s.current.isKeyword .caseWord || s.current.isKeyword .defaultWord ||
    s.current.isPunct .rightBrace || s.atEof

def switchCase (g : Grammar) : Parser NodeId := do
  let start ← currentSpan
  let test ← if ← eatKeyword .caseWord then some <$> expression g
    else do
      expectKeyword .defaultWord
      pure none
  expect .colon
  let consequent ← loop [] fun statements => do
    if ← atCaseEnd then return .stop statements
    else return .next ((← g.statement) :: statements)
  finish start (.switchCase test consequent.reverse)

def switchStatement (g : Grammar) : Parser NodeId := do
  let start ← currentSpan
  expectKeyword .switchWord
  let discriminant ← parenExpression g
  expect .leftBrace
  let cases ← itemsUntil .rightBrace (switchCase g)
  expect .rightBrace
  finish start (.switchStatement discriminant cases)

def labeledStatement (g : Grammar) : Parser NodeId := do
  let start ← currentSpan
  let label ← identifier
  expect .colon
  let body ← g.statement
  finish start (.labeledStatement label body)

def debuggerStatement : Parser NodeId := do
  let start ← currentSpan
  skip
  consumeSemicolon
  finish start .debuggerStatement

/-- A name for a type. -/
def typeAlias (g : Grammar) : Parser NodeId := do
  let start ← currentSpan
  expectName "type"
  let id ← identifier
  skipTypeParameters
  expect .equal
  let type ← g.type
  consumeSemicolon
  finish start (.typeAliasDeclaration id type)

def interfaceDeclaration (g : Grammar) : Parser NodeId := do
  let start ← currentSpan
  expectName "interface"
  let id ← identifier
  skipTypeParameters
  let parents ← if ← eatKeyword .extendsWord then separatedBy .comma g.type else pure []
  let body ← typeMembers g
  finish start (.interfaceDeclaration id parents body)

end Parse
end ScriptLint
