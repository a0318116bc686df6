import ScriptLint.Parse.Statement

namespace ScriptLint
namespace Parse

open ScriptLint.Parser

/-- A name in a list of imports or exports. -/
def moduleName : Parser NodeId := do
  match ← current with
  | .string _ => stringLiteral
  | _ => propertyIdentifier

/-- Takes tokens up to and including the one at a place. -/
def skipThrough (close : Nat) : Parser Unit :=
  loop () fun _ => do
    if (← ask State.pos) ≤ close then
      skip
      return .next ()
    else return .stop ()

/-- Whether attributes of an import stand here. -/
def atImportAttributes : Parser Bool := ask fun s =>
  (s.current.isName "assert" || s.current.isName "with") && s.peek.isPunct .leftBrace &&
    !s.newlineBefore

/-- Skips the attributes of an import. -/
def skipImportAttributes : Parser Unit := do
  if ← atImportAttributes then
    skip
    match ← ask fun s => s.matchingClose s.pos with
    | some close => skipThrough close
    | none => unexpected [.punct .rightBrace]

/-- Skips the word `type` before what is imported. -/
def skipTypeWord : Parser Unit := do
  if ← checkName "type" then
    match ← peek with
    | .punct .leftBrace | .punct .star => skip
    | .identifier name => if name != "from" then skip
    | _ => pure ()

def importSpecifier : Parser NodeId := do
  if (← checkName "type") && (← peek).sameKind (.identifier "") then skip
  let start ← currentSpan
  let imported ← moduleName
  let localName ← if ← eatName "as" then identifier else pure imported
  finish start (.importSpecifier imported localName)

/-- The default import, with the comma after it. -/
def importDefault : Parser (List NodeId) := do
  if ← atIdentifier then
    let start ← currentSpan
    let localName ← identifier
    let specifier ← finish start (.importDefaultSpecifier localName)
    let _ ← eat .comma
    return [specifier]
  else return []

/-- The import of a namespace or of a list of names. -/
def importNames : Parser (List NodeId) := do
  if ← check .star then
    let start ← currentSpan
    skip
    expectName "as"
    let localName ← identifier
    return [← finish start (.importNamespaceSpecifier localName)]
  else if ← eat .leftBrace then
    let specifiers ← commaSeparated .rightBrace importSpecifier
    expect .rightBrace
    return specifiers
  else return []

/-- What an import names, up to the word `from`. -/
def importClause : Parser (List NodeId) := do
  match ← current with
  | .string _ => return []
  | _ =>
    let default ← importDefault
    let names ← importNames
    expectName "from"
    return default ++ names

def importDeclaration : Parser NodeId := do
  let start ← currentSpan
  expectKeyword .importWord
  skipTypeWord
  let specifiers ← importClause
  let source ← stringLiteral
  skipImportAttributes
  consumeSemicolon
  finish start (.importDeclaration specifiers source)

def exportSpecifier : Parser NodeId := do
  let start ← currentSpan
  let localName ← moduleName
  let exported ← if ← eatName "as" then moduleName else pure localName
  finish start (.exportSpecifier localName exported)

/-- What is exported by default. -/
def defaultDeclaration (g : Grammar) : Parser NodeId := do
  match ← current with
  | .keyword .functionWord => functionDeclaration g
  | .keyword .classWord => classLike g false
  | _ =>
    if ← atAsyncFunction then functionDeclaration g
    else
      let e ← g.assignment
      consumeSemicolon
      return e

/-- The export of everything from a module, after the star. -/
def exportAll (start : Span) : Parser NodeId := do
  let exported ← optionally (eatName "as") moduleName
  expectName "from"
  let source ← stringLiteral
  consumeSemicolon
  finish start (.exportAllDeclaration exported source)

/-- The export of a list of names, after the opening brace. -/
def exportNames (start : Span) : Parser NodeId := do
  let specifiers ← commaSeparated .rightBrace exportSpecifier
  expect .rightBrace
  let source ← optionally (eatName "from") stringLiteral
  consumeSemicolon
  finish start (.exportNamedDeclaration none specifiers source)

def exportDeclaration (g : Grammar) : Parser NodeId := do
  let start ← currentSpan
  expectKeyword .exportWord
  if ← eatKeyword .defaultWord then
    let declaration ← defaultDeclaration g
    finish start (.exportDefaultDeclaration declaration)
  else if ← eat .star then exportAll start
  else
    if (← checkName "type") && (← peek).isPunct .leftBrace then skip
    if ← eat .leftBrace then exportNames start
    else
      let declaration ← g.statement
      finish start (.exportNamedDeclaration (some declaration) [] none)

/-- Whether a token can follow the words `declare` and `abstract`. -/
def isWord : Token → Bool
  | .keyword _ | .identifier _ => true
  | _ => false

/-- A statement that begins with a name. -/
def namedStatement (g : Grammar) (name : String) : Parser NodeId := do
  let sameLine ← nextOnSameLine
  let next ← peek
  if name == "async" && next.isKeyword .functionWord && sameLine then functionDeclaration g
  else if name == "type" && next.sameKind (.identifier "") && sameLine then typeAlias g
  else if name == "interface" && next.sameKind (.identifier "") && sameLine then
    interfaceDeclaration g
  else if (name == "declare" || name == "abstract") && isWord next && sameLine then
    skip
    g.statement
  else if next.isPunct .colon then labeledStatement g
  else expressionStatement g

/-- Whether an import declaration begins here, and not a call of `import`. -/
def startsImport : Token → Bool
  | .punct .leftParen | .punct .dot => false
  | _ => true

/-- A statement. -/
def statement (g : Grammar) : Parser NodeId := nested do
  match ← current with
  | .punct .leftBrace => block g
  | .punct .semicolon => word .emptyStatement
  | .keyword .varWord | .keyword .letWord | .keyword .constWord => variableStatement g
  | .keyword .functionWord => functionDeclaration g
  | .keyword .classWord => classLike g false
  | .keyword .ifWord => ifStatement g
  | .keyword .forWord => forStatement g
  | .keyword .whileWord => whileStatement g
  | .keyword .doWord => doWhileStatement g
  | .keyword .returnWord => returnStatement g
  | .keyword .breakWord => jumpStatement .breakStatement
  | .keyword .continueWord => jumpStatement .continueStatement
  | .keyword .throwWord => throwStatement g
  | .keyword .tryWord => tryStatement g
  | .keyword .switchWord => switchStatement g
  | .keyword .debuggerWord => debuggerStatement
  | .keyword .importWord =>
    if startsImport (← peek) then importDeclaration else expressionStatement g
  | .keyword .exportWord => exportDeclaration g
  | .identifier name => namedStatement g name
  | _ => expressionStatement g

end Parse
end ScriptLint
