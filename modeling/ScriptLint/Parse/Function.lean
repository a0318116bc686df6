import ScriptLint.Parse.TypeExpr

namespace ScriptLint
namespace Parse

open ScriptLint.Parser

/-- Statements in braces. -/
def block (g : Grammar) : Parser NodeId := do
  let start ← currentSpan
  expect .leftBrace
  let body ← itemsUntil .rightBrace g.statement
  expect .rightBrace
  finish start (.blockStatement body)

/-- Parameters and return type of a function. -/
structure Signature where
  params : List NodeId
  returnType : Option NodeId

def signature (g : Grammar) : Parser Signature := do
  skipTypeParameters
  let params ← formalParameters g
  let returnType ← typeAscription? g
  return { params, returnType }

/-- Parameters and body of a method. -/
def methodFunction (g : Grammar) (isAsync generator : Bool) : Parser NodeId := do
  let start ← currentSpan
  let s ← signature g
  let body ← block g
  finish start (.functionExpression
    { id := none, params := s.params, body, isAsync, generator, returnType := s.returnType })

/-- What stands before the body of a function. -/
structure FunctionHead extends Signature where
  id : Option NodeId
  isAsync : Bool
  generator : Bool

/-- The words, name and signature of a function. -/
def functionHead (g : Grammar) : Parser FunctionHead := do
  let isAsync ← eatName "async"
  expectKeyword .functionWord
  let generator ← eat .star
  let id ← optionally atIdentifier identifier
  let s ← signature g
  return { s with id, isAsync, generator }

def FunctionHead.withBody (h : FunctionHead) (body : NodeId) : ScriptLint.Function :=
  { id := h.id, params := h.params, body, isAsync := h.isAsync, generator := h.generator,
    returnType := h.returnType }

/-- A function as an expression. -/
def functionExpression (g : Grammar) : Parser NodeId := do
  let start ← currentSpan
  let head ← functionHead g
  let body ← block g
  finish start (.functionExpression (head.withBody body))

/-- A function as a statement. Without a body it only declares the function. -/
def functionDeclaration (g : Grammar) : Parser NodeId := do
  let start ← currentSpan
  let head ← functionHead g
  if ← check .leftBrace then
    let body ← block g
    finish start (.functionDeclaration (head.withBody body))
  else
    consumeSemicolon
    finish start (.declareFunction
      { id := head.id, params := head.params, returnType := head.returnType,
        isAsync := head.isAsync })

/-- Words that may stand before a member of a class. -/
def memberModifiers : List String :=
  ["static", "public", "private", "protected", "readonly", "abstract", "declare", "override",
   "accessor"]

/-- Whether the next token is on this line and can begin a member. -/
def memberNext : Parser Bool := ask fun s =>
  !s.newlineBeforeAt (s.pos + 1) && (startsPropertyKey s.peek || s.peek.isPunct .star)

/-- Whether the current name is a modifier and not the name of a member. -/
def atMemberModifier : Parser Bool := do
  match ← current with
  | .identifier word => if memberModifiers.contains word then memberNext else return false
  | _ => return false

/-- Words before a member's key: whether it is a getter or setter, asynchronous, a generator. -/
structure MemberHead where
  accessor : Option Bool
  isAsync : Bool
  generator : Bool

/-- Whether an accessor's word stands here: `true` for `get`, `false` for `set`. -/
def accessorWord? : Parser (Option Bool) := do
  if ← propertyKeyNext then
    if ← checkName "get" then return some true
    else if ← checkName "set" then return some false
    else return none
  else return none

/-- The words before the key of a member of an object or class. -/
def memberHead : Parser MemberHead := do
  let accessor ← accessorWord?
  if accessor.isSome then
    skip
    return { accessor, isAsync := false, generator := ← eat .star }
  else if (← checkName "async") && (← memberNext) then
    skip
    return { accessor, isAsync := true, generator := ← eat .star }
  else return { accessor, isAsync := false, generator := ← eat .star }

/-- The kind of a method, by its accessor's word. -/
def methodKind : Option Bool → MethodKind
  | some true => .get
  | some false => .set
  | none => .method

/-- Whether a key is the name of the constructor. -/
def isConstructorKey (key : NodeId) (computed : Bool) : Parser Bool := do
  match ← node key with
  | .identifier ident => return !computed && ident.name == "constructor"
  | _ => return false

/-- A member of a class. -/
def classMember (g : Grammar) : Parser NodeId := do
  let start ← currentSpan
  let isStatic ← loop false fun isStatic => do
    if ← atMemberModifier then
      let isStatic := isStatic || (← checkName "static")
      skip
      return .next isStatic
    else return .stop isStatic
  if (← checkName "static") && (← peek).isPunct .leftBrace then
    fail (.unsupported "class static block" start)
  let head ← memberHead
  let (key, computed) ← propertyKey g
  let optional ← eat .question
  if !optional then
    let _ ← eat .bang
  if (← check .leftParen) || (← check .less) then
    let functionStart ← currentSpan
    let s ← signature g
    if ← check .leftBrace then
      let body ← block g
      let value ← finish functionStart (.functionExpression
        { id := none, params := s.params, body, isAsync := head.isAsync,
          generator := head.generator, returnType := s.returnType })
      let kind := if ← isConstructorKey key computed then .constructor
        else methodKind head.accessor
      finish start (.methodDefinition { key, value, kind, computed, isStatic })
    else
      consumeSemicolon
      finish start (.methodSignature key s.params s.returnType)
  else
    let ascription ← typeAscription? g
    let value ← optionally (eat .equal) (withIn true g.assignment)
    consumeSemicolon
    finish start (.propertyDefinition
      { key, value, computed, isStatic, typeAscription := ascription })

/-- The members of a class in their braces; semicolons between them are dropped. -/
def classBody (g : Grammar) : Parser NodeId := do
  let start ← currentSpan
  expect .leftBrace
  let members ← itemsUntil .rightBrace do
    if ← eat .semicolon then return none
    else return some (← classMember g)
  expect .rightBrace
  finish start (.classBody (members.filterMap (·)))

/-- Whether the name of a class stands here. -/
def atClassName : Parser Bool := ask fun s =>
  match s.current with
  | .identifier name => name != "implements"
  | _ => false

/-- What a class extends. Type arguments are dropped. -/
def superClass (g : Grammar) : Parser NodeId := do
  let parent ← g.leftHandSide
  if ← check .less then
    let _ ← typeArguments g
  return parent

/-- A class, as an expression or a statement. -/
def classLike (g : Grammar) (expression : Bool) : Parser NodeId := do
  let start ← currentSpan
  expectKeyword .classWord
  let id ← optionally atClassName identifier
  skipTypeParameters
  let parent ← optionally (eatKeyword .extendsWord) (superClass g)
  if ← eatName "implements" then
    let _ ← separatedBy .comma g.type
  let body ← classBody g
  let c : Class := { id, superClass := parent, body }
  finish start (if expression then .classExpression c else .classDeclaration c)

end Parse
end ScriptLint
