import ScriptLint.Parse.Pattern

namespace ScriptLint
namespace Parse

open ScriptLint.Parser

/-- What is left of a mark that begins with `>` when that is taken away. -/
def afterClosingAngle : Token → Option Token
  | .punct .greaterGreater => some (.punct .greater)
  | .punct .greaterGreaterGreater => some (.punct .greaterGreater)
  | .punct .greaterEqual => some (.punct .equal)
  | .punct .greaterGreaterEqual => some (.punct .greaterEqual)
  | .punct .greaterGreaterGreaterEqual => some (.punct .greaterGreaterEqual)
  | _ => none

/-- Takes one `>`, which may be the first character of a longer mark. -/
def closingAngle : Parser Unit := do
  let t ← current
  if t.isPunct .greater then skip
  else match afterClosingAngle t with
    | some rest => splitCurrent rest
    | none => unexpected [.punct .greater]

/-- Skips a list of type parameters, if one stands here. -/
def skipTypeParameters : Parser Unit := do
  if ← eat .less then
    let _ ← loop 1 fun (depth : Nat) => do
      if depth = 0 then return .stop depth
      let t ← current
      if t.isEof then unexpected [.punct .greater]
      else if t.isPunct .less then
        skip
        return .next (depth + 1)
      else if t.isPunct .greater || (afterClosingAngle t).isSome then
        closingAngle
        return .next (depth - 1)
      else
        skip
        return .next depth

/-- The arguments of a generic type in their angle brackets. -/
def typeArguments (g : Grammar) : Parser (List NodeId) := do
  expect .less
  let arguments ← separatedBy .comma g.type
  closingAngle
  return arguments

/-- A name, qualified by dots. -/
def entityName : Parser NodeId := do
  let start ← currentSpan
  let first ← identifier
  loop first fun left => do
    if ← eat .dot then
      let right ← propertyIdentifier
      return .next (← finish start (.qualifiedName left right))
    else return .stop left

/-- A type by its name, with its arguments. -/
def typeReference (g : Grammar) : Parser NodeId := do
  let start ← currentSpan
  let name ← entityName
  let arguments ←
    if (← check .less) && !(← newlineBefore) then typeArguments g else pure []
  finish start (.typeReference name arguments)

/-- A reference to a type whose name is a reserved word. -/
def wordReference (name : String) : Parser NodeId := do
  let span ← currentSpan
  skip
  let typeName ← alloc (.identifier { name }) span
  alloc (.typeReference typeName []) span

/-- A literal used as a type. -/
def literalType (value : LiteralValue) : Parser NodeId := do
  let span ← currentSpan
  let value ← literal value
  alloc (.literalType value) span

/-- A type that is one word. -/
def wordType (word : TypeWord) : Parser NodeId := do
  let span ← currentSpan
  skip
  alloc (.typeWord word) span

/-- Names that are types of their own. -/
def typeWord? : String → Option TypeWord
  | "string" => some .string
  | "number" => some .number
  | "boolean" => some .boolean
  | "any" => some .any
  | "unknown" => some .unknown
  | "never" => some .never
  | "undefined" => some .undefined
  | "object" => some .object
  | "symbol" => some .symbol
  | "bigint" => some .bigInt
  | _ => none

/-- Parameters, an arrow and a type. -/
def functionType (g : Grammar) : Parser NodeId := do
  let start ← currentSpan
  skipTypeParameters
  let params ← formalParameters g
  expect .arrow
  let returnType ← g.type
  finish start (.functionType params returnType)

/-- Whether the parenthesis here opens the parameters of a function type. -/
def atFunctionType : Parser Bool := ask fun s =>
  match s.matchingClose s.pos with
  | some close => (s.tokenAt (close + 1)).isPunct .arrow
  | none => false

/-- Whether the current element of a tuple has a name. -/
def atTupleLabel : Parser Bool := ask fun s =>
  match s.current, s.peek with
  | .identifier _, .punct .colon => true
  | .identifier _, .punct .question => true
  | _, _ => false

/-- Types in brackets. The names of elements are dropped. -/
def tupleType (g : Grammar) : Parser NodeId := do
  let start ← currentSpan
  expect .leftBracket
  let elements ← commaSeparated .rightBracket do
    let _ ← eat .dotDotDot
    if ← atTupleLabel then
      skip
      let _ ← eat .question
      expect .colon
    g.type
  expect .rightBracket
  finish start (.tupleType elements)

/-- Whether an index signature such as `[key: string]` begins here. -/
def atIndexSignature : Parser Bool := ask fun s =>
  match s.current, s.peek, s.tokenAt (s.pos + 2) with
  | .punct .leftBracket, .identifier _, .punct .colon => true
  | _, _, _ => false

/-- Whether `readonly` here is a modifier and not a name. -/
def atReadonlyModifier : Parser Bool := ask fun s =>
  s.current.isName "readonly" &&
    match s.peek with
    | .punct .colon | .punct .question | .punct .leftParen => false
    | _ => true

/-- A member of an object type. -/
def typeMember (g : Grammar) : Parser NodeId := do
  let start ← currentSpan
  let readonly ← atReadonlyModifier
  if readonly then skip
  if ← atIndexSignature then
    skip
    let key ← identifier
    expect .colon
    let _ ← g.type
    expect .rightBracket
    let ascription ← typeAscription g
    finish start (.propertySignature
      { key, computed := true, optional := false, readonly, typeAscription := some ascription })
  else
    let (key, computed) ← propertyKey g
    let optional ← eat .question
    if (← check .leftParen) || (← check .less) then
      skipTypeParameters
      let params ← formalParameters g
      let returnType ← typeAscription? g
      finish start (.methodSignature key params returnType)
    else
      let ascription ← typeAscription? g
      finish start (.propertySignature
        { key, computed, optional, readonly, typeAscription := ascription })

/-- The members of an object type in their braces. -/
def typeMembers (g : Grammar) : Parser (List NodeId) := do
  expect .leftBrace
  let members ← itemsUntil .rightBrace do
    let member ← typeMember g
    if ← eat .semicolon then return member
    if ← eat .comma then return member
    if !(← check .rightBrace) && !(← newlineBefore) then unexpected [.punct .semicolon]
    else return member
  expect .rightBrace
  return members

/-- The negative of a number. -/
def negated (value : Binary64) : Binary64 := ⟨value.bits ^^^ 0x8000000000000000⟩

/-- A negative number used as a type. -/
def negativeLiteralType (value : Binary64) : Parser NodeId := do
  let start ← currentSpan
  skip
  skip
  let span ← ask fun s => s.spanFrom start
  let value ← alloc (.literal (.number (negated value)) (← text span)) span
  alloc (.literalType value) span

/-- A type without operators or brackets after it. -/
def primaryType (g : Grammar) : Parser NodeId := do
  let start ← currentSpan
  match ← current with
  | .identifier name =>
    match typeWord? name, (← peek).isPunct .dot with
    | some word, false => wordType word
    | _, _ =>
      let reference ← typeReference g
      -- in a predicate such as `x is T` the type that is asserted counts
      if (← checkName "is") && !(← newlineBefore) then
        skip
        g.type
      else return reference
  | .keyword .voidWord => wordType .void
  | .keyword .nullWord => wordType .null
  | .keyword .thisWord => wordReference "this"
  | .keyword .constWord => wordReference "const"
  | .keyword .typeofWord =>
    skip
    let name ← entityName
    finish start (.typeQuery name)
  | .keyword .trueWord => literalType (.boolean true)
  | .keyword .falseWord => literalType (.boolean false)
  | .string value => literalType (.string value)
  | .number value => literalType (.number value)
  | .punct .minus =>
    match ← peek with
    | .number value => negativeLiteralType value
    | _ => unexpected []
  | .punct .leftBrace =>
    let members ← typeMembers g
    finish start (.typeLiteral members)
  | .punct .leftBracket => tupleType g
  | .punct .leftParen =>
    if ← atFunctionType then functionType g
    else
      skip
      let inner ← g.type
      expect .rightParen
      return inner
  | .punct .less => functionType g
  | .keyword .newWord =>
    skip
    functionType g
  | _ => unexpected []

/-- A type with the brackets of arrays and indexed access after it. -/
def postfixType (g : Grammar) : Parser NodeId := do
  let start ← currentSpan
  let first ← primaryType g
  loop first fun type => do
    if (← check .leftBracket) && !(← newlineBefore) then
      skip
      if ← eat .rightBracket then return .next (← finish start (.arrayType type))
      else
        let index ← g.type
        expect .rightBracket
        return .next (← finish start (.indexedAccessType type index))
    else return .stop type

/-- Words that are operators on types. -/
def isTypeOperator (name : String) : Bool :=
  name == "keyof" || name == "unique" || name == "readonly"

/-- Whether a type can begin with a token. -/
def startsType : Token → Bool
  | .identifier _ | .string _ | .number _ => true
  | .punct .leftParen | .punct .leftBracket | .punct .leftBrace => true
  | .keyword .typeofWord | .keyword .voidWord | .keyword .nullWord => true
  | .keyword .trueWord | .keyword .falseWord => true
  | _ => false

/-- A type with the operators before it. -/
def typeOperator (g : Grammar) : Parser NodeId := do
  let start ← currentSpan
  match ← current with
  | .identifier name =>
    if isTypeOperator name && startsType (← peek) then
      skip
      let type ← g.typeOperator
      finish start (.typeOperator name type)
    else postfixType g
  | _ => postfixType g

/-- Types with a mark between them. One type alone stands for itself, and one mark may stand
before the first. -/
def joinedTypes (mark : Punct) (operand : Parser NodeId) (join : List NodeId → Node) :
    Parser NodeId := do
  let start ← currentSpan
  let _ ← eat mark
  let types ← separatedBy mark operand
  match types with
  | [type] => return type
  | types => finish start (join types)

def intersectionType (g : Grammar) : Parser NodeId :=
  joinedTypes .amp (typeOperator g) .intersectionType

/-- A whole type. -/
def type (g : Grammar) : Parser NodeId :=
  nested (joinedTypes .pipe (intersectionType g) .unionType)

end Parse
end ScriptLint
