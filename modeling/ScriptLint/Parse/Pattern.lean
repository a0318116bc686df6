import ScriptLint.Parse.Name

namespace ScriptLint
namespace Parse

open ScriptLint.Parser

/-- Words that may stand before a parameter of a constructor. -/
def parameterModifiers : List String := ["public", "private", "protected", "readonly", "override"]

/-- Whether a modifier stands here, and not a parameter of its name. -/
def atParameterModifier : Parser Bool := ask fun s =>
  match s.current, s.peek with
  | .identifier word, .identifier _ => parameterModifiers.contains word
  | .identifier word, .punct .leftBrace => parameterModifiers.contains word
  | .identifier word, .punct .leftBracket => parameterModifiers.contains word
  | _, _ => false

/-- Gives a binding its annotation. -/
def annotated (optional : Bool) (ascription : Option NodeId) : Node → Node
  | .identifier ident => .identifier { ident with optional, typeAscription := ascription }
  | .arrayPattern elements _ => .arrayPattern elements ascription
  | .objectPattern properties _ => .objectPattern properties ascription
  | node => node

/-- The marks `?` and `!` and the annotation after a binding; its range grows over them. -/
def annotate (g : Grammar) (target : NodeId) : Parser Unit := do
  let optional ← eat .question
  let definite ← eat .bang
  let ascription ← typeAscription? g
  if optional || definite || ascription.isSome then
    setNode target (annotated optional ascription (← node target))
    extendRange target

/-- A binding and its annotation. -/
def annotatedBinding (g : Grammar) : Parser NodeId := do
  let target ← g.bindingTarget
  annotate g target
  return target

/-- The rest of a list: three dots and a binding. -/
def restElement (g : Grammar) (mayAnnotate : Bool) : Parser NodeId := do
  let start ← currentSpan
  expect .dotDotDot
  let argument ← g.bindingTarget
  let ascription ← if mayAnnotate then typeAscription? g else pure none
  finish start (.restElement argument ascription)

/-- A default value after a binding, if there is one. -/
def withDefault (g : Grammar) (start : Span) (target : NodeId) : Parser NodeId := do
  if ← eat .equal then
    let right ← withIn true g.assignment
    finish start (.assignmentPattern target right)
  else return target

/-- A binding with its default value. -/
def bindingElement (g : Grammar) (mayAnnotate : Bool) : Parser NodeId := do
  let start ← currentSpan
  let target ← if mayAnnotate then annotatedBinding g else g.bindingTarget
  withDefault g start target

/-- One parameter of a function. -/
def parameter (g : Grammar) : Parser NodeId := do
  loop () fun _ => do
    if ← atParameterModifier then
      skip
      return .next ()
    else return .stop ()
  if ← check .dotDotDot then restElement g true
  else if ← checkKeyword .thisWord then
    let span ← currentSpan
    skip
    let id ← alloc (.identifier { name := "this" }) span
    annotate g id
    return id
  else bindingElement g true

/-- The parameters of a function in their parentheses. -/
def formalParameters (g : Grammar) : Parser (List NodeId) := do
  expect .leftParen
  withIn true do
    let params ← commaSeparated .rightParen (parameter g)
    expect .rightParen
    return params

/-- The elements of an array, with holes where only a comma stands. -/
def elementsWithHoles (element : Parser NodeId) : Parser (List (Option NodeId)) :=
  itemsUntil .rightBracket do
    if ← eat .comma then return none
    let value ← element
    if !(← check .rightBracket) then expect .comma
    return some value

/-- A pattern in brackets. -/
def arrayPattern (g : Grammar) : Parser NodeId := do
  let start ← currentSpan
  expect .leftBracket
  let elements ← elementsWithHoles do
    if ← check .dotDotDot then restElement g false else bindingElement g false
  expect .rightBracket
  finish start (.arrayPattern elements none)

/-- Whether a node is a name. -/
def isIdentifier (id : NodeId) : Parser Bool := do
  match ← node id with
  | .identifier _ => return true
  | _ => return false

/-- A member of an object pattern. -/
def patternProperty (g : Grammar) : Parser NodeId := do
  let start ← currentSpan
  let (key, computed) ← propertyKey g
  if ← eat .colon then
    let value ← bindingElement g false
    finish start (.property
      { key, value, kind := .init, computed, shorthand := false, method := false })
  else if !computed && (← isIdentifier key) then
    let value ← withDefault g start key
    finish start (.property
      { key, value, kind := .init, computed, shorthand := true, method := false })
  else unexpected [.punct .colon]

/-- A pattern in braces. -/
def objectPattern (g : Grammar) : Parser NodeId := do
  let start ← currentSpan
  expect .leftBrace
  let properties ← commaSeparated .rightBrace do
    if ← check .dotDotDot then restElement g false else patternProperty g
  expect .rightBrace
  finish start (.objectPattern properties none)

/-- A name, array pattern or object pattern, without annotation. -/
def bindingTarget (g : Grammar) : Parser NodeId := do
  match ← current with
  | .punct .leftBracket => arrayPattern g
  | .punct .leftBrace => objectPattern g
  | _ => identifier

end Parse

namespace Tree

/-- Turns an expression into the target of an assignment, where it is one: array and object
literals become patterns, spreads become rest elements, and assignments default values. The
fuel bounds how deep the expression is. -/
def toPattern : Nat → Tree → NodeId → Tree
  | 0, t, _ => t
  | fuel + 1, t, id =>
    match t.node id with
    | .arrayExpression elements =>
      ((elements.filterMap (·)).foldl (toPattern fuel) t).setNode id (.arrayPattern elements none)
    | .objectExpression properties =>
      (properties.foldl (toPattern fuel) t).setNode id (.objectPattern properties none)
    | .property p => if p.method then t else toPattern fuel t p.value
    | .spreadElement argument =>
      (toPattern fuel t argument).setNode id (.restElement argument none)
    | .assignmentExpression .assign left right =>
      (toPattern fuel t left).setNode id (.assignmentPattern left right)
    | _ => t

end Tree

namespace Parse

/-- Turns an expression into the target of an assignment. No expression is nested deeper than the
tree has nodes. -/
def toPattern (id : NodeId) : Parser Unit := Parser.update fun s =>
  { s with tree := s.tree.toPattern s.tree.size id }

end Parse
end ScriptLint
