import ScriptLint.Parse.Grammar

namespace ScriptLint
namespace Parse

open ScriptLint.Parser

/-- A name that is read or bound. -/
def identifier : Parser NodeId := do
  let span ← currentSpan
  match ← current with
  | .identifier name =>
    skip
    alloc (.identifier { name }) span
  | _ => unexpected [.identifier ""]

/-- Whether the current token is a name. -/
def atIdentifier : Parser Bool := ask fun s =>
  match s.current with
  | .identifier _ => true
  | _ => false

/-- A name after a dot, where reserved words are names too. -/
def propertyIdentifier : Parser NodeId := do
  let span ← currentSpan
  match ← current with
  | .identifier name =>
    skip
    alloc (.identifier { name }) span
  | .keyword word =>
    skip
    alloc (.identifier { name := word.spelling }) span
  | _ => unexpected [.identifier ""]

/-- Takes the current token as a literal of a value. -/
def literal (value : LiteralValue) : Parser NodeId := do
  let span ← currentSpan
  skip
  alloc (.literal value (← text span)) span

/-- A string literal. -/
def stringLiteral : Parser NodeId := do
  match ← current with
  | .string value => literal (.string value)
  | _ => unexpected [.string ""]

/-- The key of a member, and whether it is computed. -/
def propertyKey (g : Grammar) : Parser (NodeId × Bool) := do
  match ← current with
  | .punct .leftBracket =>
    skip
    let key ← withIn true g.assignment
    expect .rightBracket
    return (key, true)
  | .string value => return (← literal (.string value), false)
  | .number value => return (← literal (.number value), false)
  | _ => return (← propertyIdentifier, false)

/-- Whether a property key can begin with a token. -/
def startsPropertyKey : Token → Bool
  | .identifier _ | .keyword _ | .string _ | .number _ | .punct .leftBracket => true
  | _ => false

/-- Whether the token after the current one can begin a property key. -/
def propertyKeyNext : Parser Bool := ask fun s => startsPropertyKey s.peek

/-- A colon and a type. -/
def typeAscription (g : Grammar) : Parser NodeId := do
  let start ← currentSpan
  expect .colon
  let type ← g.type
  finish start (.typeAscription type)

/-- A type annotation if a colon stands here. -/
def typeAscription? (g : Grammar) : Parser (Option NodeId) :=
  optionally (check .colon) (typeAscription g)

end Parse
end ScriptLint
