import ScriptLint.Lint.Condition
import ScriptLint.Lint.Document
import ScriptLint.Lint.Predicate
import ScriptLint.Lint.Rendering
import ScriptLint.Token.Lexeme

namespace ScriptLint

/-- The method that a loop amounts to. -/
inductive ArrayMethod where
  | every
  | some
  deriving DecidableEq

namespace ArrayMethod

def name : ArrayMethod → String
  | .every => "every"
  | .some => "some"

/-- What the guards return from inside the loop; after it the loop returns the opposite. -/
def guardValue : ArrayMethod → Bool
  | .every => false
  | .some => true

end ArrayMethod

/-- A loop that is a call of an array method. -/
structure ArrayLoop where
  method : ArrayMethod
  /-- The array, `X` in `i < X.length`. -/
  array : NodeId
  counter : String
  guards : List (Guard NodeId)
  /-- The accesses `X[i]` in the tests. -/
  accesses : List NodeId
  /-- The `return` right after the loop. -/
  trailingReturn : NodeId
  /-- The name of the callback's parameter. -/
  param : String

/-- The singular of an English plural: `users`, `categories` and `boxes` give `user`, `category`
and `box`. -/
def singularize? (word : List Char) : Option (List Char) :=
  match word.reverse with
  | 's' :: 'e' :: 'i' :: c :: stem => some ('y' :: c :: stem).reverse
  | 's' :: 'e' :: 's' :: 's' :: _ :: _ | 's' :: 'e' :: 'x' :: _ :: _ | 's' :: 'e' :: 'z' :: _ :: _
  | 's' :: 'e' :: 'h' :: 'c' :: _ :: _ | 's' :: 'e' :: 'h' :: 's' :: _ :: _ =>
    some (word.dropLast.dropLast)
  | 's' :: 's' :: _ => none
  | 's' :: _ :: _ => some word.dropLast
  | _ => none

/-- Words that cannot name a parameter. -/
def reservedWords : List String :=
  ["break", "case", "catch", "class", "const", "continue", "debugger", "default", "delete",
   "do", "else", "enum", "export", "extends", "false", "finally", "for", "function", "if",
   "import", "in", "instanceof", "new", "null", "return", "super", "switch", "this", "throw",
   "true", "try", "typeof", "var", "void", "while", "with", "yield", "let", "static", "await"]

/-- A name of ASCII letters, digits, `_` and `$` that does not begin with a digit. -/
def isPlainName (name : String) : Bool :=
  match name.toList with
  | [] => false
  | c :: rest => Lexeme.isNameStart c && rest.all Lexeme.isNamePart

/-- Whether a parameter may have this name: none of the names in use is. -/
def isFreeName (used : List String) (name : String) : Bool :=
  isPlainName name && !reservedWords.contains name && !used.contains name

namespace Tree

/-- The counter of `let i = 0`. -/
def loopCounter? (t : Tree) (init : NodeId) : Option String :=
  match t.node init with
  | .variableDeclaration _ [declarator] =>
    match t.node declarator with
    | .variableDeclarator id (some value) =>
      if t.isNumber value 0 then t.identifierName? id else none
    | _ => none
  | _ => none

/-- What stands before `.length` in `i < X.length`. -/
def lengthOf? (t : Tree) (test : NodeId) (counter : String) : Option NodeId :=
  match t.node test with
  | .binaryExpression .less left right => do
    guard (t.identifierName? left == some counter)
    let member ← t.member? right
    guard (!member.optional && t.staticName? member == some "length")
    return member.object
  | _ => none

/-- The array of `i < X.length`. -/
def lengthBound? (t : Tree) (test : NodeId) (counter : String) : Option NodeId :=
  (t.lengthOf? test counter).filter t.isStaticPath

/-- Whether it comes to an end to look for the array of a loop. -/
def loopEnds (t : Tree) (id : NodeId) : Bool :=
  match t.node id with
  | .forStatement (some init) (some test) _ _ =>
    match (t.loopCounter? init).bind (t.lengthOf? test) with
    | some array => t.chainEnds t.pathStep? array
    | none => true
  | _ => true

/-- `i++`, `++i` or `i += 1`. -/
def isIncrement (t : Tree) (update : NodeId) (counter : String) : Bool :=
  match t.node update with
  | .updateExpression .increment _ argument => t.identifierName? argument == some counter
  | .assignmentExpression .add left right =>
    t.identifierName? left == some counter && t.isNumber right 1
  | _ => false

/-- A statement that is no block, or the only statement of a block. -/
def singleStatement? (t : Tree) (id : NodeId) : Option NodeId :=
  match t.block? id with
  | some [only] => some only
  | some _ => none
  | none => some id

/-- What a statement in a guard does, if it is `continue` or returns `value`. -/
def guardKind? (t : Tree) (value : Bool) (id : NodeId) : Option GuardKind :=
  match t.node id with
  | .continueStatement none => some .continue
  | .returnStatement (some argument) =>
    if t.booleanValue? argument == some value then some .return else none
  | _ => none

/-- An `if` without `else` as a guard. -/
def guard? (t : Tree) (value : Bool) (id : NodeId) : Option (Guard NodeId) :=
  match t.node id with
  | .ifStatement test consequent none => do
    let kind ← t.guardKind? value (← t.singleStatement? consequent)
    return { test, kind }
  | _ => none

/-- The body of a loop as a list of guards. -/
def loopGuards? (t : Tree) (value : Bool) (body : NodeId) : Option (List (Guard NodeId)) :=
  match (t.block? body).getD [body] with
  | [] => none
  | statements => statements.mapM (t.guard? value)

/-- The statement after `id` in the list of statements that holds it. -/
def nextStatement? (t : Tree) (id : NodeId) : Option NodeId := do
  let siblings ← match t.node (← t.parent id) with
    | .program body | .blockStatement body | .switchCase _ body => some body
    | _ => none
  let place ← siblings.findIdx? (· == id)
  siblings[place + 1]?

/-- The name at the end of a static path. -/
def lastName? (t : Tree) (id : NodeId) : Option String :=
  match t.node id with
  | .identifier ident => some ident.name
  | .memberExpression member => t.staticName? member
  | _ => none

/-- The callback's parameter: the singular of the array's name, else one of a few general names, in
each case only if it is not in use, else a name made from the counter. -/
def parameterName (t : Tree) (array : NodeId) (counter : String) (used : List String) : String :=
  let free := isFreeName (counter :: used)
  let singular := ((t.lastName? array).bind (singularize? ·.toList)).map String.ofList
  ((singular.filter free).or (["item", "element", "entry"].find? free)).getD (counter ++ "Item")

/-- Whether a test waits for something outside the loop. -/
def suspends (t : Tree) (id : NodeId) : Bool :=
  match t.node id with
  | .awaitExpression _ | .yieldExpression .. => true
  | _ => false

end Tree

namespace Document

/-- For a use of the counter, the access `X[i]` that it is the index of. -/
def elementAccess? (d : Document) (array use : NodeId) : Option NodeId := do
  let parent ← d.tree.parent use
  let member ← d.tree.member? parent
  if member.computed && member.property == use && d.writtenAlike member.object array then parent
  else none

/-- The loop as a call of an array method. Its tests use the counter only to read elements. -/
def arrayLoop? (d : Document) (method : ArrayMethod) (id : NodeId) : Option ArrayLoop :=
  match d.tree.node id with
  | .forStatement (some init) (some test) (some update) body => do
    let counter ← d.tree.loopCounter? init
    let array ← d.tree.lengthBound? test counter
    guard (d.tree.isIncrement update counter)
    let guards ← d.tree.loopGuards? method.guardValue body
    guard (guards.any (·.kind == .return))
    let inside := guards.flatMap fun g => d.tree.descendants g.test
    guard (!inside.any d.tree.suspends)
    let uses := inside.filter fun node => d.tree.identifierName? node == some counter
    let accesses ← uses.mapM (d.elementAccess? array)
    let used := (inside.filterMap d.tree.identifierName?).filter (· != counter)
    let trailingReturn ← d.tree.nextStatement? id
    match d.tree.node trailingReturn with
    | .returnStatement (some value) =>
      guard (d.tree.booleanValue? value == some (!method.guardValue))
      let param := d.tree.parameterName array counter used
      return { method, array, counter, guards, accesses, trailingReturn, param }
    | _ => none
  | _ => none

end Document

namespace Rendering

/-- The text of a condition on tests. -/
def conditionOf? (r : Rendering) : Condition NodeId → Option Rendered
  | .test a => r.condition? a
  | .orElse a rest => do
    let rest ← r.conditionOf? rest
    return (← r.condition? a).or rest
  | .unless a rest => do
    let rest ← r.conditionOf? rest
    return (← r.negated? a).and rest

end Rendering

namespace ArrayLoop

/-- The accesses `X[i]` of a loop, to be exchanged for the parameter. -/
def substitutions? (l : ArrayLoop) (t : Tree) : Option (List Substitution) :=
  l.accesses.mapM fun access =>
    (t.range access).map fun range => ⟨range.start, range.stop, l.param.toList⟩

/-- The callback's body: whether an element makes the loop return, or for `every` does not. -/
def body (method : ArrayMethod) (condition : Rendered) : List Char :=
  match method with
  | .every => '!' :: '(' :: condition.text ++ [')']
  | .some => condition.atLeast .or

/-- The call of the array method, `X.some(item => …)`. -/
def call? (l : ArrayLoop) (d : Document) : Option (List Char) := do
  let rendering := Rendering.ofSubstitutions d (← l.substitutions? d.tree)
  let condition ← rendering.conditionOf? (← Condition.ofGuards? l.guards)
  let array ← d.text? l.array
  return array ++ '.' :: l.method.name.toList ++ '(' :: l.param.toList ++ " => ".toList ++
    body l.method condition ++ [')']

end ArrayLoop
end ScriptLint
