import ScriptLint.Lint.ArrayLoop
import ScriptLint.Lint.Concat
import ScriptLint.Lint.OptionalChain
import ScriptLint.Lint.Rule
import ScriptLint.Source.Path

namespace ScriptLint
namespace Rules

/-- `left ?? right`. -/
def nullishCoalescing (left right : List Char) : List Char := left ++ " ?? ".toList ++ right

/-- `a && b` or `a || b`, which may not stand beside `??` without parentheses. -/
def isAndOr (t : Tree) (id : NodeId) : Bool := t.isLogical .or id || t.isLogical .and id

/-- `a || b` written with `??`, in parentheses where the operators around it ask for them. -/
def nullishReplacement? (d : Document) (id : NodeId) : Option (List Char) :=
  match d.tree.node id with
  | .logicalExpression _ left right => do
    let text ← d.text? left
    let text := if isAndOr d.tree left then '(' :: text ++ [')'] else text
    let replacement := nullishCoalescing text (← d.text? right)
    if ((d.tree.parent id).map (isAndOr d.tree)).getD false then
      return '(' :: replacement ++ [')']
    else return replacement
  | _ => none

/-- The report of a default value written with `||`. -/
def nullishReport (d : Document) (id : NodeId) : Report where
  node := id
  message := "Prefer '??' over '||' for default values"
  fix := (nullishReplacement? d id).bind (d.replace? id)

/-- An empty value as default after `||`. -/
def preferNullishCoalescing : Rule where
  name := "prefer-nullish-coalescing"
  code := "S3001"
  description := "Prefer '??' over '||' for empty-value defaults"
  category := .bestPractice
  severity := .warn
  fixable := true
  listeners := [.logicalExpression]
  check _ d id := if d.tree.isEmptyDefault id then some (nullishReport d id) else none

/-- A guard in front of an access on what it tests. -/
def preferOptionalChain : Rule where
  name := "prefer-optional-chain"
  code := "S3002"
  description := "Prefer optional chaining over '&&' guards"
  category := .bestPractice
  severity := .warn
  fixable := true
  listeners := [.logicalExpression]
  check _ d id :=
    match d.tree.node id with
    | .logicalExpression .and _ right =>
      (d.guardedAccess? id).map fun found =>
        { node := id
          message := "Prefer optional chaining over an '&&' guard"
          fix := (d.withOptionalAccess? right found).bind (d.replace? id) }
    | _ => none
  ends d id :=
    match d.tree.node id with
    | .logicalExpression .and left right => d.tree.chainEnds (d.searchStep? left) right
    | _ => true

/-- `receiver.includes(argument)`, with a `!` if the argument should not be found. -/
def arrayIncludes (receiver argument : List Char) (found : Bool) : List Char :=
  let call := receiver ++ ".includes(".toList ++ argument ++ [')']
  if found then call else '!' :: call

/-- A search for an index of which only its existence counts. -/
def preferArrayIncludes : Rule where
  name := "prefer-array-includes"
  code := "S3003"
  description := "Prefer 'includes()' over 'indexOf()' comparisons"
  category := .bestPractice
  severity := .warn
  fixable := true
  listeners := [.binaryExpression]
  check _ d id :=
    (d.tree.indexComparison? id).map fun comparison =>
      { node := id
        message := "Use 'includes()' to check for membership"
        fix := do
          let receiver ← d.text? comparison.receiver
          let argument ← d.text? comparison.argument
          d.replace? id (arrayIncludes receiver argument comparison.found) }

/-- The loop together with the `return` after it, as a `return` of a call. -/
def arrayLoopFix? (d : Document) (id : NodeId) (loop : ArrayLoop) : Option Fix := do
  let call ← loop.call? d
  let start := (← d.tree.range id).start
  let tail ← d.tree.range loop.trailingReturn
  let semicolon := if (d.slice tail.start tail.stop).getLast? == some ';' then [';'] else []
  d.replaceRange? start tail.stop ("return ".toList ++ call ++ semicolon)

/-- The report of a loop that is a call of `method`. -/
def arrayLoopReport? (method : ArrayMethod) (d : Document) (id : NodeId) : Option Report := do
  let loop ← d.arrayLoop? method id
  let array ← d.text? loop.array
  return {
    node := id
    message := s!"This loop can be replaced by '{String.ofList array}.{method.name}()'"
    fix := arrayLoopFix? d id loop }

/-- A loop that returns false early. -/
def preferArrayEvery : Rule where
  name := "prefer-array-every"
  code := "S3004"
  description := "Prefer 'every()' over a loop that returns false early"
  category := .bestPractice
  severity := .warn
  fixable := true
  listeners := [.forStatement]
  check _ d id := arrayLoopReport? .every d id
  ends d id := d.tree.loopEnds id

/-- A loop that returns true early. -/
def preferArraySome : Rule where
  name := "prefer-array-some"
  code := "S3005"
  description := "Prefer 'some()' over a loop that returns true early"
  category := .bestPractice
  severity := .warn
  fixable := true
  listeners := [.forStatement]
  check _ d id := arrayLoopReport? .some d id
  ends d id := d.tree.loopEnds id

/-- Arrays put together by `.concat(…)`. -/
def preferSpread : Rule where
  name := "prefer-spread"
  code := "S3006"
  description := "Prefer array spread over '.concat()'"
  category := .bestPractice
  severity := .warn
  fixable := true
  listeners := [.callExpression]
  check _ d id :=
    (d.tree.concatChain? id).map fun operands =>
      { node := id
        message := "Use array spread instead of '.concat()'"
        fix := (d.concatParts? operands).bind fun parts => d.replace? id (spreadArray parts) }
  ends d id := d.tree.concatEnds id

/-- `array as const`. -/
def constAssertion (array : List Char) : List Char := array ++ " as const".toList

/-- Files that may hold type assertions. -/
def isTypedFile (path : String) : Bool :=
  ((Path.extension? path).map ["ts", "tsx", "mts", "cts"].contains).getD false

/-- An array of at least two literals and nothing else. -/
def isLiteralTuple (t : Tree) (id : NodeId) : Bool :=
  match t.node id with
  | .arrayExpression elements =>
    2 ≤ elements.length &&
      elements.all fun element => ((element.bind t.literalValue?).isSome)
  | _ => false

/-- A returned array of literals whose element types are widened. -/
def preferConstAssertion : Rule where
  name := "prefer-const-assertion"
  code := "S3007"
  description := "Prefer 'as const' for returned literal arrays"
  category := .bestPractice
  severity := .warn
  fixable := true
  listeners := [.arrayExpression]
  check _ d id :=
    let asserted := ((d.tree.parent id).map d.tree.isAsExpression).getD false
    if isTypedFile d.path && isLiteralTuple d.tree id && d.tree.isReturned id &&
        !d.tree.isConstAsserted id && !asserted then
      some {
        node := id
        message := "Add 'as const' to keep the literal element types"
        fix := (d.text? id).bind fun text => d.replace? id (constAssertion text) }
    else none

end Rules
end ScriptLint
