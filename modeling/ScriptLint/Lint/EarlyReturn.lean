import ScriptLint.Lint.Binding
import ScriptLint.Lint.Predicate
import ScriptLint.Lint.Rendering

namespace ScriptLint

/-- Which branch of an `if` is moved out. -/
inductive Branch where
  | consequent
  | alternate
  deriving DecidableEq

namespace Tree

/-- The body of a function, if it is a block. -/
def bodyBlock? (t : Tree) (id : NodeId) : Option (List NodeId) :=
  match t.node id with
  | .functionDeclaration f | .functionExpression f => t.block? f.body
  | .arrowFunctionExpression f => t.block? f.body
  | _ => none

/-- Whether a block has an `if` among its own statements. -/
def directlyContainsIf (t : Tree) (id : NodeId) : Bool := ((t.block? id).getD []).any t.isIf

/-- The branch of an `if` that holds another one. -/
def nestedBranch? (t : Tree) (id : NodeId) : Option Branch :=
  match t.node id with
  | .ifStatement _ consequent none =>
    if t.directlyContainsIf consequent then some .consequent else none
  | .ifStatement _ consequent (some alternate) =>
    if t.isBlock consequent && t.directlyContainsIf alternate then some .alternate else none
  | _ => none

/-- The `if` at the end of a function and its branch with another `if`. Only the first `if` among
the statements of the function counts, and it must be the last of them and no guard yet. -/
def nestedIf? (t : Tree) (function : NodeId) : Option (NodeId × Branch) := do
  let body ← t.bodyBlock? function
  let found ← body.find? t.isIf
  guard (!t.isGuardClause found && body.getLast? == some found)
  return (found, ← t.nestedBranch? found)

/-- The statements of a branch of an `if` whose first branch is a block. -/
def branchBlock? (t : Tree) (id : NodeId) (branch : Branch) : Option (List NodeId) :=
  match t.node id with
  | .ifStatement _ consequent alternate => do
    let first ← t.block? consequent
    match branch with
    | .consequent => some first
    | .alternate => alternate.bind t.block?
  | _ => none

/-- Whether it comes to an end to ask which names a branch binds, and those around it. An `if`
without a range is not asked. -/
def earlyReturnEnds (t : Tree) (id : NodeId) (branch : Branch) : Bool :=
  match t.range id, t.branchBlock? id branch with
  | some _, some moved => (t.rebindingPatterns id moved).all (t.ends t.patternParts)
  | _, _ => true

/-- Statements that may end in a semicolon. -/
def takesSemicolon (t : Tree) (id : NodeId) : Bool :=
  match t.node id with
  | .expressionStatement _ | .returnStatement _ | .variableDeclaration .. | .throwStatement _
  | .breakStatement _ | .continueStatement _ => true
  | _ => false

end Tree

namespace Document

/-- Whether some statement in a node is written with a semicolon. -/
def usesSemicolons (d : Document) (id : NodeId) : Bool :=
  (d.tree.descendants id).any fun node =>
    d.tree.takesSemicolon node && (d.text node).getLast? == some ';'

/-- One level of indentation: what the first statement of a block has more than `indent`, else a
tab or two blanks. -/
def indentUnit (d : Document) (block : List NodeId) (indent : List Char) : List Char :=
  let other := if indent.contains '\t' then ['\t'] else [' ', ' ']
  match block.head?.bind d.tree.range with
  | some range =>
    match List.isPrefixOf? indent (lineIndent d.source range.start) with
    | some (c :: unit) => c :: unit
    | _ => other
  | none => other

/-- A line that is indented by `indent` and `unit`, without the `unit`. -/
def dedentLine (indent unit line : List Char) : List Char :=
  match List.isPrefixOf? (indent ++ unit) line with
  | some rest => indent ++ rest
  | none => line

/-- The statements of a block as they are written, every line but the first moved out by one
level. -/
def dedentedBody (d : Document) (block : List NodeId) (indent unit : List Char) : List Char :=
  match block.head?.bind d.tree.range, block.getLast?.bind d.tree.range with
  | some first, some last =>
    match pieces '\n' (d.slice first.start last.stop) with
    | [] => []
    | line :: lines => ['\n'].intercalate (line :: lines.map (dedentLine indent unit))
  | _, _ => []

/-- A guard followed by the statements that it guards. -/
def joinGuard (head indent unit semicolon body : List Char) : List Char :=
  let guard := head ++ '\n' :: indent ++ unit ++ "return".toList ++ semicolon ++
    '\n' :: indent ++ ['}']
  if body.isEmpty then guard else guard ++ '\n' :: indent ++ body

/-- The opening of the guard that takes the place of an `else`: test and statements of the first
branch, up to the last of them. -/
def alternateHead? (d : Document) (test consequent : NodeId) (body : List NodeId) :
    Option (List Char) := do
  let text ← d.text? test
  let open' ← match body.getLast? with
    | some last => do
      let stop := (← d.tree.range last).stop
      let start := (← d.tree.range consequent).start
      pure (d.slice start stop)
    | none => pure ['{']
  return "if (".toList ++ text ++ ')' :: ' ' :: open'

/-- The `if` as a guard clause and the statements of one branch after it. There is none if a name
that the branch binds is bound around the `if` as well. -/
def earlyReturn? (d : Document) (id : NodeId) (branch : Branch) : Option (List Char) :=
  match d.tree.node id with
  | .ifStatement test consequent _ => do
    let range ← d.tree.range id
    let indent := lineIndent d.source range.start
    let semicolon := if d.usesSemicolons id then [';'] else []
    let first ← d.tree.block? consequent
    let moved ← d.tree.branchBlock? id branch
    guard (!d.tree.rebinds id moved)
    let unit := d.indentUnit moved indent
    let head ← match branch with
      | .consequent => do
        let negation ← Rendering.negate? { document := d } test
        pure ("if (".toList ++ negation ++ [')', ' ', '{'])
      | .alternate => d.alternateHead? test consequent first
    return joinGuard head indent unit semicolon (d.dedentedBody moved indent unit)
  | _ => none

end Document
end ScriptLint
