import ScriptLint.Lint.Document
import ScriptLint.Text.Word

namespace ScriptLint

namespace Tree

/-- From a member access to its object and from a call to its callee. -/
def accessStep? (t : Tree) (id : NodeId) : Option NodeId :=
  match t.node id with
  | .memberExpression member => some member.object
  | .callExpression callee _ _ => some callee
  | _ => none

/-- The chain of accesses and calls that ends in `id`, outermost first. -/
def accessChain (t : Tree) (id : NodeId) : List NodeId := t.chain t.accessStep? id

end Tree

namespace Document

/-- Whether the node is an access on an object that is written like `guard`. -/
def accesses (d : Document) (guard id : NodeId) : Bool :=
  match d.tree.member? id with
  | some member => d.writtenAlike member.object guard
  | none => false

/-- The search for an access goes on until it is found. -/
def searchStep? (d : Document) (guard id : NodeId) : Option NodeId :=
  if d.accesses guard id then none else d.tree.accessStep? id

/-- For `L && R`, the outermost access in `R` on what is written like `L`, unless it is optional
already. -/
def guardedAccess? (d : Document) (id : NodeId) : Option NodeId :=
  match d.tree.node id with
  | .logicalExpression .and left right => do
    let found ← (d.tree.accessChain right).find? (d.accesses left)
    let member ← d.tree.member? found
    if member.optional then none else some found
  | _ => none

/-- The text after an object with its access made optional. -/
def optionalTail? (tail : List Char) : Option (List Char) :=
  let space := tail.takeWhile isSpace
  match tail.dropWhile isSpace with
  | '.' :: rest => some (space ++ '?' :: '.' :: rest)
  | '[' :: rest => some (space ++ '?' :: '.' :: '[' :: rest)
  | _ => none

/-- The text of `right` with the access `found` on its chain made optional, and all else kept. -/
def withOptionalAccess? (d : Document) (right found : NodeId) : Option (List Char) := do
  let whole ← d.tree.range right
  guard ((d.tree.accessChain right).contains found)
  let member ← d.tree.member? found
  let access ← d.tree.range found
  let object ← d.tree.range member.object
  let tail ← optionalTail? (d.slice object.stop access.stop)
  return d.slice whole.start access.start ++ d.slice access.start object.stop ++ tail ++
    d.slice access.stop whole.stop

end Document
end ScriptLint
