import ScriptLint.Tree.Walk

namespace ScriptLint
namespace Tree

/-- The name, if the node is an identifier. -/
def identifierName? (t : Tree) (id : NodeId) : Option String :=
  match t.node id with
  | .identifier ident => some ident.name
  | _ => none

def literalValue? (t : Tree) (id : NodeId) : Option LiteralValue :=
  match t.node id with
  | .literal value _ => some value
  | _ => none

def stringValue? (t : Tree) (id : NodeId) : Option String :=
  match t.literalValue? id with
  | some (.string value) => some value
  | _ => none

def booleanValue? (t : Tree) (id : NodeId) : Option Bool :=
  match t.literalValue? id with
  | some (.boolean value) => some value
  | _ => none

def numberValue? (t : Tree) (id : NodeId) : Option Binary64 :=
  match t.literalValue? id with
  | some (.number value) => some value
  | _ => none

/-- Whether the node is a number literal that compares equal to `n`. -/
def isNumber (t : Tree) (id : NodeId) (n : Nat) : Bool :=
  ((t.numberValue? id).map (·.eqv (.ofNat n))).getD false

def member? (t : Tree) (id : NodeId) : Option Member :=
  match t.node id with
  | .memberExpression member => some member
  | _ => none

/-- The statements of a block. -/
def block? (t : Tree) (id : NodeId) : Option (List NodeId) :=
  match t.node id with
  | .blockStatement body => some body
  | _ => none

def isBlock (t : Tree) (id : NodeId) : Bool := (t.block? id).isSome

def isIf (t : Tree) (id : NodeId) : Bool :=
  match t.node id with
  | .ifStatement .. => true
  | _ => false

def isReturn (t : Tree) (id : NodeId) : Bool :=
  match t.node id with
  | .returnStatement _ => true
  | _ => false

def isAsExpression (t : Tree) (id : NodeId) : Bool :=
  match t.node id with
  | .asExpression .. => true
  | _ => false

def isTemplate (t : Tree) (id : NodeId) : Bool :=
  match t.node id with
  | .templateLiteral .. => true
  | _ => false

/-- Whether the node is a binary expression with this operator. -/
def isBinary (t : Tree) (operator : BinaryOperator) (id : NodeId) : Bool :=
  match t.node id with
  | .binaryExpression found _ _ => found == operator
  | _ => false

/-- Whether the node is a logical expression with this operator. -/
def isLogical (t : Tree) (operator : LogicalOperator) (id : NodeId) : Bool :=
  match t.node id with
  | .logicalExpression found _ _ => found == operator
  | _ => false

/-- A function, as a statement or an expression, or an arrow function. -/
def isFunctionLike (t : Tree) (id : NodeId) : Bool :=
  match t.node id with
  | .functionDeclaration _ | .functionExpression _ | .arrowFunctionExpression _ => true
  | _ => false

/-- A function that is no arrow function. -/
def function? (t : Tree) (id : NodeId) : Option Function :=
  match t.node id with
  | .functionDeclaration f | .functionExpression f => some f
  | _ => none

/-- The nearest function around a node. -/
def enclosingFunction? (t : Tree) (id : NodeId) : Option NodeId :=
  (t.ancestors id).find? t.isFunctionLike

/-- The nodes met from `id` by taking one step after the other, `id` first, at most `fuel` of
them. -/
def follow (next : NodeId → Option NodeId) : Nat → NodeId → List NodeId
  | 0, _ => []
  | fuel + 1, id =>
    match next id with
    | none => [id]
    | some found => id :: follow next fuel found

/-- The chain of a step. Every node with a next one is a node of the tree, so a chain that ends is
never cut short. -/
def chain (t : Tree) (next : NodeId → Option NodeId) (id : NodeId) : List NodeId :=
  follow next (t.size + 1) id

/-- Whether steps from `id` all lead to an end, none of them further away than `fuel`. -/
def endsWithin (next : NodeId → List NodeId) : Nat → NodeId → Bool
  | 0, _ => false
  | fuel + 1, id => (next id).all (endsWithin next fuel)

/-- Whether steps from `id` all lead to an end. Every node with a next one is a node of the tree, so
one that is further away than there are nodes is met again and again. -/
def ends (t : Tree) (next : NodeId → List NodeId) (id : NodeId) : Bool :=
  endsWithin next (t.size + 1) id

/-- Whether a chain comes to an end. -/
def chainEnds (t : Tree) (next : NodeId → Option NodeId) (id : NodeId) : Bool :=
  t.ends (fun id => (next id).toList) id

end Tree
end ScriptLint
