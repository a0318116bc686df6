import ScriptLint.Tree.Shape

namespace ScriptLint
namespace Tree

/-- The property's name in `object.name`. -/
def staticName? (t : Tree) (member : Member) : Option String :=
  if member.computed then none else t.identifierName? member.property

/-- The object, if the node is a call `object.name(…)`. -/
def memberCall? (t : Tree) (name : String) (id : NodeId) : Option NodeId :=
  match t.node id with
  | .callExpression callee _ _ =>
    match t.member? callee with
    | some member => if t.staticName? member == some name then some member.object else none
    | none => none
  | _ => none

/-- The name of an async function declaration that does not end in `suffix`. -/
def asyncNameWithout? (t : Tree) (suffix : String) (id : NodeId) : Option String :=
  match t.node id with
  | .functionDeclaration f =>
    (f.id.bind t.identifierName?).filter fun name =>
      f.isAsync && !name.isEmpty && !suffix.toList.isSuffixOf name.toList
  | _ => none

/-- A call of one of the operations of a namespace object. -/
def isNamespaceCall (t : Tree) (space : String) (operations : List String) (id : NodeId) : Bool :=
  match t.node id with
  | .callExpression callee _ _ =>
    match t.member? callee with
    | some member =>
      t.identifierName? member.object == some space &&
        ((t.staticName? member).map operations.contains).getD false
    | none => false
  | _ => false

/-- Whether the node stands inside an `await` expression. -/
def isAwaited (t : Tree) (id : NodeId) : Bool :=
  (t.ancestors id).any fun ancestor =>
    match t.node ancestor with
    | .awaitExpression _ => true
    | _ => false

/-- Whether `.catch(…)` or `.then(…)` is called on the node. -/
def isHandled (t : Tree) (id : NodeId) : Bool :=
  match t.parent id with
  | none => false
  | some parent =>
    match t.member? parent with
    | none => false
    | some member =>
      let handler := t.staticName? member
      member.object == id && (handler == some "catch" || handler == some "then") &&
        match (t.parent parent).map t.node with
        | some (.callExpression callee _ _) => callee == parent
        | _ => false

/-- A literal that is an empty value: the empty string, zero or false. -/
def isEmptyValue (t : Tree) (id : NodeId) : Bool :=
  match t.literalValue? id with
  | some (.string value) => value.isEmpty
  | some (.number value) => value.eqv .zero
  | some (.boolean value) => !value
  | _ => false

/-- `a || ""`, `a || 0` or `a || false`. -/
def isEmptyDefault (t : Tree) (id : NodeId) : Bool :=
  match t.node id with
  | .logicalExpression .or _ right => t.isEmptyValue right
  | _ => false

/-- Whether the node is asserted `as const`. -/
def isConstAsserted (t : Tree) (id : NodeId) : Bool :=
  match (t.parent id).map t.node with
  | some (.asExpression expression type) =>
    expression == id &&
      match t.node type with
      | .typeReference name _ =>
        let last := match t.node name with
          | .qualifiedName _ right => right
          | _ => name
        t.identifierName? last == some "const"
      | _ => false
  | _ => false

/-- Whether the node is returned, directly or through a type assertion. -/
def isReturned (t : Tree) (id : NodeId) : Bool :=
  match t.parent id with
  | none => false
  | some parent =>
    t.isReturn parent ||
      (t.isAsExpression parent && ((t.parent parent).map t.isReturn).getD false)

/-- `new E(…)` or `E(…)` for one of the classes. -/
def isConstructionOf (t : Tree) (classes : List String) (id : NodeId) : Bool :=
  match t.node id with
  | .newExpression callee _ | .callExpression callee _ _ =>
    ((t.identifierName? callee).map classes.contains).getD false
  | _ => false

/-- `Promise.reject(…)`. -/
def isPromiseReject (t : Tree) (id : NodeId) : Bool :=
  ((t.memberCall? "reject" id).bind t.identifierName?) == some "Promise"

def isString (t : Tree) (id : NodeId) : Bool := (t.stringValue? id).isSome

/-- A comparison of `receiver.indexOf(argument)` that tells only whether it was found. -/
structure IndexComparison where
  receiver : NodeId
  argument : NodeId
  /-- Whether the comparison holds when the argument is found. -/
  found : Bool

/-- The number minus one, also written with an operator. -/
def isMinusOne (t : Tree) (id : NodeId) : Bool :=
  match t.node id with
  | .literal (.number value) _ => value.eqv ⟨0xbff0000000000000⟩
  | .unaryExpression .minus argument => t.isNumber argument 1
  | _ => false

/-- What comparing an index with the node on the right tells about the search. -/
def indexComparisonFound? (t : Tree) (operator : BinaryOperator) (right : NodeId) :
    Option Bool :=
  if t.isMinusOne right then
    match operator with
    | .strictNotEqual | .notEqual | .greater => some true
    | .strictEqual | .equal => some false
    | _ => none
  else if t.isNumber right 0 then
    match operator with
    | .greaterEqual => some true
    | .less => some false
    | _ => none
  else none

/-- `x.indexOf(a) !== -1`, `x.indexOf(a) >= 0` and the like. -/
def indexComparison? (t : Tree) (id : NodeId) : Option IndexComparison :=
  match t.node id with
  | .binaryExpression operator left right => do
    let receiver ← t.memberCall? "indexOf" left
    match t.node left with
    | .callExpression _ [argument] false =>
      match t.node argument with
      | .spreadElement _ => none
      | _ =>
        let found ← t.indexComparisonFound? operator right
        return { receiver, argument, found }
    | _ => none
  | _ => none

/-- A statement that leaves the statements around it. -/
def isJump (t : Tree) (id : NodeId) : Bool :=
  match t.node id with
  | .returnStatement _ | .throwStatement _ | .continueStatement _ | .breakStatement _ => true
  | _ => false

/-- An `if` without `else` that does nothing but jump. -/
def isGuardClause (t : Tree) (id : NodeId) : Bool :=
  match t.node id with
  | .ifStatement _ consequent none =>
    t.isJump consequent ||
      match t.block? consequent with
      | some [only] => t.isJump only
      | _ => false
  | _ => false

/-- An identifier, `this`, or a plain member access: how a static path goes on. -/
def pathStep? (t : Tree) (id : NodeId) : Option NodeId :=
  match t.node id with
  | .memberExpression member =>
    if member.computed || member.optional then none else some member.object
  | _ => none

/-- An identifier or `this`, followed by any number of plain member accesses. -/
def isStaticPath (t : Tree) (id : NodeId) : Bool :=
  match (t.chain t.pathStep? id).getLast?.map t.node with
  | some (.identifier _) | some .thisExpression => true
  | _ => false

end Tree
end ScriptLint
