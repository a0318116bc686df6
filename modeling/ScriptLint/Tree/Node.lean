import ScriptLint.Number.Binary64
import ScriptLint.Tree.NodeType
import ScriptLint.Tree.Operator

namespace ScriptLint

/-- A node's place in its tree. -/
abbrev NodeId := Nat

/-- Types that are one reserved word. -/
inductive TypeWord where
  | string
  | number
  | boolean
  | any
  | unknown
  | void
  | never
  | null
  | undefined
  | object
  | symbol
  | bigInt
  deriving DecidableEq

/-- The value of a literal. -/
inductive LiteralValue where
  | string (value : String)
  | number (value : Binary64)
  | boolean (value : Bool)
  | null
  deriving DecidableEq

/-- A name, as an expression or a binding. -/
structure Identifier where
  name : String
  /-- The annotation of a binding. -/
  typeAscription : Option NodeId := none
  /-- Whether the binding is marked `x?`. -/
  optional : Bool := false

/-- A function with a block body. -/
structure Function where
  id : Option NodeId
  params : List NodeId
  body : NodeId
  isAsync : Bool
  generator : Bool
  returnType : Option NodeId

/-- An arrow function; `expression` tells that its body is an expression. -/
structure Arrow where
  params : List NodeId
  body : NodeId
  isAsync : Bool
  expression : Bool
  returnType : Option NodeId

/-- A class; its body is a node of its own. -/
structure Class where
  id : Option NodeId
  superClass : Option NodeId
  body : NodeId

/-- A method of a class. -/
structure MethodDefinition where
  key : NodeId
  value : NodeId
  kind : MethodKind
  computed : Bool
  isStatic : Bool

/-- A field of a class. -/
structure PropertyDefinition where
  key : NodeId
  value : Option NodeId
  computed : Bool
  isStatic : Bool
  typeAscription : Option NodeId

/-- A member of an object literal or object pattern. -/
structure Property where
  key : NodeId
  value : NodeId
  kind : PropertyKind
  computed : Bool
  shorthand : Bool
  method : Bool

/-- Access to a property: `object.property`, or `object[property]` if computed. -/
structure Member where
  object : NodeId
  property : NodeId
  computed : Bool
  /-- Whether the access is written `?.`. -/
  optional : Bool

/-- A property of an object type. -/
structure PropertySignature where
  key : NodeId
  computed : Bool
  optional : Bool
  readonly : Bool
  typeAscription : Option NodeId

/-- A function without a body. -/
structure DeclareFunction where
  id : Option NodeId
  params : List NodeId
  returnType : Option NodeId
  isAsync : Bool

/-- A syntax node. -/
inductive Node where
  | program (body : List NodeId)
  | expressionStatement (expression : NodeId)
  | blockStatement (body : List NodeId)
  | emptyStatement
  | debuggerStatement
  | variableDeclaration (kind : VariableKind) (declarations : List NodeId)
  | variableDeclarator (id : NodeId) (init : Option NodeId)
  | functionDeclaration (function : Function)
  | returnStatement (argument : Option NodeId)
  | ifStatement (test consequent : NodeId) (alternate : Option NodeId)
  | forStatement (init test update : Option NodeId) (body : NodeId)
  | forInStatement (left right body : NodeId)
  | forOfStatement (left right body : NodeId) (isAwait : Bool)
  | whileStatement (test body : NodeId)
  | doWhileStatement (body test : NodeId)
  | breakStatement (label : Option NodeId)
  | continueStatement (label : Option NodeId)
  | labeledStatement (label body : NodeId)
  | throwStatement (argument : NodeId)
  | tryStatement (block : NodeId) (handler finalizer : Option NodeId)
  | catchClause (param : Option NodeId) (body : NodeId)
  | switchStatement (discriminant : NodeId) (cases : List NodeId)
  /-- A `case`, or the `default` if it has no test. -/
  | switchCase (test : Option NodeId) (consequent : List NodeId)
  | classDeclaration (c : Class)
  | classExpression (c : Class)
  | classBody (body : List NodeId)
  | methodDefinition (method : MethodDefinition)
  | propertyDefinition (property : PropertyDefinition)
  | importDeclaration (specifiers : List NodeId) (source : NodeId)
  | importSpecifier (imported localName : NodeId)
  | importDefaultSpecifier (localName : NodeId)
  | importNamespaceSpecifier (localName : NodeId)
  | exportNamedDeclaration (declaration : Option NodeId) (specifiers : List NodeId)
      (source : Option NodeId)
  | exportDefaultDeclaration (declaration : NodeId)
  | exportAllDeclaration (exported : Option NodeId) (source : NodeId)
  | exportSpecifier (localName exported : NodeId)
  | identifier (ident : Identifier)
  /-- A literal with its spelling in the source. -/
  | literal (value : LiteralValue) (raw : String)
  | templateLiteral (quasis expressions : List NodeId)
  | templateElement (raw : String) (tail : Bool)
  | taggedTemplateExpression (tag quasi : NodeId)
  /-- An array literal; a hole has no node. -/
  | arrayExpression (elements : List (Option NodeId))
  | objectExpression (properties : List NodeId)
  | property (property : Property)
  | spreadElement (argument : NodeId)
  | functionExpression (function : Function)
  | arrowFunctionExpression (arrow : Arrow)
  | unaryExpression (operator : UnaryOperator) (argument : NodeId)
  | updateExpression (operator : UpdateOperator) (isPrefix : Bool) (argument : NodeId)
  | binaryExpression (operator : BinaryOperator) (left right : NodeId)
  | logicalExpression (operator : LogicalOperator) (left right : NodeId)
  | assignmentExpression (operator : AssignmentOperator) (left right : NodeId)
  | conditionalExpression (test consequent alternate : NodeId)
  | callExpression (callee : NodeId) (arguments : List NodeId) (optional : Bool)
  | newExpression (callee : NodeId) (arguments : List NodeId)
  | memberExpression (member : Member)
  /-- The outermost node of an expression with a `?.` in it. -/
  | chainExpression (expression : NodeId)
  | sequenceExpression (expressions : List NodeId)
  | awaitExpression (argument : NodeId)
  | yieldExpression (argument : Option NodeId) (delegate : Bool)
  | thisExpression
  | superExpression
  | parenthesizedExpression (expression : NodeId)
  | arrayPattern (elements : List (Option NodeId)) (typeAscription : Option NodeId)
  | objectPattern (properties : List NodeId) (typeAscription : Option NodeId)
  | assignmentPattern (left right : NodeId)
  | restElement (argument : NodeId) (typeAscription : Option NodeId)
  | asExpression (expression typeAscription : NodeId)
  | nonNullExpression (expression : NodeId)
  | typeAscription (type : NodeId)
  | typeReference (typeName : NodeId) (typeArguments : List NodeId)
  | qualifiedName (left right : NodeId)
  | arrayType (elementType : NodeId)
  | indexedAccessType (objectType indexType : NodeId)
  | unionType (types : List NodeId)
  | intersectionType (types : List NodeId)
  | tupleType (elementTypes : List NodeId)
  | literalType (literal : NodeId)
  | typeLiteral (members : List NodeId)
  | propertySignature (property : PropertySignature)
  | methodSignature (key : NodeId) (params : List NodeId) (returnType : Option NodeId)
  | functionType (params : List NodeId) (returnType : NodeId)
  | typeQuery (exprName : NodeId)
  | typeOperator (operator : String) (typeAscription : NodeId)
  | declareFunction (function : DeclareFunction)
  | typeAliasDeclaration (id typeAscription : NodeId)
  | interfaceDeclaration (id : NodeId) (parents body : List NodeId)
  | typeWord (word : TypeWord)
  /-- A node of a kind that this library has no model of. -/
  | foreign (typeName : String)

namespace TypeWord

def nodeType : TypeWord → NodeType
  | .string => .stringKeyword
  | .number => .numberKeyword
  | .boolean => .booleanKeyword
  | .any => .anyKeyword
  | .unknown => .unknownKeyword
  | .void => .voidKeyword
  | .never => .neverKeyword
  | .null => .nullKeyword
  | .undefined => .undefinedKeyword
  | .object => .objectKeyword
  | .symbol => .symbolKeyword
  | .bigInt => .bigIntKeyword

end TypeWord

namespace Node

/-- What an identifier outside the tree stands for. -/
def missing : Node := .foreign ""

instance : Inhabited Node := ⟨missing⟩

def nodeType : Node → NodeType
  | .program .. => .program
  | .expressionStatement .. => .expressionStatement
  | .blockStatement .. => .blockStatement
  | .emptyStatement .. => .emptyStatement
  | .debuggerStatement .. => .debuggerStatement
  | .variableDeclaration .. => .variableDeclaration
  | .variableDeclarator .. => .variableDeclarator
  | .functionDeclaration .. => .functionDeclaration
  | .returnStatement .. => .returnStatement
  | .ifStatement .. => .ifStatement
  | .forStatement .. => .forStatement
  | .forInStatement .. => .forInStatement
  | .forOfStatement .. => .forOfStatement
  | .whileStatement .. => .whileStatement
  | .doWhileStatement .. => .doWhileStatement
  | .breakStatement .. => .breakStatement
  | .continueStatement .. => .continueStatement
  | .labeledStatement .. => .labeledStatement
  | .throwStatement .. => .throwStatement
  | .tryStatement .. => .tryStatement
  | .catchClause .. => .catchClause
  | .switchStatement .. => .switchStatement
  | .switchCase .. => .switchCase
  | .classDeclaration .. => .classDeclaration
  | .classExpression .. => .classExpression
  | .classBody .. => .classBody
  | .methodDefinition .. => .methodDefinition
  | .propertyDefinition .. => .propertyDefinition
  | .importDeclaration .. => .importDeclaration
  | .importSpecifier .. => .importSpecifier
  | .importDefaultSpecifier .. => .importDefaultSpecifier
  | .importNamespaceSpecifier .. => .importNamespaceSpecifier
  | .exportNamedDeclaration .. => .exportNamedDeclaration
  | .exportDefaultDeclaration .. => .exportDefaultDeclaration
  | .exportAllDeclaration .. => .exportAllDeclaration
  | .exportSpecifier .. => .exportSpecifier
  | .identifier .. => .identifier
  | .literal .. => .literal
  | .templateLiteral .. => .templateLiteral
  | .templateElement .. => .templateElement
  | .taggedTemplateExpression .. => .taggedTemplateExpression
  | .arrayExpression .. => .arrayExpression
  | .objectExpression .. => .objectExpression
  | .property .. => .property
  | .spreadElement .. => .spreadElement
  | .functionExpression .. => .functionExpression
  | .arrowFunctionExpression .. => .arrowFunctionExpression
  | .unaryExpression .. => .unaryExpression
  | .updateExpression .. => .updateExpression
  | .binaryExpression .. => .binaryExpression
  | .logicalExpression .. => .logicalExpression
  | .assignmentExpression .. => .assignmentExpression
  | .conditionalExpression .. => .conditionalExpression
  | .callExpression .. => .callExpression
  | .newExpression .. => .newExpression
  | .memberExpression .. => .memberExpression
  | .chainExpression .. => .chainExpression
  | .sequenceExpression .. => .sequenceExpression
  | .awaitExpression .. => .awaitExpression
  | .yieldExpression .. => .yieldExpression
  | .thisExpression .. => .thisExpression
  | .superExpression .. => .superExpression
  | .parenthesizedExpression .. => .parenthesizedExpression
  | .arrayPattern .. => .arrayPattern
  | .objectPattern .. => .objectPattern
  | .assignmentPattern .. => .assignmentPattern
  | .restElement .. => .restElement
  | .asExpression .. => .asExpression
  | .nonNullExpression .. => .nonNullExpression
  | .typeAscription .. => .typeAscription
  | .typeReference .. => .typeReference
  | .qualifiedName .. => .qualifiedName
  | .arrayType .. => .arrayType
  | .indexedAccessType .. => .indexedAccessType
  | .unionType .. => .unionType
  | .intersectionType .. => .intersectionType
  | .tupleType .. => .tupleType
  | .literalType .. => .literalType
  | .typeLiteral .. => .typeLiteral
  | .propertySignature .. => .propertySignature
  | .methodSignature .. => .methodSignature
  | .functionType .. => .functionType
  | .typeQuery .. => .typeQuery
  | .typeOperator .. => .typeOperator
  | .declareFunction .. => .declareFunction
  | .typeAliasDeclaration .. => .typeAliasDeclaration
  | .interfaceDeclaration .. => .interfaceDeclaration
  | .typeWord word => word.nodeType
  | .foreign _ => .unknown

/-- The name of a node's kind; a foreign node has a name of its own. -/
def typeName : Node → String
  | .foreign typeName => typeName
  | node => node.nodeType.name

/-- Quasis and expressions of a template in turn. -/
def interleave : List NodeId → List NodeId → List NodeId
  | [], _ => []
  | q :: quasis, [] => q :: interleave quasis []
  | q :: quasis, e :: expressions => q :: e :: interleave quasis expressions

/-- A pair of fields that may be one and the same node. -/
def distinct (a b : NodeId) : List NodeId := if a = b then [a] else [a, b]

/-- The children of a node, in source order. -/
def children : Node → List NodeId
  | .program body => body
  | .expressionStatement expression => [expression]
  | .blockStatement body => body
  | .variableDeclaration _ declarations => declarations
  | .variableDeclarator id init => id :: init.toList
  | .functionDeclaration f => f.id.toList ++ f.params ++ f.returnType.toList ++ [f.body]
  | .functionExpression f => f.id.toList ++ f.params ++ f.returnType.toList ++ [f.body]
  | .returnStatement argument => argument.toList
  | .ifStatement test consequent alternate => test :: consequent :: alternate.toList
  | .forStatement init test update body =>
    init.toList ++ test.toList ++ update.toList ++ [body]
  | .forInStatement left right body => [left, right, body]
  | .forOfStatement left right body _ => [left, right, body]
  | .whileStatement test body => [test, body]
  | .doWhileStatement body test => [body, test]
  | .breakStatement label => label.toList
  | .continueStatement label => label.toList
  | .labeledStatement label body => [label, body]
  | .throwStatement argument => [argument]
  | .tryStatement block handler finalizer => block :: (handler.toList ++ finalizer.toList)
  | .catchClause param body => param.toList ++ [body]
  | .switchStatement discriminant cases => discriminant :: cases
  | .switchCase test consequent => test.toList ++ consequent
  | .classDeclaration c => c.id.toList ++ c.superClass.toList ++ [c.body]
  | .classExpression c => c.id.toList ++ c.superClass.toList ++ [c.body]
  | .classBody body => body
  | .methodDefinition method => [method.key, method.value]
  | .propertyDefinition p => p.key :: (p.typeAscription.toList ++ p.value.toList)
  | .importDeclaration specifiers source => specifiers ++ [source]
  | .importSpecifier imported localName => distinct imported localName
  | .importDefaultSpecifier localName => [localName]
  | .importNamespaceSpecifier localName => [localName]
  | .exportNamedDeclaration declaration specifiers source =>
    declaration.toList ++ specifiers ++ source.toList
  | .exportDefaultDeclaration declaration => [declaration]
  | .exportAllDeclaration exported source => exported.toList ++ [source]
  | .exportSpecifier localName exported => distinct localName exported
  | .identifier ident => ident.typeAscription.toList
  | .templateLiteral quasis expressions => interleave quasis expressions
  | .taggedTemplateExpression tag quasi => [tag, quasi]
  | .arrayExpression elements => elements.filterMap id
  | .objectExpression properties => properties
  | .property p =>
    -- the value of a shorthand member holds its key
    if p.shorthand then (if p.key = p.value then [p.key] else [p.value]) else [p.key, p.value]
  | .spreadElement argument => [argument]
  | .arrowFunctionExpression f => f.params ++ f.returnType.toList ++ [f.body]
  | .unaryExpression _ argument => [argument]
  | .updateExpression _ _ argument => [argument]
  | .binaryExpression _ left right => [left, right]
  | .logicalExpression _ left right => [left, right]
  | .assignmentExpression _ left right => [left, right]
  | .conditionalExpression test consequent alternate => [test, consequent, alternate]
  | .callExpression callee arguments _ => callee :: arguments
  | .newExpression callee arguments => callee :: arguments
  | .memberExpression member => [member.object, member.property]
  | .chainExpression expression => [expression]
  | .sequenceExpression expressions => expressions
  | .awaitExpression argument => [argument]
  | .yieldExpression argument _ => argument.toList
  | .parenthesizedExpression expression => [expression]
  | .arrayPattern elements annotated => elements.filterMap id ++ annotated.toList
  | .objectPattern properties annotated => properties ++ annotated.toList
  | .assignmentPattern left right => [left, right]
  | .restElement argument annotated => argument :: annotated.toList
  | .asExpression expression type => [expression, type]
  | .nonNullExpression expression => [expression]
  | .typeAscription type => [type]
  | .typeReference typeName typeArguments => typeName :: typeArguments
  | .qualifiedName left right => [left, right]
  | .arrayType elementType => [elementType]
  | .indexedAccessType objectType indexType => [objectType, indexType]
  | .unionType types => types
  | .intersectionType types => types
  | .tupleType elementTypes => elementTypes
  | .literalType value => [value]
  | .typeLiteral members => members
  | .propertySignature p => p.key :: p.typeAscription.toList
  | .methodSignature key params returnType => key :: (params ++ returnType.toList)
  | .functionType params returnType => params ++ [returnType]
  | .typeQuery exprName => [exprName]
  | .typeOperator _ type => [type]
  | .declareFunction f => f.id.toList ++ f.params ++ f.returnType.toList
  | .typeAliasDeclaration id type => [id, type]
  | .interfaceDeclaration id parents body => id :: (parents ++ body)
  | .emptyStatement | .debuggerStatement | .literal .. | .templateElement .. | .thisExpression
  | .superExpression | .typeWord _ | .foreign _ => []

end Node
end ScriptLint
