import ScriptLint.Tree.Node

namespace ScriptLint

/-- The value of a field. -/
inductive Field where
  | absent
  | id (id : NodeId)
  /-- A list of nodes; an entry may be missing. -/
  | ids (ids : List (Option NodeId))
  | flag (value : Bool)
  | text (value : String)
  | literal (value : LiteralValue)

/-- What is wrong with a record. -/
inductive RecordError where
  | nodeId
  | list
  /-- A word that is none of a closed choice. -/
  | spelling (choice : String)

namespace RecordError

def message : RecordError → String
  | .nodeId => "node id"
  | .list => "list"
  | .spelling choice => choice

end RecordError

namespace Field

def ofId? : Option NodeId → Field
  | some node => .id node
  | none => .absent

def ofIds (nodes : List NodeId) : Field := .ids (nodes.map some)

end Field

namespace Node

def functionFields (f : Function) : List (String × Field) :=
  [("id", .ofId? f.id), ("params", .ofIds f.params), ("body", .id f.body),
   ("is_async", .flag f.isAsync), ("generator", .flag f.generator),
   ("return_type", .ofId? f.returnType)]

def classFields (c : Class) : List (String × Field) :=
  [("id", .ofId? c.id), ("super_class", .ofId? c.superClass), ("body", .id c.body)]

def pairFields (left right : NodeId) : List (String × Field) :=
  [("left", .id left), ("right", .id right)]

/-- The fields of a node by their names. -/
def fields : Node → List (String × Field)
  | .program body => [("body", .ofIds body)]
  | .expressionStatement expression => [("expression", .id expression)]
  | .blockStatement body => [("body", .ofIds body)]
  | .emptyStatement => []
  | .debuggerStatement => []
  | .variableDeclaration kind declarations =>
    [("kind", .text kind.spelling), ("declarations", .ofIds declarations)]
  | .variableDeclarator id init => [("id", .id id), ("init", .ofId? init)]
  | .functionDeclaration f => functionFields f
  | .returnStatement argument => [("argument", .ofId? argument)]
  | .ifStatement test consequent alternate =>
    [("test", .id test), ("consequent", .id consequent), ("alternate", .ofId? alternate)]
  | .forStatement init test update body =>
    [("init", .ofId? init), ("test", .ofId? test), ("update", .ofId? update), ("body", .id body)]
  | .forInStatement left right body => pairFields left right ++ [("body", .id body)]
  | .forOfStatement left right body isAwait =>
    pairFields left right ++ [("body", .id body), ("is_await", .flag isAwait)]
  | .whileStatement test body => [("test", .id test), ("body", .id body)]
  | .doWhileStatement body test => [("body", .id body), ("test", .id test)]
  | .breakStatement label => [("label", .ofId? label)]
  | .continueStatement label => [("label", .ofId? label)]
  | .labeledStatement label body => [("label", .id label), ("body", .id body)]
  | .throwStatement argument => [("argument", .id argument)]
  | .tryStatement block handler finalizer =>
    [("block", .id block), ("handler", .ofId? handler), ("finalizer", .ofId? finalizer)]
  | .catchClause param body => [("param", .ofId? param), ("body", .id body)]
  | .switchStatement discriminant cases =>
    [("discriminant", .id discriminant), ("cases", .ofIds cases)]
  | .switchCase test consequent => [("test", .ofId? test), ("consequent", .ofIds consequent)]
  | .classDeclaration c => classFields c
  | .classExpression c => classFields c
  | .classBody body => [("body", .ofIds body)]
  | .methodDefinition m =>
    [("key", .id m.key), ("value", .id m.value), ("kind", .text m.kind.spelling),
     ("computed", .flag m.computed), ("is_static", .flag m.isStatic)]
  | .propertyDefinition p =>
    [("key", .id p.key), ("value", .ofId? p.value), ("computed", .flag p.computed),
     ("is_static", .flag p.isStatic), ("type_annotation", .ofId? p.typeAscription)]
  | .importDeclaration specifiers source =>
    [("specifiers", .ofIds specifiers), ("source", .id source)]
  | .importSpecifier imported localName => [("imported", .id imported), ("local", .id localName)]
  | .importDefaultSpecifier localName => [("local", .id localName)]
  | .importNamespaceSpecifier localName => [("local", .id localName)]
  | .exportNamedDeclaration declaration specifiers source =>
    [("declaration", .ofId? declaration), ("specifiers", .ofIds specifiers),
     ("source", .ofId? source)]
  | .exportDefaultDeclaration declaration => [("declaration", .id declaration)]
  | .exportAllDeclaration exported source =>
    [("exported", .ofId? exported), ("source", .id source)]
  | .exportSpecifier localName exported => [("local", .id localName), ("exported", .id exported)]
  | .identifier i =>
    [("name", .text i.name), ("type_annotation", .ofId? i.typeAscription),
     ("optional", .flag i.optional)]
  | .literal value raw => [("value", .literal value), ("raw", .text raw)]
  | .templateLiteral quasis expressions =>
    [("quasis", .ofIds quasis), ("expressions", .ofIds expressions)]
  | .templateElement raw tail => [("raw", .text raw), ("tail", .flag tail)]
  | .taggedTemplateExpression tag quasi => [("tag", .id tag), ("quasi", .id quasi)]
  | .arrayExpression elements => [("elements", .ids elements)]
  | .objectExpression properties => [("properties", .ofIds properties)]
  | .property p =>
    [("key", .id p.key), ("value", .id p.value), ("kind", .text p.kind.spelling),
     ("computed", .flag p.computed), ("shorthand", .flag p.shorthand),
     ("method", .flag p.method)]
  | .spreadElement argument => [("argument", .id argument)]
  | .functionExpression f => functionFields f
  | .arrowFunctionExpression f =>
    [("params", .ofIds f.params), ("body", .id f.body), ("is_async", .flag f.isAsync),
     ("expression", .flag f.expression), ("return_type", .ofId? f.returnType)]
  | .unaryExpression operator argument =>
    [("operator", .text operator.spelling), ("argument", .id argument)]
  | .updateExpression operator isPrefix argument =>
    [("operator", .text operator.spelling), ("prefix", .flag isPrefix), ("argument", .id argument)]
  | .binaryExpression operator left right =>
    ("operator", .text operator.spelling) :: pairFields left right
  | .logicalExpression operator left right =>
    ("operator", .text operator.spelling) :: pairFields left right
  | .assignmentExpression operator left right =>
    ("operator", .text operator.spelling) :: pairFields left right
  | .conditionalExpression test consequent alternate =>
    [("test", .id test), ("consequent", .id consequent), ("alternate", .id alternate)]
  | .callExpression callee arguments optional =>
    [("callee", .id callee), ("arguments", .ofIds arguments), ("optional", .flag optional)]
  | .newExpression callee arguments => [("callee", .id callee), ("arguments", .ofIds arguments)]
  | .memberExpression m =>
    [("object", .id m.object), ("property", .id m.property), ("computed", .flag m.computed),
     ("optional", .flag m.optional)]
  | .chainExpression expression => [("expression", .id expression)]
  | .sequenceExpression expressions => [("expressions", .ofIds expressions)]
  | .awaitExpression argument => [("argument", .id argument)]
  | .yieldExpression argument delegate =>
    [("argument", .ofId? argument), ("delegate", .flag delegate)]
  | .thisExpression => []
  | .superExpression => []
  | .parenthesizedExpression expression => [("expression", .id expression)]
  | .arrayPattern elements annotated =>
    [("elements", .ids elements), ("type_annotation", .ofId? annotated)]
  | .objectPattern properties annotated =>
    [("properties", .ofIds properties), ("type_annotation", .ofId? annotated)]
  | .assignmentPattern left right => pairFields left right
  | .restElement argument annotated =>
    [("argument", .id argument), ("type_annotation", .ofId? annotated)]
  | .asExpression expression type => [("expression", .id expression), ("type_annotation", .id type)]
  | .nonNullExpression expression => [("expression", .id expression)]
  | .typeAscription type => [("type_annotation", .id type)]
  | .typeReference name arguments =>
    [("type_name", .id name), ("type_arguments", .ofIds arguments)]
  | .qualifiedName left right => pairFields left right
  | .arrayType elementType => [("element_type", .id elementType)]
  | .indexedAccessType objectType indexType =>
    [("object_type", .id objectType), ("index_type", .id indexType)]
  | .unionType types => [("types", .ofIds types)]
  | .intersectionType types => [("types", .ofIds types)]
  | .tupleType elementTypes => [("element_types", .ofIds elementTypes)]
  | .literalType value => [("literal", .id value)]
  | .typeLiteral members => [("members", .ofIds members)]
  | .propertySignature p =>
    [("key", .id p.key), ("computed", .flag p.computed), ("optional", .flag p.optional),
     ("readonly", .flag p.readonly), ("type_annotation", .ofId? p.typeAscription)]
  | .methodSignature key params returnType =>
    [("key", .id key), ("params", .ofIds params), ("return_type", .ofId? returnType)]
  | .functionType params returnType => [("params", .ofIds params), ("return_type", .id returnType)]
  | .typeQuery exprName => [("expr_name", .id exprName)]
  | .typeOperator operator type => [("operator", .text operator), ("type_annotation", .id type)]
  | .declareFunction f =>
    [("id", .ofId? f.id), ("params", .ofIds f.params), ("return_type", .ofId? f.returnType),
     ("is_async", .flag f.isAsync)]
  | .typeAliasDeclaration id type => [("id", .id id), ("type_annotation", .id type)]
  | .interfaceDeclaration id parents body =>
    [("id", .id id), ("extends", .ofIds parents), ("body", .ofIds body)]
  | .typeWord _ => []
  | .foreign _ => []

/-- How the fields of a record are looked up. -/
structure Reader where
  get : String → Field

namespace Reader

def id (r : Reader) (name : String) : Except RecordError NodeId :=
  match r.get name with
  | .id id => .ok id
  | _ => .error .nodeId

def id? (r : Reader) (name : String) : Except RecordError (Option NodeId) :=
  match r.get name with
  | .absent => .ok none
  | .id id => .ok (some id)
  | _ => .error .nodeId

/-- A list in which entries may be missing; no list at all is the empty one. -/
def holes (r : Reader) (name : String) : Except RecordError (List (Option NodeId)) :=
  match r.get name with
  | .absent => .ok []
  | .ids ids => .ok ids
  | _ => .error .list

def ids (r : Reader) (name : String) : Except RecordError (List NodeId) := do
  (← r.holes name).mapM fun
    | some id => .ok id
    | none => .error .nodeId

def flag (r : Reader) (name : String) : Bool :=
  match r.get name with
  | .flag value => value
  | _ => false

def text (r : Reader) (name : String) : String :=
  match r.get name with
  | .text value => value
  | _ => ""

def choice {α : Type} (r : Reader) (name title : String) (read : String → Option α) :
    Except RecordError α :=
  match read (r.text name) with
  | some value => .ok value
  | none => .error (.spelling title)

def literal (r : Reader) (name : String) : Except RecordError LiteralValue :=
  match r.get name with
  | .literal value => .ok value
  | _ => .error (.spelling "LiteralValue")

def function (r : Reader) : Except RecordError Function := do
  return { id := ← r.id? "id", params := ← r.ids "params", body := ← r.id "body",
           isAsync := r.flag "is_async", generator := r.flag "generator",
           returnType := ← r.id? "return_type" }

def class_ (r : Reader) : Except RecordError Class := do
  return { id := ← r.id? "id", superClass := ← r.id? "super_class", body := ← r.id "body" }

end Reader

/-- The node of a known kind whose fields a reader finds. -/
def ofFields (type : NodeType) (r : Reader) : Except RecordError Node := do
  match type with
  | .program => return .program (← r.ids "body")
  | .expressionStatement => return .expressionStatement (← r.id "expression")
  | .blockStatement => return .blockStatement (← r.ids "body")
  | .emptyStatement => return .emptyStatement
  | .debuggerStatement => return .debuggerStatement
  | .variableDeclaration =>
    let kind ← r.choice "kind" "VariableKind" VariableKind.ofSpelling?
    return .variableDeclaration kind (← r.ids "declarations")
  | .variableDeclarator => return .variableDeclarator (← r.id "id") (← r.id? "init")
  | .functionDeclaration => return .functionDeclaration (← r.function)
  | .returnStatement => return .returnStatement (← r.id? "argument")
  | .ifStatement =>
    return .ifStatement (← r.id "test") (← r.id "consequent") (← r.id? "alternate")
  | .forStatement =>
    return .forStatement (← r.id? "init") (← r.id? "test") (← r.id? "update") (← r.id "body")
  | .forInStatement => return .forInStatement (← r.id "left") (← r.id "right") (← r.id "body")
  | .forOfStatement =>
    return .forOfStatement (← r.id "left") (← r.id "right") (← r.id "body") (r.flag "is_await")
  | .whileStatement => return .whileStatement (← r.id "test") (← r.id "body")
  | .doWhileStatement => return .doWhileStatement (← r.id "body") (← r.id "test")
  | .breakStatement => return .breakStatement (← r.id? "label")
  | .continueStatement => return .continueStatement (← r.id? "label")
  | .labeledStatement => return .labeledStatement (← r.id "label") (← r.id "body")
  | .throwStatement => return .throwStatement (← r.id "argument")
  | .tryStatement =>
    return .tryStatement (← r.id "block") (← r.id? "handler") (← r.id? "finalizer")
  | .catchClause => return .catchClause (← r.id? "param") (← r.id "body")
  | .switchStatement => return .switchStatement (← r.id "discriminant") (← r.ids "cases")
  | .switchCase => return .switchCase (← r.id? "test") (← r.ids "consequent")
  | .classDeclaration => return .classDeclaration (← r.class_)
  | .classExpression => return .classExpression (← r.class_)
  | .classBody => return .classBody (← r.ids "body")
  | .methodDefinition =>
    return .methodDefinition
      { key := ← r.id "key", value := ← r.id "value",
        kind := ← r.choice "kind" "MethodKind" MethodKind.ofSpelling?,
        computed := r.flag "computed", isStatic := r.flag "is_static" }
  | .propertyDefinition =>
    return .propertyDefinition
      { key := ← r.id "key", value := ← r.id? "value", computed := r.flag "computed",
        isStatic := r.flag "is_static", typeAscription := ← r.id? "type_annotation" }
  | .importDeclaration => return .importDeclaration (← r.ids "specifiers") (← r.id "source")
  | .importSpecifier => return .importSpecifier (← r.id "imported") (← r.id "local")
  | .importDefaultSpecifier => return .importDefaultSpecifier (← r.id "local")
  | .importNamespaceSpecifier => return .importNamespaceSpecifier (← r.id "local")
  | .exportNamedDeclaration =>
    return .exportNamedDeclaration (← r.id? "declaration") (← r.ids "specifiers")
      (← r.id? "source")
  | .exportDefaultDeclaration => return .exportDefaultDeclaration (← r.id "declaration")
  | .exportAllDeclaration => return .exportAllDeclaration (← r.id? "exported") (← r.id "source")
  | .exportSpecifier => return .exportSpecifier (← r.id "local") (← r.id "exported")
  | .identifier =>
    return .identifier { name := r.text "name", typeAscription := ← r.id? "type_annotation",
                         optional := r.flag "optional" }
  | .literal => return .literal (← r.literal "value") (r.text "raw")
  | .templateLiteral => return .templateLiteral (← r.ids "quasis") (← r.ids "expressions")
  | .templateElement => return .templateElement (r.text "raw") (r.flag "tail")
  | .taggedTemplateExpression =>
    return .taggedTemplateExpression (← r.id "tag") (← r.id "quasi")
  | .arrayExpression => return .arrayExpression (← r.holes "elements")
  | .objectExpression => return .objectExpression (← r.ids "properties")
  | .property =>
    return .property
      { key := ← r.id "key", value := ← r.id "value",
        kind := ← r.choice "kind" "PropertyKind" PropertyKind.ofSpelling?,
        computed := r.flag "computed", shorthand := r.flag "shorthand",
        method := r.flag "method" }
  | .spreadElement => return .spreadElement (← r.id "argument")
  | .functionExpression => return .functionExpression (← r.function)
  | .arrowFunctionExpression =>
    return .arrowFunctionExpression
      { params := ← r.ids "params", body := ← r.id "body", isAsync := r.flag "is_async",
        expression := r.flag "expression", returnType := ← r.id? "return_type" }
  | .unaryExpression =>
    let operator ← r.choice "operator" "UnaryOperator" UnaryOperator.ofSpelling?
    return .unaryExpression operator (← r.id "argument")
  | .updateExpression =>
    let operator ← r.choice "operator" "UpdateOperator" UpdateOperator.ofSpelling?
    return .updateExpression operator (r.flag "prefix") (← r.id "argument")
  | .binaryExpression =>
    let operator ← r.choice "operator" "BinaryOperator" BinaryOperator.ofSpelling?
    return .binaryExpression operator (← r.id "left") (← r.id "right")
  | .logicalExpression =>
    let operator ← r.choice "operator" "LogicalOperator" LogicalOperator.ofSpelling?
    return .logicalExpression operator (← r.id "left") (← r.id "right")
  | .assignmentExpression =>
    let operator ← r.choice "operator" "AssignmentOperator" AssignmentOperator.ofSpelling?
    return .assignmentExpression operator (← r.id "left") (← r.id "right")
  | .conditionalExpression =>
    return .conditionalExpression (← r.id "test") (← r.id "consequent") (← r.id "alternate")
  | .callExpression =>
    return .callExpression (← r.id "callee") (← r.ids "arguments") (r.flag "optional")
  | .newExpression => return .newExpression (← r.id "callee") (← r.ids "arguments")
  | .memberExpression =>
    return .memberExpression
      { object := ← r.id "object", property := ← r.id "property",
        computed := r.flag "computed", optional := r.flag "optional" }
  | .chainExpression => return .chainExpression (← r.id "expression")
  | .sequenceExpression => return .sequenceExpression (← r.ids "expressions")
  | .awaitExpression => return .awaitExpression (← r.id "argument")
  | .yieldExpression => return .yieldExpression (← r.id? "argument") (r.flag "delegate")
  | .thisExpression => return .thisExpression
  | .superExpression => return .superExpression
  | .parenthesizedExpression => return .parenthesizedExpression (← r.id "expression")
  | .arrayPattern => return .arrayPattern (← r.holes "elements") (← r.id? "type_annotation")
  | .objectPattern => return .objectPattern (← r.ids "properties") (← r.id? "type_annotation")
  | .assignmentPattern => return .assignmentPattern (← r.id "left") (← r.id "right")
  | .restElement => return .restElement (← r.id "argument") (← r.id? "type_annotation")
  | .asExpression => return .asExpression (← r.id "expression") (← r.id "type_annotation")
  | .nonNullExpression => return .nonNullExpression (← r.id "expression")
  | .typeAscription => return .typeAscription (← r.id "type_annotation")
  | .typeReference => return .typeReference (← r.id "type_name") (← r.ids "type_arguments")
  | .qualifiedName => return .qualifiedName (← r.id "left") (← r.id "right")
  | .arrayType => return .arrayType (← r.id "element_type")
  | .indexedAccessType =>
    return .indexedAccessType (← r.id "object_type") (← r.id "index_type")
  | .unionType => return .unionType (← r.ids "types")
  | .intersectionType => return .intersectionType (← r.ids "types")
  | .tupleType => return .tupleType (← r.ids "element_types")
  | .literalType => return .literalType (← r.id "literal")
  | .typeLiteral => return .typeLiteral (← r.ids "members")
  | .propertySignature =>
    return .propertySignature
      { key := ← r.id "key", computed := r.flag "computed", optional := r.flag "optional",
        readonly := r.flag "readonly", typeAscription := ← r.id? "type_annotation" }
  | .methodSignature =>
    return .methodSignature (← r.id "key") (← r.ids "params") (← r.id? "return_type")
  | .functionType => return .functionType (← r.ids "params") (← r.id "return_type")
  | .typeQuery => return .typeQuery (← r.id "expr_name")
  | .typeOperator => return .typeOperator (r.text "operator") (← r.id "type_annotation")
  | .declareFunction =>
    return .declareFunction
      { id := ← r.id? "id", params := ← r.ids "params", returnType := ← r.id? "return_type",
        isAsync := r.flag "is_async" }
  | .typeAliasDeclaration =>
    return .typeAliasDeclaration (← r.id "id") (← r.id "type_annotation")
  | .interfaceDeclaration =>
    return .interfaceDeclaration (← r.id "id") (← r.ids "extends") (← r.ids "body")
  | .stringKeyword => return .typeWord .string
  | .numberKeyword => return .typeWord .number
  | .booleanKeyword => return .typeWord .boolean
  | .anyKeyword => return .typeWord .any
  | .unknownKeyword => return .typeWord .unknown
  | .voidKeyword => return .typeWord .void
  | .neverKeyword => return .typeWord .never
  | .nullKeyword => return .typeWord .null
  | .undefinedKeyword => return .typeWord .undefined
  | .objectKeyword => return .typeWord .object
  | .symbolKeyword => return .typeWord .symbol
  | .bigIntKeyword => return .typeWord .bigInt
  | .unknown => return .foreign type.name

/-- The node of a record. A kind that is not known makes a foreign node. -/
def ofRecord (typeName : String) (r : Reader) : Except RecordError Node :=
  match NodeType.ofName? typeName with
  | some type => ofFields type r
  | none => .ok (.foreign typeName)

end Node
end ScriptLint
