
namespace ScriptLint

/-- The kind of a node. -/
inductive NodeType where
  | program
  | expressionStatement
  | blockStatement
  | emptyStatement
  | debuggerStatement
  | variableDeclaration
  | variableDeclarator
  | functionDeclaration
  | returnStatement
  | ifStatement
  | forStatement
  | forInStatement
  | forOfStatement
  | whileStatement
  | doWhileStatement
  | breakStatement
  | continueStatement
  | labeledStatement
  | throwStatement
  | tryStatement
  | catchClause
  | switchStatement
  | switchCase
  | classDeclaration
  | classExpression
  | classBody
  | methodDefinition
  | propertyDefinition
  | importDeclaration
  | importSpecifier
  | importDefaultSpecifier
  | importNamespaceSpecifier
  | exportNamedDeclaration
  | exportDefaultDeclaration
  | exportAllDeclaration
  | exportSpecifier
  | identifier
  | literal
  | templateLiteral
  | templateElement
  | taggedTemplateExpression
  | arrayExpression
  | objectExpression
  | property
  | spreadElement
  | functionExpression
  | arrowFunctionExpression
  | unaryExpression
  | updateExpression
  | binaryExpression
  | logicalExpression
  | assignmentExpression
  | conditionalExpression
  | callExpression
  | newExpression
  | memberExpression
  | chainExpression
  | sequenceExpression
  | awaitExpression
  | yieldExpression
  | thisExpression
  | superExpression
  | parenthesizedExpression
  | arrayPattern
  | objectPattern
  | assignmentPattern
  | restElement
  | asExpression
  | nonNullExpression
  | typeAscription
  | typeReference
  | qualifiedName
  | arrayType
  | indexedAccessType
  | unionType
  | intersectionType
  | tupleType
  | literalType
  | typeLiteral
  | propertySignature
  | methodSignature
  | functionType
  | typeQuery
  | typeOperator
  | declareFunction
  | typeAliasDeclaration
  | interfaceDeclaration
  | stringKeyword
  | numberKeyword
  | booleanKeyword
  | anyKeyword
  | unknownKeyword
  | voidKeyword
  | neverKeyword
  | nullKeyword
  | undefinedKeyword
  | objectKeyword
  | symbolKeyword
  | bigIntKeyword
  /-- A kind that this library has no model of. -/
  | unknown
  deriving DecidableEq

namespace NodeType

/-- Every kind but `unknown`. -/
def all : List NodeType :=
  [.program, .expressionStatement, .blockStatement, .emptyStatement, .debuggerStatement,
   .variableDeclaration, .variableDeclarator, .functionDeclaration, .returnStatement,
   .ifStatement, .forStatement, .forInStatement, .forOfStatement, .whileStatement,
   .doWhileStatement, .breakStatement, .continueStatement, .labeledStatement, .throwStatement,
   .tryStatement, .catchClause, .switchStatement, .switchCase, .classDeclaration,
   .classExpression, .classBody, .methodDefinition, .propertyDefinition, .importDeclaration,
   .importSpecifier, .importDefaultSpecifier, .importNamespaceSpecifier,
   .exportNamedDeclaration, .exportDefaultDeclaration, .exportAllDeclaration, .exportSpecifier,
   .identifier, .literal, .templateLiteral, .templateElement, .taggedTemplateExpression,
   .arrayExpression, .objectExpression, .property, .spreadElement, .functionExpression,
   .arrowFunctionExpression, .unaryExpression, .updateExpression, .binaryExpression,
   .logicalExpression, .assignmentExpression, .conditionalExpression, .callExpression,
   .newExpression, .memberExpression, .chainExpression, .sequenceExpression, .awaitExpression,
   .yieldExpression, .thisExpression, .superExpression, .parenthesizedExpression, .arrayPattern,
   .objectPattern, .assignmentPattern, .restElement, .asExpression, .nonNullExpression,
   .typeAscription, .typeReference, .qualifiedName, .arrayType, .indexedAccessType, .unionType,
   .intersectionType, .tupleType, .literalType, .typeLiteral, .propertySignature,
   .methodSignature, .functionType, .typeQuery, .typeOperator, .declareFunction,
   .typeAliasDeclaration, .interfaceDeclaration, .stringKeyword, .numberKeyword,
   .booleanKeyword, .anyKeyword, .unknownKeyword, .voidKeyword, .neverKeyword, .nullKeyword,
   .undefinedKeyword, .objectKeyword, .symbolKeyword, .bigIntKeyword]

def name : NodeType → String
  | .program => "Program"
  | .expressionStatement => "ExpressionStatement"
  | .blockStatement => "BlockStatement"
  | .emptyStatement => "EmptyStatement"
  | .debuggerStatement => "DebuggerStatement"
  | .variableDeclaration => "VariableDeclaration"
  | .variableDeclarator => "VariableDeclarator"
  | .functionDeclaration => "FunctionDeclaration"
  | .returnStatement => "ReturnStatement"
  | .ifStatement => "IfStatement"
  | .forStatement => "ForStatement"
  | .forInStatement => "ForInStatement"
  | .forOfStatement => "ForOfStatement"
  | .whileStatement => "WhileStatement"
  | .doWhileStatement => "DoWhileStatement"
  | .breakStatement => "BreakStatement"
  | .continueStatement => "ContinueStatement"
  | .labeledStatement => "LabeledStatement"
  | .throwStatement => "ThrowStatement"
  | .tryStatement => "TryStatement"
  | .catchClause => "CatchClause"
  | .switchStatement => "SwitchStatement"
  | .switchCase => "SwitchCase"
  | .classDeclaration => "ClassDeclaration"
  | .classExpression => "ClassExpression"
  | .classBody => "ClassBody"
  | .methodDefinition => "MethodDefinition"
  | .propertyDefinition => "PropertyDefinition"
  | .importDeclaration => "ImportDeclaration"
  | .importSpecifier => "ImportSpecifier"
  | .importDefaultSpecifier => "ImportDefaultSpecifier"
  | .importNamespaceSpecifier => "ImportNamespaceSpecifier"
  | .exportNamedDeclaration => "ExportNamedDeclaration"
  | .exportDefaultDeclaration => "ExportDefaultDeclaration"
  | .exportAllDeclaration => "ExportAllDeclaration"
  | .exportSpecifier => "ExportSpecifier"
  | .identifier => "Identifier"
  | .literal => "Literal"
  | .templateLiteral => "TemplateLiteral"
  | .templateElement => "TemplateElement"
  | .taggedTemplateExpression => "TaggedTemplateExpression"
  | .arrayExpression => "ArrayExpression"
  | .objectExpression => "ObjectExpression"
  | .property => "Property"
  | .spreadElement => "SpreadElement"
  | .functionExpression => "FunctionExpression"
  | .arrowFunctionExpression => "ArrowFunctionExpression"
  | .unaryExpression => "UnaryExpression"
  | .updateExpression => "UpdateExpression"
  | .binaryExpression => "BinaryExpression"
  | .logicalExpression => "LogicalExpression"
  | .assignmentExpression => "AssignmentExpression"
  | .conditionalExpression => "ConditionalExpression"
  | .callExpression => "CallExpression"
  | .newExpression => "NewExpression"
  | .memberExpression => "MemberExpression"
  | .chainExpression => "ChainExpression"
  | .sequenceExpression => "SequenceExpression"
  | .awaitExpression => "AwaitExpression"
  | .yieldExpression => "YieldExpression"
  | .thisExpression => "ThisExpression"
  | .superExpression => "Super"
  | .parenthesizedExpression => "ParenthesizedExpression"
  | .arrayPattern => "ArrayPattern"
  | .objectPattern => "ObjectPattern"
  | .assignmentPattern => "AssignmentPattern"
  | .restElement => "RestElement"
  | .asExpression => "TSAsExpression"
  | .nonNullExpression => "TSNonNullExpression"
  | .typeAscription => "TSTypeAnnotation"
  | .typeReference => "TSTypeReference"
  | .qualifiedName => "TSQualifiedName"
  | .arrayType => "TSArrayType"
  | .indexedAccessType => "TSIndexedAccessType"
  | .unionType => "TSUnionType"
  | .intersectionType => "TSIntersectionType"
  | .tupleType => "TSTupleType"
  | .literalType => "TSLiteralType"
  | .typeLiteral => "TSTypeLiteral"
  | .propertySignature => "TSPropertySignature"
  | .methodSignature => "TSMethodSignature"
  | .functionType => "TSFunctionType"
  | .typeQuery => "TSTypeQuery"
  | .typeOperator => "TSTypeOperator"
  | .declareFunction => "TSDeclareFunction"
  | .typeAliasDeclaration => "TSTypeAliasDeclaration"
  | .interfaceDeclaration => "TSInterfaceDeclaration"
  | .stringKeyword => "TSStringKeyword"
  | .numberKeyword => "TSNumberKeyword"
  | .booleanKeyword => "TSBooleanKeyword"
  | .anyKeyword => "TSAnyKeyword"
  | .unknownKeyword => "TSUnknownKeyword"
  | .voidKeyword => "TSVoidKeyword"
  | .neverKeyword => "TSNeverKeyword"
  | .nullKeyword => "TSNullKeyword"
  | .undefinedKeyword => "TSUndefinedKeyword"
  | .objectKeyword => "TSObjectKeyword"
  | .symbolKeyword => "TSSymbolKeyword"
  | .bigIntKeyword => "TSBigIntKeyword"
  | .unknown => "Unknown"

/-- The known kind with a name. -/
def ofName? (text : String) : Option NodeType := all.find? (·.name == text)

end NodeType
end ScriptLint
