import ScriptLint.Tree.Shape

namespace ScriptLint
namespace Tree

/-- The parts of a pattern that bind names. -/
def patternParts (t : Tree) (id : NodeId) : List NodeId :=
  match t.node id with
  | .objectPattern properties _ => properties
  | .property p => [p.value]
  | .arrayPattern elements _ => elements.filterMap fun element => element
  | .assignmentPattern left _ => [left]
  | .restElement argument _ => [argument]
  | _ => []

/-- The names that a pattern binds. -/
def patternNames (t : Tree) (id : NodeId) : List String :=
  (t.walk t.patternParts id).filterMap t.identifierName?

def declaratorPattern? (t : Tree) (id : NodeId) : Option NodeId :=
  match t.node id with
  | .variableDeclarator pattern _ => some pattern
  | _ => none

/-- The patterns of the variables that a statement declares; a `var` counts if `hoisted` is set. -/
def declaredPatterns (t : Tree) (hoisted : Bool) (id : NodeId) : List NodeId :=
  match t.node id with
  | .variableDeclaration kind declarations =>
    if !hoisted && kind == .varKind then [] else declarations.filterMap t.declaratorPattern?
  | _ => []

/-- The names that a statement binds around it; a `var` counts if `hoisted` is set. -/
def declaredNames (t : Tree) (hoisted : Bool) (id : NodeId) : List String :=
  match t.node id with
  | .functionDeclaration f => (f.id.bind t.identifierName?).toList
  | .classDeclaration c => (c.id.bind t.identifierName?).toList
  | _ => (t.declaredPatterns hoisted id).flatMap t.patternNames

def parameters (t : Tree) (id : NodeId) : List NodeId :=
  match t.node id with
  | .functionDeclaration f | .functionExpression f => f.params
  | .arrowFunctionExpression f => f.params
  | _ => []

def isVar (t : Tree) (id : NodeId) : Bool :=
  match t.node id with
  | .variableDeclaration .varKind _ => true
  | _ => false

/-- The patterns whose names are bound in all of a function: its parameters, and every `var` that no
inner function holds. -/
def functionPatterns (t : Tree) (function : NodeId) : List NodeId :=
  t.parameters function ++
    ((t.descendants function).filter fun id =>
      t.isVar id && t.enclosingFunction? id == some function).flatMap (t.declaredPatterns true)

/-- The statements of a block or program. -/
def statements (t : Tree) (id : NodeId) : List NodeId :=
  match t.node id with
  | .blockStatement body | .program body => body
  | _ => []

/-- The statements beside a statement. -/
def siblings (t : Tree) (id : NodeId) : List NodeId :=
  (((t.parent id).map t.statements).getD []).filter (· != id)

/-- The patterns whose names are bound in all of the function around a statement. -/
def patternsAround (t : Tree) (id : NodeId) : List NodeId :=
  ((t.enclosingFunction? id).map t.functionPatterns).getD []

/-- The names bound around a statement: by the statements beside it and by its function. -/
def namesAround (t : Tree) (id : NodeId) : List String :=
  (t.siblings id).flatMap (t.declaredNames true) ++ (t.patternsAround id).flatMap t.patternNames

/-- Whether statements moved out to where `id` stands would bind a name a second time. -/
def rebinds (t : Tree) (id : NodeId) (moved : List NodeId) : Bool :=
  let taken := t.namesAround id
  (moved.flatMap (t.declaredNames false)).any taken.contains

/-- The patterns whose names are asked for when statements are moved out to where `id` stands. Those
around `id` are not asked if the statements bind no name. -/
def rebindingPatterns (t : Tree) (id : NodeId) (moved : List NodeId) : List NodeId :=
  moved.flatMap (t.declaredPatterns false) ++
    if (moved.flatMap (t.declaredNames false)).isEmpty then []
    else (t.siblings id).flatMap (t.declaredPatterns true) ++ t.patternsAround id

end Tree
end ScriptLint
