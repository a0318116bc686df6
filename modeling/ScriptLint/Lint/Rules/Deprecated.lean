import ScriptLint.Lint.Rules.BestPractice
import ScriptLint.Lint.Rules.Style

namespace ScriptLint
namespace Rules

/-- Any literal as default after `||`. -/
def legacyPreferNullishCoalescing : Rule where
  name := "legacy-prefer-nullish-coalescing"
  code := "S9001"
  description := "Prefer '??' over '||' whenever the default is a literal"
  category := .deprecated
  severity := .off
  fixable := true
  listeners := [.logicalExpression]
  check _ d id :=
    match d.tree.node id with
    | .logicalExpression .or _ right =>
      if (d.tree.literalValue? right).isSome then some (nullishReport d id) else none
    | _ => none

/-- The name that guards a plain property of itself, `id && id.name`. -/
def guardedName? (t : Tree) (left right : NodeId) : Option String := do
  let name ← t.identifierName? left
  let member ← t.member? right
  guard (!member.computed && !member.optional && t.identifierName? member.object == some name)
  return name

/-- A name that guards a plain property of itself. -/
def legacyPreferOptionalChain : Rule where
  name := "legacy-prefer-optional-chain"
  code := "S9002"
  description := "Prefer 'a?.b' over 'a && a.b'"
  category := .deprecated
  severity := .off
  fixable := true
  listeners := [.logicalExpression]
  check _ d id :=
    match d.tree.node id with
    | .logicalExpression .and left right =>
      (guardedName? d.tree left right).map fun name =>
        { node := id
          message := s!"Prefer '{name}?.' over an '&&' guard"
          fix := (d.withOptionalAccess? right right).bind (d.replace? id) }
    | _ => none

/-- Whether the node is an async function expression or arrow function. -/
def isAsyncExpression (t : Tree) (id : NodeId) : Bool :=
  match t.node id with
  | .functionExpression f => f.isAsync
  | .arrowFunctionExpression f => f.isAsync
  | _ => false

/-- The name without suffix that `const` or `let` bind to an async function. -/
def boundAsyncName? (t : Tree) (suffix : String) (id : NodeId) : Option String :=
  match t.node id, (t.parent id).map t.node with
  | .variableDeclarator pattern (some init), some (.variableDeclaration kind _) =>
    (t.identifierName? pattern).filter fun name =>
      kind != .varKind && isAsyncExpression t init && !suffix.toList.isSuffixOf name.toList
  | _, _ => none

/-- An async function without the suffix of such names, also if it is bound to a variable. -/
def legacyAsyncFunctionNaming : Rule where
  name := "legacy-async-function-naming"
  code := "S9003"
  description := "Require async functions and async function bindings to end with a suffix"
  category := .deprecated
  severity := .off
  fixable := false
  listeners := [.functionDeclaration, .variableDeclarator]
  check options d id :=
    let suffix := options.asyncSuffix
    ((d.tree.asyncNameWithout? suffix id).or (boundAsyncName? d.tree suffix id)).map fun name =>
      { node := id, message := asyncNameMessage name suffix }

end Rules
end ScriptLint
