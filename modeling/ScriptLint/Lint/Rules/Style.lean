import ScriptLint.Lint.AsyncName
import ScriptLint.Lint.EarlyReturn
import ScriptLint.Lint.Rule
import ScriptLint.Lint.TemplateText

namespace ScriptLint
namespace Rules

/-- What is said about an async function that lacks its suffix. -/
def asyncNameMessage (name suffix : String) : String :=
  s!"Async function '{name}' should be named '{name}{suffix}'"

/-- The header of a function declaration with a suffix put to the name. -/
def suffixedHeader? (d : Document) (function : NodeId) (name suffix : String) : Option Fix := do
  let f ← d.tree.function? function
  let start := (← d.tree.range function).start
  let stop := (← d.tree.range (← f.id)).stop
  let header ← AsyncName.addSuffix? (d.slice start stop) name.toList suffix.toList
  d.replaceRange? start stop header

/-- An async function declaration without the suffix of such names. The fix renames the
declaration and leaves its uses alone. -/
def asyncFunctionNaming : Rule where
  name := "async-function-naming"
  code := "S2001"
  description := "Require async function names to end with a suffix"
  category := .style
  severity := .warn
  fixable := true
  listeners := [.functionDeclaration]
  check options d id :=
    (d.tree.asyncNameWithout? options.asyncSuffix id).map fun name =>
      { node := id
        message := asyncNameMessage name options.asyncSuffix
        fix := suffixedHeader? d id name options.asyncSuffix }

/-- Whether the node is the left operand of a sum, which then reports for both. -/
def isInnerSum (t : Tree) (id : NodeId) : Bool :=
  match (t.parent id).map t.node with
  | some (.binaryExpression .add left _) => left == id
  | _ => false

/-- A sum of strings that a template literal can say. -/
def preferTemplateLiteral : Rule where
  name := "prefer-template-literal"
  code := "S2002"
  description := "Prefer template literals over string concatenation"
  category := .style
  severity := .warn
  fixable := true
  listeners := [.binaryExpression]
  check _ d id :=
    if d.tree.isBinary .add id && !isInnerSum d.tree id then
      (d.templatePieces? id).map fun pieces =>
        { node := id
          message := "Prefer a template literal over string concatenation"
          fix := d.replace? id (templateLiteral pieces) }
    else none
  ends d id :=
    if d.tree.isBinary .add id && !isInnerSum d.tree id then
      d.tree.chainEnds d.tree.sumStep? id
    else true

/-- A function that ends in an `if` around another `if`. -/
def preferEarlyReturn : Rule where
  name := "prefer-early-return"
  code := "S2003"
  description := "Prefer guard clauses over nested if statements"
  category := .style
  severity := .warn
  fixable := true
  listeners := [.functionDeclaration, .functionExpression, .arrowFunctionExpression]
  check _ d id :=
    (d.tree.nestedIf? id).map fun (found, branch) =>
      { node := found
        message := "Invert this condition and return early to reduce nesting"
        fix := (d.earlyReturn? found branch).bind (d.replace? found) }
  ends d id :=
    match d.tree.nestedIf? id with
    | some (found, branch) => d.tree.earlyReturnEnds found branch
    | none => true

end Rules
end ScriptLint
