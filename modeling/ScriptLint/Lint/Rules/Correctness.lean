import ScriptLint.Lint.Predicate
import ScriptLint.Lint.Rule

namespace ScriptLint
namespace Rules

/-- A file operation whose promise is neither awaited nor handled. -/
def requireErrorHandling : Rule where
  name := "require-error-handling"
  code := "S1001"
  description := "Require fallible file operations to be awaited or handled"
  category := .correctness
  severity := .error
  fixable := false
  listeners := [.callExpression]
  check options d id :=
    match d.tree.node id with
    | .callExpression callee _ _ =>
      if d.tree.isNamespaceCall options.fileNamespace options.fileOperations id &&
          !d.tree.isAwaited id && !d.tree.isHandled id then
        let operation := String.ofList (d.text callee)
        some {
          node := id
          message := s!"'{operation}' can fail, but its result is neither awaited nor handled"
          notes := ["Await the call inside try/catch, or attach a .catch() handler"] }
      else none
    | _ => none

/-- `new Error(…)` around a text. -/
def wrapInError (argument : List Char) : List Char :=
  "new Error(".toList ++ argument ++ [')']

/-- Strings, numbers and templates: reasons that can be given to an error as its message. -/
def isMessage (t : Tree) (id : NodeId) : Bool :=
  match t.node id with
  | .literal (.string _) _ | .literal (.number _) _ | .templateLiteral .. => true
  | _ => false

/-- A promise rejected with something that is no error. -/
def preferPromiseRejectErrors : Rule where
  name := "prefer-promise-reject-errors"
  code := "S1002"
  description := "Require Error objects as Promise rejection reasons"
  category := .correctness
  severity := .warn
  fixable := true
  listeners := [.callExpression]
  check options d id :=
    match d.tree.node id with
    | .callExpression _ (reason :: _) _ =>
      if d.tree.isPromiseReject id && !d.tree.isConstructionOf options.errorClasses reason then
        some {
          node := id
          message := "Expected the Promise rejection reason to be an Error"
          fix := if isMessage d.tree reason then d.replace? reason (wrapInError (d.text reason))
            else none }
      else none
    | _ => none

end Rules
end ScriptLint
