import ScriptLint.Lint.Document

namespace ScriptLint

/-- How much a diagnostic counts. -/
inductive Severity where
  /-- The rule is not applied. -/
  | off
  | warn
  | error
  deriving DecidableEq

namespace Severity

def name : Severity → String
  | .off => "off"
  | .warn => "warn"
  | .error => "error"

/-- Reads `off`, `warn`, `warning` or `error`, in letters of either case. -/
def parse? (text : String) : Option Severity :=
  match text.toLower with
  | "off" => some .off
  | "warn" | "warning" => some .warn
  | "error" => some .error
  | _ => none

end Severity

/-- What a rule is about. -/
inductive Category where
  /-- Likely bugs and failures that nobody handles. -/
  | correctness
  /-- Names and layout. -/
  | style
  /-- Idioms of the language. -/
  | bestPractice
  /-- Older variants of other rules. -/
  | deprecated
  deriving DecidableEq

namespace Category

def name : Category → String
  | .correctness => "correctness"
  | .style => "style"
  | .bestPractice => "best-practice"
  | .deprecated => "deprecated"

end Category

/-- Names that rules compare with. -/
structure Options where
  /-- What names of async functions end in. -/
  asyncSuffix : String := "Async"
  /-- Classes whose instances are errors. -/
  errorClasses : List String :=
    ["Error", "TypeError", "RangeError", "SyntaxError", "ReferenceError", "EvalError", "URIError",
     "AggregateError", "DOMException"]
  /-- The object whose methods are file operations. -/
  fileNamespace : String := "Deno"
  /-- File operations that may fail. -/
  fileOperations : List String :=
    ["readTextFile", "writeTextFile", "readFile", "writeFile", "remove", "mkdir", "rename",
     "copyFile", "stat", "lstat", "readDir", "open", "create", "truncate", "symlink", "link",
     "chmod", "chown", "realPath", "readLink", "makeTempFile", "makeTempDir", "utime"]

/-- A defect of a document. -/
structure Report where
  /-- The node at fault. -/
  node : NodeId
  message : String
  fix : Option Fix := none
  notes : List String := []

/-- A rule with its description. -/
structure Rule where
  name : String
  code : String
  description : String
  category : Category
  /-- How much its diagnostics count unless the settings say otherwise. -/
  severity : Severity
  /-- Whether its reports may come with a fix. -/
  fixable : Bool
  /-- The types of nodes that it looks at. -/
  listeners : List NodeType
  check : Options → Document → NodeId → Option Report
  /-- Whether checking a node comes to an end. Some checks follow a field from node to node without
  noting where they have been. -/
  ends : Document → NodeId → Bool := fun _ _ => true

/-- A report under the name and severity of its rule. -/
structure Diagnostic where
  rule : String
  code : String
  message : String
  span : Span
  severity : Severity
  fix : Option Fix
  notes : List String
  deriving DecidableEq

namespace Rule

/-- The diagnostic of a rule for a node. A node without a range is reported at no place. -/
def diagnose (rule : Rule) (options : Options) (severity : Severity) (d : Document)
    (id : NodeId) : Option Diagnostic :=
  (rule.check options d id).map fun report =>
    { rule := rule.name, code := rule.code, message := report.message,
      span := (d.tree.range report.node).getD .zero, severity, fix := report.fix,
      notes := report.notes }

end Rule
end ScriptLint
