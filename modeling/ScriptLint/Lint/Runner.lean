import ScriptLint.Lint.Settings

namespace ScriptLint

/-- For each type of nodes the places of the rules that look at it, the first registered first. -/
abbrev Dispatch := List (NodeType × List Nat)

namespace Dispatch

/-- Puts the place of a rule after the others of a type. -/
def enter (index : Nat) : Dispatch → NodeType → Dispatch
  | [], type => [(type, [index])]
  | (type', indices) :: rest, type =>
    if type' = type then (type', indices ++ [index]) :: rest
    else (type', indices) :: enter index rest type

/-- The places of the rules that look at nodes of a type. -/
def indices (table : Dispatch) (type : NodeType) : List Nat := (table.lookup type).getD []

end Dispatch

/-- The rules that are applied, each with its severity, and which nodes they are shown. -/
structure Runner where
  options : Options
  rules : Array (Rule × Severity) := #[]
  dispatch : Dispatch := []

namespace Runner

/-- Registers a rule, unless it is switched off. -/
def register (r : Runner) (rule : Rule) (severity : Severity) : Runner :=
  if severity = .off then r
  else { r with
    rules := r.rules.push (rule, severity)
    dispatch := rule.listeners.foldl (Dispatch.enter r.rules.size) r.dispatch }

/-- Registers rules with the severities that the settings give them. -/
def registerAll (s : Settings) (rules : List Rule) (r : Runner) : Runner :=
  rules.foldl (fun r rule => r.register rule (s.severityOf rule.name rule.severity)) r

/-- All rules under the settings. The options are those that the rules were made with. -/
def ofSettings (options : Options) (s : Settings) : Runner := registerAll s Rules.all { options }

/-- Shows a node to the rules that look at its type. -/
def visit (r : Runner) (d : Document) (id : NodeId) : List Diagnostic :=
  (r.dispatch.indices (d.tree.nodeType id)).filterMap fun index =>
    r.rules[index]?.bind fun (rule, severity) => rule.diagnose r.options severity d id

/-- The diagnostics of a document in the order of their places. Those of one place stay in the
order in which nodes and rules come. -/
def run (r : Runner) (d : Document) : List Diagnostic :=
  (d.tree.preorder.flatMap (r.visit d)).mergeSort fun a b => a.span.start ≤ b.span.start

/-- Whether all rules that a node is shown to come to an end there. -/
def endsAt (r : Runner) (d : Document) (id : NodeId) : Bool :=
  (r.dispatch.indices (d.tree.nodeType id)).all fun index =>
    (r.rules[index]?.map fun (rule, _) => rule.ends d id).getD true

/-- The diagnostics of a document, if the rules come to an end on it. -/
def run? (r : Runner) (d : Document) : Option (List Diagnostic) :=
  if d.tree.preorder.all (r.endsAt d) then some (r.run d) else none

end Runner
end ScriptLint
