import ScriptLint.Lint.Apply
import ScriptLint.Lint.Runner
import ScriptLint.Parse.Program

namespace ScriptLint

namespace Settings

/-- The diagnostics of a document. -/
def lint (s : Settings) (d : Document) : List Diagnostic := (Runner.ofSettings s.options s).run d

/-- The diagnostics of a document whose tree may be any tree. There are none if a rule does not come
to an end on it, as it may happen on a tree with a cycle. -/
def lintTree? (s : Settings) (d : Document) : Option (List Diagnostic) :=
  (Runner.ofSettings s.options s).run? d

/-- A defect that keeps a text from having a tree, as a diagnostic. -/
def ofSourceError (e : SourceError) : Diagnostic where
  rule := "parse-error"
  code := "S0001"
  message := e.message
  span := e.span
  severity := .error
  fix := none
  notes := []

/-- The diagnostics of a text. -/
def lintSource (s : Settings) (path : String) (source : List Char) : List Diagnostic :=
  match parse source with
  | .ok tree => s.lint { path, source, tree }
  | .error errors => errors.map ofSourceError

end Settings

/-- A text after some rounds of fixes. -/
structure FixOutcome where
  output : List Char
  /-- Fixes applied in all rounds. -/
  fixesApplied : Nat := 0
  /-- Rounds in which a fix was applied. -/
  passes : Nat := 0
  /-- What is left to report on the output. -/
  diagnostics : List Diagnostic

namespace Settings

/-- Applies the fixes of the diagnostics, if that gives a text with a tree. -/
def fixRound? (s : Settings) (path : String) (o : FixOutcome) : Option FixOutcome :=
  let round := applyFixes o.output (o.diagnostics.filterMap (·.fix))
  if round.applied = 0 then none
  else match parse round.output with
    | .error _ => none
    | .ok tree => some {
        output := round.output
        fixesApplied := o.fixesApplied + round.applied
        passes := o.passes + 1
        diagnostics := s.lint { path, source := round.output, tree } }

/-- Applies fixes for at most `limit` rounds more. -/
def fixRounds (s : Settings) (path : String) : Nat → FixOutcome → FixOutcome
  | 0, o => o
  | limit + 1, o =>
    match s.fixRound? path o with
    | none => o
    | some next => fixRounds s path limit next

/-- Applies fixes to a text until none applies, the limit on rounds is reached, or a round would
leave a text without a tree. -/
def fixSource (s : Settings) (path : String) (source : List Char) : FixOutcome :=
  s.fixRounds path s.maxFixPasses
    { output := source, diagnostics := s.lintSource path source }

end Settings
end ScriptLint
