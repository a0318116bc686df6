import ScriptLint.Lint.Registry
import ScriptLint.Toml.Document

namespace ScriptLint

/-- What a run of the rules depends on beside the document. -/
structure Settings where
  /-- Severities that differ from those of the rules, the latest first. -/
  overrides : List (String × Severity) := []
  options : Options := {}
  /-- How many rounds of fixes a document gets at most. -/
  maxFixPasses : Nat := 10

/-- What is wrong with written settings. -/
inductive SettingsError where
  /-- The document is malformed, or a value in it is of the wrong kind. -/
  | malformed
  | unknownRule (name : String)
  | invalidSeverity (rule value : String)
  deriving DecidableEq

namespace SettingsError

def message : SettingsError → String
  | .malformed => "failed to parse config"
  | .unknownRule name => s!"unknown rule '{name}'"
  | .invalidSeverity rule value =>
    s!"invalid severity '{value}' for rule '{rule}' (expected off, warn or error)"

end SettingsError

namespace Toml.Value

def string? : Value → Option String
  | .string text => some text
  | _ => none

def strings? : Value → Option (List String)
  | .array items => items.mapM string?
  | _ => none

/-- A number that is not negative. -/
def count? : Value → Option Nat
  | .integer value => if 0 ≤ value then some value.toNat else none
  | _ => none

/-- The entries of a table. A date counts as a table with one entry of a name that nothing else
has. -/
def entries? : Value → Option Entries
  | .table _ entries => some entries
  | .date => some [("$__toml_private_datetime", .string "")]
  | _ => none

/-- The values of a section by the names of its fields. A section may also be a list with a value
for each field in turn. -/
def section? (fields : List String) : Value → Option Entries
  | .array items => if fields.length ≤ items.length then some (fields.zip items) else none
  | value => value.entries?

end Toml.Value

namespace Settings

open Toml

/-- Gives a rule a severity. -/
def setSeverity (s : Settings) (rule : String) (severity : Severity) : Settings :=
  { s with overrides := (rule, severity) :: s.overrides.filter (·.1 != rule) }

/-- The severity of a rule, `default` unless it was given another one. -/
def severityOf (s : Settings) (rule : String) (default : Severity) : Severity :=
  (s.overrides.lookup rule).getD default

/-- Whether a rule was switched off. -/
def isDisabled (s : Settings) (rule : String) : Bool := s.overrides.lookup rule == some .off

/-- Reads the value of a field, if the field is there. -/
def field {α : Type} (entries : Entries) (name : String) (read : Value → Option α) :
    Except SettingsError (Option α) :=
  match entries.lookup name with
  | none => .ok none
  | some value =>
    match read value with
    | some a => .ok (some a)
    | none => .error .malformed

/-- The severities of a document, by the names of the rules in order. -/
def rules (entries : Entries) : Except SettingsError (List (String × String)) := do
  let written ← field entries "rules" fun value => do
    (← value.entries?).mapM fun (name, value) => (value.string?).map (name, ·)
  return (written.getD []).mergeSort fun a b => a.1 ≤ b.1

/-- The section of a document with these fields. -/
def sectionOf (entries : Entries) (name : String) (fields : List String) :
    Except SettingsError Entries := do
  return (← field entries name (Value.section? fields)).getD []

/-- Gives a rule the severity that is written for it. -/
def applyRule (s : Settings) (entry : String × String) : Except SettingsError Settings :=
  let (name, value) := entry
  if (Rules.find? name).isNone then .error (.unknownRule name)
  else match Severity.parse? value with
    | some severity => .ok (s.setSeverity name severity)
    | none => .error (.invalidSeverity name value)

/-- Reads the text of a settings file. -/
def ofText (text : List Char) : Except SettingsError Settings := do
  match Toml.parse? text with
  | none => throw .malformed
  | some entries =>
    let written ← rules entries
    let names ← sectionOf entries "options"
      ["async-suffix", "error-classes", "file-namespace", "file-operations"]
    let asyncSuffix ← field names "async-suffix" Value.string?
    let errorClasses ← field names "error-classes" Value.strings?
    let fileNamespace ← field names "file-namespace" Value.string?
    let fileOperations ← field names "file-operations" Value.strings?
    let limits ← sectionOf entries "fix" ["max-passes"]
    let maxPasses ← field limits "max-passes" Value.count?
    let s ← written.foldlM applyRule {}
    let base : Options := {}
    return { s with
      options := {
        asyncSuffix := asyncSuffix.getD base.asyncSuffix
        errorClasses := errorClasses.getD base.errorClasses
        fileNamespace := fileNamespace.getD base.fileNamespace
        fileOperations := fileOperations.getD base.fileOperations }
      maxFixPasses := maxPasses.getD s.maxFixPasses }

end Settings
end ScriptLint
