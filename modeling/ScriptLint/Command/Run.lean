import ScriptLint.Command.Arguments
import ScriptLint.Command.FileTree
import ScriptLint.Command.Json
import ScriptLint.Command.Styled
import ScriptLint.Lint.Linter

namespace ScriptLint
namespace Command

/-- Where the program runs. -/
structure Environment where
  /-- The working directory. -/
  directory : Place
  /-- Whether colours are switched off for all programs. -/
  noColor : Bool
  /-- Whether the output goes to a terminal. -/
  terminal : Bool

/-- What the program did. -/
structure Outcome where
  exit : Nat
  stdout : String := ""
  stderr : String := ""
  tree : FileTree

/-- The name of settings files. -/
def settingsName : String := "sift.toml"

/-- The path of a place from the root. -/
def absolutePath (place : Place) : String := "/" ++ "/".intercalate place

/-- The settings file nearest to a directory, in it or above it. -/
def findSettings? (t : FileTree) (directory : Place) : Option Place :=
  let candidates := (List.range (directory.length + 1)).reverse.map fun length =>
    directory.take length ++ [settingsName]
  candidates.find? t.isFile

/-- The settings in the file at a place. -/
def readSettings? (t : FileTree) (place : Option Place) : Option Settings := do
  match Settings.ofText (← t.text? (← place)) with
  | .ok settings => some settings
  | .error _ => none

/-- The settings of a run: from the file that was named, else from the nearest one, else the usual
ones. The error is the path of a file that cannot be read. -/
def loadSettings (t : FileTree) (directory : Place) : Option String → Except String Settings
  | some path => (readSettings? t (t.resolve? directory path)).elim (.error path) .ok
  | none =>
    match findSettings? t directory with
    | some place => (readSettings? t (some place)).elim (.error (absolutePath place)) .ok
    | none => .ok {}

/-- Whether styled pieces show their style. -/
def usesColors (env : Environment) (choice : Option ColorWhen) : Bool :=
  !env.noColor && match choice.getD .auto with
    | .always => true
    | .never => false
    | .auto => env.terminal

/-- A file with something to report. -/
structure FileReport where
  path : String
  diagnostics : List Diagnostic

/-- What a run has found and done so far. -/
structure Totals where
  errors : Nat := 0
  warnings : Nat := 0
  fixable : Nat := 0
  fixedIssues : Nat := 0
  fixedFiles : Nat := 0
  reports : List FileReport := []
  tree : FileTree

/-- Counts the diagnostics of a file. -/
def Totals.add (totals : Totals) (path : String) (diagnostics : List Diagnostic) : Totals :=
  { totals with
    errors := totals.errors + diagnostics.countP (·.severity == .error)
    warnings := totals.warnings + diagnostics.countP (·.severity == .warn)
    fixable := totals.fixable + diagnostics.countP (·.fix.isSome)
    reports := if diagnostics.isEmpty then totals.reports
      else totals.reports ++ [{ path, diagnostics }] }

/-- Fixes one file and counts what is left. -/
def Totals.addFixed (totals : Totals) (settings : Settings) (place : Place) (path : String)
    (source : List Char) : Totals :=
  let outcome := settings.fixSource path source
  let totals := if outcome.output = source then totals
    else { totals with
      fixedIssues := totals.fixedIssues + outcome.fixesApplied
      fixedFiles := totals.fixedFiles + 1
      tree := totals.tree.write place outcome.output }
  totals.add path outcome.diagnostics

/-- Lints one file. A file that cannot be read counts as an error. -/
def lintFile (settings : Settings) (directory : Place) (fix : Bool) (totals : Totals)
    (path : String) : Totals :=
  match totals.tree.resolve? directory path with
  | none => { totals with errors := totals.errors + 1 }
  | some place =>
    match totals.tree.text? place with
    | none => { totals with errors := totals.errors + 1 }
    | some source =>
      if fix then totals.addFixed settings place path source
      else totals.add path (settings.lintSource path source)

def spanJson (span : Span) : Json :=
  .object [("start", .number span.start), ("end", .number span.stop), ("line", .number span.line),
    ("column", .number span.column)]

def fixJson (fix : Fix) : Json :=
  .object [("span", spanJson fix.span), ("replacement", .string (String.ofList fix.replacement))]

def diagnosticJson (d : Diagnostic) : Json :=
  .object [("rule", .string d.rule), ("code", .string d.code), ("message", .string d.message),
    ("span", spanJson d.span), ("severity", .string d.severity.name),
    ("fix", (d.fix.map fixJson).getD .null), ("notes", .array (d.notes.map .string))]

def reportJson (r : FileReport) : Json :=
  .object [("file", .string r.path), ("diagnostics", .array (r.diagnostics.map diagnosticJson))]

/-- A diagnostic for reading: what and where, then the notes and the replacement. -/
def diagnosticPieces (path : String) (d : Diagnostic) : List Piece :=
  let kind := match d.severity with
    | .error => "error"
    | _ => "warning"
  let fix := d.fix.map fun fix => s!"fix: replace with `{String.ofList fix.replacement}`"
  let note (text : String) : Piece :=
    .plain ("  = " ++ "\n    ".intercalate (text.splitOn "\n") ++ "\n")
  [.plain s!"{kind}[{d.code}]: {d.message}\n",
   .plain s!"  ┌─ {path}:{d.span.line}:{d.span.column}\n"] ++
    (d.notes ++ fix.toList).map note ++ [.newline]

/-- How many issues were fixed, or could be. -/
def fixStatus (totals : Totals) (fix : Bool) : List Piece :=
  if fix then
    if totals.fixedIssues == 0 then []
    else
      let issues := plural totals.fixedIssues "issue"
      let files := plural totals.fixedFiles "file"
      [.newline, .success s!"Fixed {issues} in {files}.", .newline]
  else if totals.fixable == 0 then []
  else
    let issues := plural totals.fixable "issue"
    [.newline, .info s!"{issues} auto-fixable. Run `sift lint --fix` to apply.", .newline]

/-- The last line: files, errors and warnings. -/
def summary (totals : Totals) (files : Nat) : List Piece :=
  let errors := if totals.errors == 0 then [] else [.error (plural totals.errors "error")]
  let warnings :=
    if totals.warnings == 0 then [] else [.warning (plural totals.warnings "warning")]
  let counts := match errors, warnings with
    | [], [] => [.success "no issues found."]
    | [], counts | counts, [] => counts ++ [.plain "."]
    | errors, warnings => errors ++ .plain ", " :: warnings ++ [.plain "."]
  [.newline, .plain ("Linted " ++ plural files "file"), .plain ": "] ++ counts ++ [.newline]

/-- What is printed about a run. -/
def Totals.output (totals : Totals) (g : Given) (colors : Bool) (files : Nat) : String :=
  match g.format.getD .pretty with
  | .json => (Json.array (totals.reports.map reportJson)).pretty ++ "\n"
  | .pretty =>
    let reports := totals.reports.flatMap fun report =>
      report.diagnostics.flatMap (diagnosticPieces report.path)
    render colors (reports ++ fixStatus totals g.fix ++ summary totals files)

/-- Lints the source files that the paths stand for. The run fails if an error is left. -/
def runLint (env : Environment) (t : FileTree) (g : Given) : Outcome :=
  match loadSettings t env.directory g.config with
  | .error path => { exit := 1, stderr := s!"Error: invalid config {path}\n", tree := t }
  | .ok settings =>
    let paths := if g.paths.isEmpty then ["."] else g.paths
    match collectSourceFiles t env.directory paths with
    | .error path => { exit := 1, stderr := s!"Error: path not found: {path}\n", tree := t }
    | .ok [] =>
      { exit := 1, stderr := "No JavaScript or TypeScript files found.\n", tree := t }
    | .ok files =>
      let totals := files.foldl (lintFile settings env.directory g.fix) { tree := t }
      { exit := if totals.errors == 0 then 0 else 1
        stdout := totals.output g (usesColors env g.color) files.length
        tree := totals.tree }

def ruleJson (rule : Rule) : Json :=
  .object [("id", .string rule.name), ("code", .string rule.code),
    ("category", .string rule.category.name), ("severity", .string rule.severity.name),
    ("fixable", .bool rule.fixable), ("description", .string rule.description)]

/-- One line about a rule, its name padded to a width. -/
def rulePieces (width : Nat) (rule : Rule) : List Piece :=
  let severity := padRight 5 rule.severity.name
  [.dim (rule.code ++ "  "), .bold (padRight width rule.name),
   .plain ("  " ++ padRight 14 rule.category.name),
   match rule.severity with
   | .error => .error severity
   | .warn => .warning severity
   | .off => .dim severity] ++
  (if rule.fixable then [.info "  fixable"] else []) ++ [.newline]

/-- Lists the rules. -/
def rulesOutput (format : Format) (colors : Bool) : String :=
  match format with
  | .json => (Json.array (Rules.all.map ruleJson)).pretty ++ "\n"
  | .pretty =>
    let width := (Rules.all.map (·.name.length)).foldl max 0
    let count := Rules.all.length
    render colors (Rules.all.flatMap (rulePieces width) ++
      [.newline, .plain s!"{count} rules in plugin '{Rules.pluginName}'.", .newline])

/-- How the program is called. -/
def usage : String :=
  "Usage: sift lint [--fix] [--format pretty|json] [--config FILE] [--color auto|always|never]" ++
  " [PATHS]...\n       sift rules [--format pretty|json] [--color auto|always|never]\n"

/-- Runs the program. Arguments that make no sense end it with status two. -/
def run (env : Environment) (t : FileTree) (arguments : List String) : Outcome :=
  match parseArguments arguments with
  | none => { exit := 2, stderr := usage, tree := t }
  | some .help => { exit := 0, stdout := usage, tree := t }
  | some .version => { exit := 0, stdout := "sift 0.1.0\n", tree := t }
  | some (.lint given) => runLint env t given
  | some (.rules given) =>
    { exit := 0, tree := t,
      stdout := rulesOutput (given.format.getD .pretty) (usesColors env given.color) }

end Command
end ScriptLint
