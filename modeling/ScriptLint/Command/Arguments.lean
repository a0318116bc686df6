
namespace ScriptLint
namespace Command

/-- How results are written. -/
inductive Format where
  | pretty
  | json
  deriving DecidableEq

/-- When colours are used. -/
inductive ColorWhen where
  | auto
  | always
  | never
  deriving DecidableEq

def Format.parse? : String → Option Format
  | "pretty" => some .pretty
  | "json" => some .json
  | _ => none

def ColorWhen.parse? : String → Option ColorWhen
  | "auto" => some .auto
  | "always" => some .always
  | "never" => some .never
  | _ => none

/-- Options as far as they were given. -/
structure Given where
  paths : List String := []
  fix : Bool := false
  format : Option Format := none
  config : Option String := none
  color : Option ColorWhen := none

/-- What the program is asked to do. -/
inductive Request where
  | version
  | help
  | lint (given : Given)
  | rules (given : Given)

/-- The two subcommands. `rules` takes no paths, no `--fix` and no `--config`. -/
inductive Subcommand where
  | lint
  | rules
  deriving DecidableEq

/-- Gives an option its value. -/
def Given.set? (g : Given) (command : Subcommand) (option value : String) : Option Given :=
  match option with
  | "--format" =>
    if g.format.isSome then none
    else (Format.parse? value).map fun format => { g with format := some format }
  | "--color" =>
    if g.color.isSome then none
    else (ColorWhen.parse? value).map fun color => { g with color := some color }
  | "--config" =>
    if g.config.isSome || value.isEmpty || command == .rules then none
    else some { g with config := some value }
  | _ => none

/-- Whether an argument is an option. A single hyphen is a path. -/
def isOption (argument : String) : Bool :=
  match argument.toList with
  | '-' :: _ :: _ => true
  | _ => false

/-- Splits `--option=value`. -/
def splitOption? (argument : String) : Option (String × String) :=
  let isMark (c : Char) : Bool := c != '='
  match argument.toList.dropWhile isMark with
  | '=' :: value => some (String.ofList (argument.toList.takeWhile isMark), String.ofList value)
  | _ => none

/-- Adds a path. -/
def Given.addPath? (g : Given) (command : Subcommand) (path : String) : Option Given :=
  if command == .rules then none else some { g with paths := g.paths ++ [path] }

/-- What a subcommand is asked to do. -/
def Subcommand.request (command : Subcommand) (g : Given) : Request :=
  match command with
  | .lint => .lint g
  | .rules => .rules g

/-- Whether an argument asks for help: `--help`, or a group of letters that begins with `h`. -/
def asksForHelp (argument : String) : Bool :=
  argument == "--help" ||
    match argument.toList with
    | '-' :: 'h' :: _ => true
    | _ => false

/-- Reads the arguments after a subcommand. -/
def parseOptions (command : Subcommand) : Given → List String → Option Request
  | g, [] => some (command.request g)
  | g, "--" :: paths => (paths.foldlM (Given.addPath? · command ·) g).map command.request
  | g, argument :: rest =>
    if asksForHelp argument then some .help
    else if argument == "--fix" then
      if g.fix || command == .rules then none else parseOptions command { g with fix := true } rest
    else if !isOption argument then (g.addPath? command argument).bind (parseOptions command · rest)
    else match splitOption? argument with
      | some (option, value) => (g.set? command option value).bind (parseOptions command · rest)
      | none =>
        match rest with
        | [] => none
        | value :: rest =>
          if isOption value then none
          else (g.set? command argument value).bind (parseOptions command · rest)

/-- Reads the arguments of the program, or nothing if they make no sense. -/
def parseArguments : List String → Option Request
  | [] => none
  | "lint" :: rest => parseOptions .lint {} rest
  | "rules" :: rest => parseOptions .rules {} rest
  | ["help"] | ["help", "lint"] | ["help", "rules"] | ["help", "help"] => some .help
  | argument :: _ =>
    if asksForHelp argument then some .help
    else if argument == "--version" then some .version
    else match argument.toList with
      | '-' :: 'V' :: _ => some .version
      | _ => none

end Command
end ScriptLint
