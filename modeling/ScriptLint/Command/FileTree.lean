import ScriptLint.Source.Path

namespace ScriptLint
namespace Command

/-- The names from the top of the tree down to a file or directory. -/
abbrev Place := List String

/-- A tree of files. A file whose bytes are no text has none. -/
structure FileTree where
  files : List (Place × Option (List Char)) := []
  directories : List Place := []

/-- Extensions of source files. -/
def sourceExtensions : List String := ["js", "jsx", "ts", "tsx", "mjs", "cjs", "mts", "cts"]

def isSourceFile (path : String) : Bool :=
  ((Path.extension? path).map sourceExtensions.contains).getD false

/-- Directories that are not looked into: hidden ones and those of generated files. -/
def isSkipped (directory : String) : Bool :=
  directory.toList.head? == some '.' || ["node_modules", "dist"].contains directory

namespace FileTree

def isFile (t : FileTree) (place : Place) : Bool := (t.files.lookup place).isSome

/-- Whether there is a directory at a place: its own, or one that another place needs. -/
def isDirectory (t : FileTree) (place : Place) : Bool :=
  let needs (other : Place) : Bool := place.isPrefixOf other
  place.isEmpty || t.directories.any needs ||
    t.files.any fun (file, _) => needs file && file != place

/-- The text of the file at a place. -/
def text? (t : FileTree) (place : Place) : Option (List Char) := (t.files.lookup place).join

/-- The tree with another text in a file. -/
def write (t : FileTree) (place : Place) (text : List Char) : FileTree :=
  { t with files := t.files.map fun (file, old) =>
      (file, if file = place then some text else old) }

/-- Where the pieces of a path lead from a place; only out of a directory does a path go on. -/
def walk? (t : FileTree) : Place → List (List Char) → Option Place
  | place, [] => some place
  | place, piece :: rest =>
    if t.isDirectory place then
      match piece with
      | [] | ['.'] => t.walk? place rest
      | ['.', '.'] => t.walk? place.dropLast rest
      | name => t.walk? (place ++ [String.ofList name]) rest
    else none

/-- Where a path leads, seen from a directory. -/
def resolve? (t : FileTree) (directory : Place) (path : String) : Option Place :=
  match pieces '/' path.toList with
  | [[]] => none
  | [] :: rest => t.walk? [] rest
  | rest => t.walk? directory rest

/-- Files below a directory that no skipped directory holds, by their names from there. -/
def below (t : FileTree) (directory : Place) : List Place :=
  t.files.filterMap fun (file, _) =>
    (List.isPrefixOf? directory file).filter fun names =>
      !names.isEmpty && !names.dropLast.any isSkipped

/-- The source files that a path stands for, or nothing if it leads nowhere. -/
def sourceFiles? (t : FileTree) (directory : Place) (path : String) : Option (List String) := do
  let place ← t.resolve? directory path
  if t.isFile place then return if isSourceFile path then [path] else []
  else if t.isDirectory place then
    return ((t.below place).map (·.foldl Path.join path)).filter isSourceFile
  else none

end FileTree

/-- Paths without those that have the same steps as the one before. -/
def dropRepeated : List String → List String
  | [] => []
  | path :: rest =>
    match dropRepeated rest with
    | [] => [path]
    | next :: others =>
      if Path.steps path = Path.steps next then path :: others else path :: next :: others

/-- The source files that some paths stand for, sorted and each path once. The first path that
leads nowhere is the error. -/
def collectSourceFiles (t : FileTree) (directory : Place) (paths : List String) :
    Except String (List String) := do
  let found ← paths.mapM fun path =>
    match t.sourceFiles? directory path with
    | some files => .ok files
    | none => .error path
  let sorted := found.flatten.mergeSort fun a b => Path.le (Path.steps a) (Path.steps b)
  return dropRepeated sorted

end Command
end ScriptLint
