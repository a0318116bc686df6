import ScriptLint.Command.Run

namespace ScriptLint
namespace Command

/-- The names in the path of a directory. -/
def placeOf (path : String) : Place := (path.splitOn "/").filter fun name => !name.isEmpty

/-- Whether a place is a directory of the machine. -/
def directoryExists (place : Place) : IO Bool := do
  try
    let found ← IO.FS.realPath (absolutePath place)
    found.isDir
  catch _ => return false

/-- Whether there is anything at a place of the machine. -/
def placeExists (place : Place) : IO Bool := do
  try
    let found ← IO.FS.realPath (absolutePath place)
    found.pathExists
  catch _ => return false

/-- The text of a file of the machine, if its bytes are text. -/
def readText (place : Place) : IO (Option (List Char)) := do
  try return some (← IO.FS.readFile (absolutePath place)).toList
  catch _ => return none

/-- The names in a directory of the machine. -/
def namesIn (place : Place) : IO (List String) := do
  try
    let found ← IO.FS.realPath (absolutePath place)
    return (← found.readDir).toList.map (·.fileName)
  catch _ => return []

/-- Adds what is at a place and below it. Directories that are skipped anyway are left out. -/
partial def loadBelow (tree : FileTree) (place : Place) : IO FileTree := do
  if ← directoryExists place then
    let mut tree := { tree with directories := place :: tree.directories }
    for name in ← namesIn place do
      let inner := place ++ [name]
      unless isSkipped name && (← directoryExists inner) do
        tree ← loadBelow tree inner
    return tree
  else return { tree with files := (place, ← readText place) :: tree.files }

/-- Adds the directories that a path passes and what it leads to. -/
def loadPath (directory : Place) (tree : FileTree) (path : String) : IO FileTree := do
  let mut tree := tree
  let mut place := if path.startsWith "/" then [] else directory
  for piece in path.splitOn "/" do
    if ← directoryExists place then
      tree := { tree with directories := place :: tree.directories }
    place := match piece with
      | "" | "." => place
      | ".." => place.dropLast
      | name => place ++ [name]
  if ← placeExists place then loadBelow tree place else return tree

/-- Adds the settings files in a directory and above it. -/
def loadSettingsFiles (directory : Place) (tree : FileTree) : IO FileTree := do
  let mut tree := tree
  for length in List.range (directory.length + 1) do
    let place := directory.take length ++ [settingsName]
    if (← placeExists place) && !(← directoryExists place) then
      tree := { tree with files := (place, ← readText place) :: tree.files }
  return tree

/-- Loads what a run with these arguments may look at. -/
def loadTree (directory : Place) (arguments : List String) : IO FileTree := do
  match parseArguments arguments with
  | some (.lint given) =>
    let paths := if given.paths.isEmpty then ["."] else given.paths
    let tree ← loadSettingsFiles directory {}
    (given.config.toList ++ paths).foldlM (loadPath directory) tree
  | _ => return {}

end Command
end ScriptLint

open ScriptLint.Command

def main (arguments : List String) : IO UInt32 := do
  let directory := placeOf (toString (← IO.currentDir))
  let noColor := (← IO.getEnv "NO_COLOR").isSome
  let terminal ← (← IO.getStdout).isTty
  let tree ← loadTree directory arguments
  let outcome := run { directory, noColor, terminal } tree arguments
  for (place, text) in outcome.tree.files do
    if text != tree.text? place then
      IO.FS.writeFile (absolutePath place) (String.ofList (text.getD []))
  IO.print outcome.stdout
  IO.eprint outcome.stderr
  return UInt32.ofNat outcome.exit
