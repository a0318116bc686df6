import ScriptLint.Text.Search

namespace ScriptLint
namespace Path

/-- One step of a path. -/
inductive Step where
  | root
  | here
  | up
  | name (text : String)
  deriving DecidableEq

namespace Step

/-- Kinds of steps in their order. -/
def rank : Step → Nat
  | .root => 0
  | .here => 1
  | .up => 2
  | .name _ => 3

/-- The order of steps: by kind, names by their characters. -/
def le : Step → Step → Bool
  | .name a, .name b => a ≤ b
  | a, b => a.rank ≤ b.rank

def ofPiece : List Char → Step
  | ['.'] => .here
  | ['.', '.'] => .up
  | piece => .name (String.ofList piece)

end Step

/-- The order of paths, step by step. -/
def le : List Step → List Step → Bool
  | [], _ => true
  | _ :: _, [] => false
  | a :: p, b :: q => if a = b then le p q else Step.le a b

/-- The steps of a path. -/
def steps (path : String) : List Step :=
  let later (pieces : List (List Char)) : List Step :=
    (pieces.filter fun piece => !piece.isEmpty && piece != ['.']).map Step.ofPiece
  match pieces '/' path.toList with
  | [] :: second :: rest => .root :: later (second :: rest)
  | ['.'] :: rest => .here :: later rest
  | rest => later rest

/-- The name of the file that a path leads to. -/
def fileName? (path : String) : Option String :=
  match (steps path).getLast? with
  | some (.name name) => some name
  | _ => none

/-- What follows the last dot of a name, unless the name begins with that dot. -/
def nameExtension? (name : String) : Option String :=
  match (pieces '.' name.toList).reverse with
  | _ :: [] | [_, []] => none
  | last :: _ => some (String.ofList last)
  | [] => none

def extension? (path : String) : Option String := (fileName? path).bind nameExtension?

/-- The path of an entry of a directory. -/
def join (directory name : String) : String :=
  if directory.toList.getLast? == some '/' then directory ++ name else directory ++ "/" ++ name

end Path
end ScriptLint
