import ScriptLint.Toml.Scalar

namespace ScriptLint
namespace Toml

/-- Characters of a comment. -/
def isCommentChar (c : Char) : Bool := c == '\t' || 0x20 ≤ c.toNat

/-- A text without the comment in front. -/
def skipComment : List Char → List Char
  | '#' :: text => text.dropWhile isCommentChar
  | text => text

/-- Skips blanks, comments and line ends, at most `fuel` lines of them. -/
def skipLinesUpTo : Nat → List Char → List Char
  | 0, text => text
  | fuel + 1, text =>
    match skipComment (skipBlanks text) with
    | '\n' :: rest | '\r' :: '\n' :: rest => skipLinesUpTo fuel rest
    | rest => rest

def skipLines (text : List Char) : List Char := skipLinesUpTo text.length text

/-- The items of a list up to its closing bracket, at most `fuel` of them. -/
def arrayItems (item : Reader Value) : Nat → Reader (List Value)
  | 0, _ => none
  | fuel + 1, text =>
    match skipLines text with
    | ']' :: rest => some ([], rest)
    | text => do
      let (value, rest) ← item text
      match skipLines rest with
      | ',' :: rest => (arrayItems item fuel rest).map fun (values, rest) => (value :: values, rest)
      | ']' :: rest => return ([value], rest)
      | _ => none

/-- A key, its value, and the blanks after it. -/
def binding (item : Reader Value) : Reader ((List String × String) × Value) := fun text => do
  let (name, rest) ← key text
  match rest with
  | '=' :: rest =>
    let (value, rest) ← item (skipBlanks rest)
    return ((name, value), skipBlanks rest)
  | _ => none

/-- The entries of a table in braces, at least one and at most `fuel`, put to those before. -/
def inlineEntries (item : Reader Value) : Nat → Entries → Reader Entries
  | 0, _, _ => none
  | fuel + 1, entries, text => do
    let (((path, name), value), rest) ← binding item text
    let entries ← bind? path name value .inline entries
    match rest with
    | ',' :: rest => inlineEntries item fuel entries rest
    | '}' :: rest => return (entries, rest)
    | _ => none

/-- A value with at most `depth` levels of brackets. -/
def value (depth : Nat) : Reader Value := fun text =>
  match depth, text with
  | _, '"' :: _ | _, '\'' :: _ => (string text).map fun (body, rest) => (.string body, rest)
  | 0, '[' :: _ | 0, '{' :: _ => none
  | depth + 1, '[' :: rest =>
    (arrayItems (value depth) rest.length rest).map fun (items, rest) => (.array items, rest)
  | depth + 1, '{' :: rest =>
    match skipBlanks rest with
    | '}' :: rest => some (.table .inline [], rest)
    | rest =>
      (inlineEntries (value depth) rest.length [] rest).map fun (entries, rest) =>
        (.table .inline entries, rest)
  | _, text =>
    let (run, rest) := scalarRun text
    (scalar? run).map fun value => (value, rest)

/-- What is left after the end of a line. -/
def lineEnd? (text : List Char) : Option (List Char) :=
  match skipComment (skipBlanks text) with
  | [] => some []
  | '\n' :: rest | '\r' :: '\n' :: rest => some rest
  | _ => none

/-- A document read so far: all its tables, and the path of the one that was opened last. -/
structure State where
  root : Entries := []
  header : List String := []

/-- Binds a key in the table that was opened last. -/
def State.bind? (s : State) (path : List String) (name : String) (value : Value) :
    Option State := do
  let root ← modifyAt? false (Toml.bind? path name value) s.header .defined s.root
  return { s with root }

/-- Reads one line. -/
def line (s : State) : Reader State := fun text =>
  match skipBlanks text with
  | '[' :: '[' :: rest => do
    let ((path, name), rest) ← key rest
    match rest with
    | ']' :: ']' :: rest =>
      return ({ root := ← openNext? path name s.root, header := path ++ [name] }, ← lineEnd? rest)
    | _ => none
  | '[' :: rest => do
    let ((path, name), rest) ← key rest
    match rest with
    | ']' :: rest =>
      return ({ root := ← openTable? path name s.root, header := path ++ [name] }, ← lineEnd? rest)
    | _ => none
  | [] | '\n' :: _ | '\r' :: _ | '#' :: _ => do return (s, ← lineEnd? text)
  | rest => do
    let (((path, name), value), rest) ← binding (value (depthLimit - 1)) rest
    return (← s.bind? path name value, ← lineEnd? rest)

/-- Reads lines to the end, at most `fuel` of them. -/
def linesUpTo : Nat → State → List Char → Option State
  | _, s, [] => some s
  | 0, _, _ => none
  | fuel + 1, s, text => (line s text).bind fun (s, rest) => linesUpTo fuel s rest

/-- The entries of a document, if it is well formed. A mark of the byte order in front is left
out. -/
def parse? (text : List Char) : Option Entries :=
  let text := match text with
    | '\uFEFF' :: rest => rest
    | text => text
  (linesUpTo text.length {} text).map (·.root)

end Toml
end ScriptLint
