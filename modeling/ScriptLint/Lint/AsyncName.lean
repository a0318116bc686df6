import ScriptLint.Text.Word

namespace ScriptLint
namespace AsyncName

/-- The ways to take white space off the front of a text, the longest first. -/
def spaces : List Char → List (List Char × List Char)
  | [] => [([], [])]
  | c :: text =>
    if isSpace c then
      (spaces text).map (fun (taken, rest) => (c :: taken, rest)) ++ [([], c :: text)]
    else [([], c :: text)]

/-- The ways to take a star off the front of a text: with it, if there is one, then without. -/
def stars : List Char → List (List Char × List Char)
  | '*' :: text => [(['*'], text), ([], '*' :: text)]
  | text => [([], text)]

/-- The way to take a word off the front of a text. -/
def word (expected text : List Char) : List (List Char × List Char) :=
  match List.isPrefixOf? expected text with
  | some rest => [(expected, rest)]
  | none => []

/-- One way after the other, what is taken put together. -/
def andThen (first second : List Char → List (List Char × List Char)) (text : List Char) :
    List (List Char × List Char) :=
  (first text).flatMap fun (taken, rest) =>
    (second rest).map fun (more, rest) => (taken ++ more, rest)

/-- The ways to take the words before the name off a header. -/
def opening : List Char → List (List Char × List Char) :=
  andThen (word "async".toList) <|
  andThen (fun text => (spaces text).filter fun (taken, _) => !taken.isEmpty) <|
  andThen (word "function".toList) <| andThen spaces <| andThen stars spaces

/-- Whether a name may end before this text. -/
def endsName : List Char → Bool
  | [] => true
  | c :: _ => !isWord c && c != '$'

/-- The header with a suffix put to the name. -/
def addSuffix? (text name suffix : List Char) : Option (List Char) :=
  ((andThen opening (word name) text).find? fun (_, rest) => endsName rest).map
    fun (taken, rest) => taken ++ suffix ++ rest

end AsyncName
end ScriptLint
