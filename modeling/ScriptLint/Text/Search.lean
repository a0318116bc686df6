
namespace ScriptLint

/-- What stands before and after the first occurrence of a word. -/
def splitAtFirst? (word : List Char) : List Char → Option (List Char × List Char)
  | [] => if word.isEmpty then some ([], []) else none
  | c :: text =>
    match List.isPrefixOf? word (c :: text) with
    | some rest => some ([], rest)
    | none => (splitAtFirst? word text).map fun (before, after) => (c :: before, after)

/-- The text with the first occurrence of a word exchanged for another. -/
def replaceFirst (word other text : List Char) : List Char :=
  match splitAtFirst? word text with
  | some (before, after) => before ++ other ++ after
  | none => text

/-- The pieces of a text between the marks; one more than there are marks. -/
def pieces (mark : Char) : List Char → List (List Char)
  | [] => [[]]
  | c :: text =>
    if c = mark then [] :: pieces mark text
    else match pieces mark text with
      | [] => [[c]]
      | piece :: rest => (c :: piece) :: rest

end ScriptLint
