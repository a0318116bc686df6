import ScriptLint.Source.Slice

namespace ScriptLint

/-- Offsets at which lines begin, for a text that itself begins a line at `offset`. -/
def lineStartsFrom (offset : Nat) : List Char → List Nat
  | [] => []
  | c :: text =>
    let next := offset + c.utf8Size
    if c = '\n' then next :: lineStartsFrom next text else lineStartsFrom next text

/-- Offsets at which the lines of a text begin, in order. -/
def lineStarts (text : List Char) : List Nat := 0 :: lineStartsFrom 0 text

/-- Which of the lines begins at an offset; if none does, how many begin before it. -/
def searchLine (text : List Char) (offset : Nat) : Except Nat Nat :=
  match (lineStarts text).idxOf? offset with
  | some line => .ok line
  | none => .error ((lineStarts text).countP (· < offset))

/-- The number of the line that holds an offset, counted from one. -/
def lineOf (text : List Char) (offset : Nat) : Nat :=
  match searchLine text offset with
  | .ok line => line + 1
  | .error line => line

/-- Where the line of an offset begins. -/
def lineStart (text : List Char) (offset : Nat) : Nat :=
  (lineStarts text)[lineOf text offset - 1]?.getD 0

/-- The blanks and tabs with which the line of an offset begins. -/
def lineIndent (text : List Char) (offset : Nat) : List Char :=
  ((dropBytes (lineStart text offset) text).getD []).takeWhile fun c => c == ' ' || c == '\t'

/-- The span between two offsets. An offset that is no place of the text counts as the first
column of its line. -/
def spanAt (text : List Char) (start stop : Nat) : Span :=
  ⟨start, stop, lineOf text start,
    ((slice? text (lineStart text start) start).getD []).length + 1⟩

/-- The line of a token that begins at an offset, counted from zero. -/
def lineIndex (text : List Char) (offset : Nat) : Nat :=
  match searchLine text offset with
  | .ok line => line
  | .error line => line - 1

/-- The span of a token between two offsets, if it begins at a place of the text. -/
def tokenSpan? (text : List Char) (start stop : Nat) : Option Span := do
  let lineStart ← (lineStarts text)[lineIndex text start]?
  let before ← slice? text lineStart start
  return ⟨start, stop, lineIndex text start + 1, before.length + 1⟩

end ScriptLint
