
namespace ScriptLint

/-- A place between two characters: bytes before it, its line, and its column in characters. -/
structure Position where
  offset : Nat
  line : Nat
  column : Nat
  deriving DecidableEq, Inhabited

namespace Position

/-- The place before the first character of a text. -/
def origin : Position := ⟨0, 1, 1⟩

/-- The place after one more character. Only a line feed begins a new line. -/
def step (p : Position) (c : Char) : Position :=
  if c = '\n' then ⟨p.offset + c.utf8Size, p.line + 1, 1⟩
  else ⟨p.offset + c.utf8Size, p.line, p.column + 1⟩

/-- The place after a stretch of text. -/
def after (p : Position) (text : List Char) : Position := text.foldl step p

@[simp] theorem after_nil (p : Position) : p.after [] = p := rfl

@[simp] theorem after_cons (p : Position) (c : Char) (text : List Char) :
    p.after (c :: text) = (p.step c).after text := rfl

@[simp] theorem after_append (p : Position) (a b : List Char) :
    p.after (a ++ b) = (p.after a).after b := by
  simp [after, List.foldl_append]

end Position

/-- A stretch of source: byte offsets of its two ends, line and column of its start. -/
structure Span where
  start : Nat := 0
  stop : Nat := 0
  line : Nat := 0
  column : Nat := 0
  deriving DecidableEq, Inhabited

namespace Span

/-- The span of no place at all, reported where a node has no range. -/
def zero : Span := ⟨0, 0, 0, 0⟩

/-- The span between two places. -/
def between (p q : Position) : Span := ⟨p.offset, q.offset, p.line, p.column⟩

def size (s : Span) : Nat := s.stop - s.start

def isEmpty (s : Span) : Bool := s.start == s.stop

/-- Moves the end to `stop`, but never before the start. -/
def extendTo (s : Span) (stop : Nat) : Span := { s with stop := max stop s.start }

/-- From the start of one span to the end of another. -/
def join (s t : Span) : Span := s.extendTo t.stop

def contains (s t : Span) : Bool := s.start ≤ t.start && t.stop ≤ s.stop

/-- The span without its first byte, for a token whose first character is taken away. -/
def dropFirst (s : Span) : Span := { s with start := s.start + 1, column := s.column + 1 }

end Span
end ScriptLint
