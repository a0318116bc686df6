import ScriptLint.Parse.Error
import ScriptLint.Source.Slice
import ScriptLint.Tree.Walk

namespace ScriptLint
namespace Parse

/-- The deepest nesting of statements, expressions and types. -/
def maxDepth : Nat := 256

/-- What a parser works on. -/
structure State where
  source : List Char
  /-- The tokens being read: those of the source, or of one substitution. -/
  tokens : Array SpannedToken
  /-- The place of the current token. -/
  pos : Nat := 0
  tree : Tree := {}
  errors : Array ParseError := #[]
  depth : Nat := 0
  /-- Whether `in` is an operator; in the head of a `for` it is not. -/
  allowIn : Bool := true

namespace State

/-- The token at a place; past the end there is only `eof`. -/
def tokenAt (s : State) (i : Nat) : Token := (s.tokens[i]?.map (·.1)).getD .eof

/-- The span of the token at a place, or of the last one past the end. -/
def spanAt (s : State) (i : Nat) : Span :=
  match s.tokens[i]? with
  | some (_, span) => span
  | none => (s.tokens.back?.map (·.2)).getD .zero

def current (s : State) : Token := s.tokenAt s.pos

def peek (s : State) : Token := s.tokenAt (s.pos + 1)

def currentSpan (s : State) : Span := s.spanAt s.pos

def atEof (s : State) : Bool := s.current.isEof

/-- Moves to the next token; the last token is never left. -/
def advance (s : State) : State :=
  if s.pos + 1 < s.tokens.size then { s with pos := s.pos + 1 } else s

/-- Whether a line break stands before the token at a place. -/
def newlineBeforeAt (s : State) (i : Nat) : Bool :=
  match i with
  | 0 => false
  | j + 1 =>
    match s.tokens[j]?, s.tokens[j + 1]? with
    | some (_, previous), some (_, span) =>
      ((slice? s.source previous.stop span.start).getD []).contains '\n'
    | _, _ => false

def newlineBefore (s : State) : Bool := s.newlineBeforeAt s.pos

/-- Puts `rest` in the place of the current token, whose first character is used up. -/
def splitCurrent (s : State) (rest : Token) : State :=
  { s with tokens := s.tokens.modify s.pos fun (_, span) => (rest, span.dropFirst) }

/-- The span from `start` to the end of the token before the cursor. -/
def spanFrom (s : State) (start : Span) : Span :=
  match s.pos with
  | 0 => start.extendTo start.stop
  | previous + 1 => start.extendTo ((s.tokens[previous]?.map (·.2.stop)).getD start.stop)

def opensBracket : Token → Bool
  | .punct .leftParen | .punct .leftBracket | .punct .leftBrace => true
  | _ => false

def closesBracket : Token → Bool
  | .punct .rightParen | .punct .rightBracket | .punct .rightBrace => true
  | _ => false

/-- The place of the token that closes a bracket, from place `i` and depth on. Brackets of
different shapes are not told apart. -/
def closeFrom : List SpannedToken → Nat → Nat → Option Nat
  | [], _, _ => none
  | (t, _) :: rest, i, depth =>
    if t.isEof then none
    else if opensBracket t then closeFrom rest (i + 1) (depth + 1)
    else if closesBracket t then
      if depth ≤ 1 then some i else closeFrom rest (i + 1) (depth - 1)
    else closeFrom rest (i + 1) depth

/-- The place of the token that closes the bracket at a place. -/
def matchingClose (s : State) (i : Nat) : Option Nat :=
  closeFrom (s.tokens.toList.drop i) i 0

/-- The error of finding the current token where others were expected. -/
def unexpected (s : State) (expected : List Token) : ParseError :=
  if s.atEof then ⟨.unexpectedEof expected, s.currentSpan, none⟩
  else ⟨.unexpectedToken expected s.current, s.currentSpan, none⟩

/-- Every token takes a byte of its source, so the end of the last token bounds their number. -/
def weight (s : State) : Nat := ((s.tokens.back?.map (·.2.stop)).getD 0) + s.tokens.size

end State
end Parse
end ScriptLint
