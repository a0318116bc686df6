import ScriptLint.Parse.State

namespace ScriptLint

/-- A parser. The state is kept after an error too, so that parsing can go on from there. -/
def Parser (α : Type) : Type := Parse.State → Except ParseError α × Parse.State

namespace Parser

open Parse (State maxDepth)

variable {α β : Type}

protected def pure (a : α) : Parser α := fun s => (.ok a, s)

protected def bind (p : Parser α) (f : α → Parser β) : Parser β := fun s =>
  match p s with
  | (.ok a, s) => f a s
  | (.error e, s) => (.error e, s)

instance : Monad Parser where
  pure := Parser.pure
  bind := Parser.bind

def fail (e : ParseError) : Parser α := fun s => (.error e, s)

instance : Inhabited (Parser α) := ⟨fail ⟨.invalidSyntax "", .zero, none⟩⟩

/-- Asks something of the state. -/
def ask (f : State → α) : Parser α := fun s => (.ok (f s), s)

/-- Changes the state. -/
def update (f : State → State) : Parser Unit := fun s => (.ok (), f s)

/-- Takes the current token. -/
def advance : Parser Token := fun s => (.ok s.current, s.advance)

/-- Takes the current token and forgets it. -/
def skip : Parser Unit := update State.advance

def current : Parser Token := ask State.current

def peek : Parser Token := ask State.peek

def currentSpan : Parser Span := ask State.currentSpan

def atEof : Parser Bool := ask State.atEof

def newlineBefore : Parser Bool := ask State.newlineBefore

/-- Whether no line break stands after the current token. -/
def nextOnSameLine : Parser Bool := ask fun s => !s.newlineBeforeAt (s.pos + 1)

/-- Whether the current token is of the kind of another. -/
def checkToken (t : Token) : Parser Bool := ask fun s => s.current.sameKind t

def check (mark : Punct) : Parser Bool := ask fun s => s.current.isPunct mark

def checkKeyword (word : Keyword) : Parser Bool := ask fun s => s.current.isKeyword word

def checkName (name : String) : Parser Bool := ask fun s => s.current.isName name

/-- Takes the current token if a test holds of it, and tells whether it did. -/
def eatIf (test : Token → Bool) : Parser Bool := fun s =>
  if test s.current then (.ok true, s.advance) else (.ok false, s)

def eatToken (t : Token) : Parser Bool := eatIf (·.sameKind t)

def eat (mark : Punct) : Parser Bool := eatIf (·.isPunct mark)

def eatKeyword (word : Keyword) : Parser Bool := eatIf (·.isKeyword word)

def eatName (name : String) : Parser Bool := eatIf (·.isName name)

/-- Fails because the current token is none of those expected. -/
def unexpected (expected : List Token) : Parser α := fun s => (.error (s.unexpected expected), s)

/-- Takes the current token if it is of the kind of another, and fails otherwise. -/
def expectToken (t : Token) : Parser Token := fun s =>
  if s.current.sameKind t then (.ok s.current, s.advance) else (.error (s.unexpected [t]), s)

def expect (mark : Punct) : Parser Unit := fun s =>
  if s.current.isPunct mark then (.ok (), s.advance)
  else (.error (s.unexpected [.punct mark]), s)

def expectKeyword (word : Keyword) : Parser Unit := fun s =>
  if s.current.isKeyword word then (.ok (), s.advance)
  else (.error (s.unexpected [.keyword word]), s)

def expectName (name : String) : Parser Unit := fun s =>
  if s.current.isName name then (.ok (), s.advance)
  else (.error (s.unexpected [.identifier name]), s)

def splitCurrent (rest : Token) : Parser Unit := update (·.splitCurrent rest)

/-- Ends a statement: at a semicolon, which is taken, before a closing brace, at the end of the
tokens, or before a line break. -/
def consumeSemicolon : Parser Unit := fun s =>
  if s.current.isPunct .semicolon then (.ok (), s.advance)
  else if s.current.isPunct .rightBrace || s.atEof || s.newlineBefore then (.ok (), s)
  else (.error (.missingSemicolon s.currentSpan), s)

/-- Makes a node with a range of its own. -/
def alloc (node : Node) (span : Span) : Parser NodeId := fun s =>
  let (id, tree) := s.tree.alloc node (some span)
  (.ok id, { s with tree })

/-- Makes a node that reaches from `start` to the cursor. -/
def finish (start : Span) (node : Node) : Parser NodeId := fun s =>
  alloc node (s.spanFrom start) s

def node (id : NodeId) : Parser Node := ask fun s => s.tree.node id

def setNode (id : NodeId) (node : Node) : Parser Unit := update fun s =>
  { s with tree := s.tree.setNode id node }

/-- Stretches the range of a node up to the cursor. -/
def extendRange (id : NodeId) : Parser Unit := update fun s =>
  match s.tree.range id with
  | some range => { s with tree := s.tree.setRange id (some (s.spanFrom range)) }
  | none => s

/-- The source text of a span. -/
def text (span : Span) : Parser String := ask fun s => span.slice s.source

/-- Goes one level deeper, unless that is deeper than parsers go. -/
def enter : Parser Unit := fun s =>
  if maxDepth ≤ s.depth then
    (.error ⟨.limitExceeded s!"nesting deeper than {maxDepth}", s.currentSpan, none⟩, s)
  else (.ok (), { s with depth := s.depth + 1 })

def leave : Parser Unit := update fun s => { s with depth := s.depth - 1 }

/-- Runs a parser one level deeper. -/
def nested (p : Parser α) : Parser α := fun s =>
  match enter s with
  | (.error e, s) => (.error e, s)
  | (.ok (), s) =>
    let (result, s) := p s
    (result, { s with depth := s.depth - 1 })

/-- Runs a parser; if it fails, goes back to where it began and forgets its nodes and errors. -/
def attempt (p : Parser α) : Parser (Option α) := fun s =>
  let pos := s.pos
  let nodes := s.tree.size
  let errors := s.errors.size
  let depth := s.depth
  match p s with
  | (.ok a, s) => (.ok (some a), s)
  | (.error _, s) =>
    (.ok none, { s with
      pos, depth, tree := s.tree.truncate nodes, errors := s.errors.take errors })

/-- Runs a parser with `in` allowed or not as an operator. -/
def withIn (allowIn : Bool) (p : Parser α) : Parser α := fun s =>
  let saved := s.allowIn
  let (result, s) := p { s with allowIn }
  (result, { s with allowIn := saved })

/-- Runs a parser over other tokens, from their first one. -/
def withTokens (tokens : List SpannedToken) (p : Parser α) : Parser α := fun s =>
  let saved := s.tokens
  let pos := s.pos
  let (result, s) := withIn true p { s with tokens := tokens.toArray, pos := 0 }
  (result, { s with tokens := saved, pos })

/-- Whether a loop ends with a value or goes on from it. -/
inductive Loop (σ : Type) where
  | stop (value : σ)
  | next (value : σ)

/-- Repeats a parser at most `fuel` times. -/
def loopUpTo {σ : Type} (body : σ → Parser (Loop σ)) : Nat → σ → Parser σ
  | 0, _ => fail ⟨.limitExceeded "repetition", .zero, none⟩
  | fuel + 1, value => do
    match ← body value with
    | .stop value => pure value
    | .next value => loopUpTo body fuel value

/-- Repeats a parser that takes part of a token at least each time. A punctuator can be taken in
four parts. -/
def loop {σ : Type} (init : σ) (body : σ → Parser (Loop σ)) : Parser σ := fun s =>
  loopUpTo body (4 * s.tokens.size + 1) init s

/-- The items up to a closing mark or the end of the tokens. -/
def itemsUntil (close : Punct) (item : Parser α) : Parser (List α) := do
  let items ← loop [] fun items => do
    if (← check close) || (← atEof) then return .stop items
    else return .next ((← item) :: items)
  return items.reverse

/-- Items with commas between them, and one allowed at the end, up to a closing mark. -/
def commaSeparated (close : Punct) (item : Parser α) : Parser (List α) :=
  itemsUntil close do
    let value ← item
    if !(← check close) then expect .comma
    return value

/-- One item, and more after each mark. -/
def separatedBy (mark : Punct) (item : Parser α) : Parser (List α) := do
  let first ← item
  let rest ← loop [first] fun items => do
    if ← eat mark then return .next ((← item) :: items) else return .stop items
  return rest.reverse

/-- An item if a test holds. -/
def optionally (test : Parser Bool) (item : Parser α) : Parser (Option α) := do
  if ← test then return some (← item) else return none

end Parser
end ScriptLint
