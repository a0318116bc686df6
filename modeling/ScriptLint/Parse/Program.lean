import ScriptLint.Parse.Module

namespace ScriptLint

namespace Grammar

open Parse

/-- The grammar one level above another. -/
def above (g : Grammar) : Grammar where
  statement := Parse.statement g
  assignment := Parse.assignment g
  binary := Parse.binary g
  unary := Parse.unary g
  leftHandSide := Parse.leftHandSide g
  new := Parse.newExpression g
  type := Parse.type g
  typeOperator := Parse.typeOperator g
  bindingTarget := Parse.bindingTarget g

/-- The grammar of constructs nested up to `n` levels. -/
def upTo : Nat → Grammar
  | 0 => exhausted
  | n + 1 => above (upTo n)

end Grammar

namespace Parse

open ScriptLint.Parser

/-- Runs a parser of a construct with all of the grammar. A construct inside another is one of the
levels that are counted, or stands after a token that its container has taken, so the limit on
levels and the number of tokens bound the nesting. -/
def withGrammar {α : Type} (p : Grammar → Parser α) : Parser α := fun s =>
  p (Grammar.upTo (maxDepth + s.weight + 2)) s

/-- Words with which statements begin. -/
def startsStatement : Token → Bool
  | .keyword word =>
    match word with
    | .constWord | .letWord | .varWord | .functionWord | .classWord | .ifWord | .forWord
    | .whileWord | .returnWord | .importWord | .exportWord => true
    | _ => false
  | _ => false

/-- Skips to a place where a statement is likely to begin, at most `fuel` tokens. -/
def syncFrom : Nat → State → State
  | 0, s => s
  | fuel + 1, s =>
    if s.atEof then s
    else if s.current.isPunct .semicolon then s.advance
    else if s.current.isPunct .rightBrace then s
    else if startsStatement s.current && s.newlineBefore then s
    else syncFrom fuel s.advance

/-- Goes on after an error: past at least one token, to after a semicolon, before a closing
brace, or before a line that begins like a statement. -/
def sync (s : State) : State :=
  if s.atEof then s
  else if s.current.isPunct .semicolon || s.current.isPunct .rightBrace then s.advance
  else syncFrom s.tokens.size s.advance

/-- Parses statements to the end of the tokens and collects their errors. -/
def statements (g : Grammar) : Nat → List NodeId → State → List NodeId × State
  | 0, body, s => (body.reverse, s)
  | fuel + 1, body, s =>
    if s.atEof then (body.reverse, s)
    else match statement g s with
      | (.ok id, s) => statements g fuel (id :: body) s
      | (.error e, s) => statements g fuel body (sync { s with errors := s.errors.push e })

/-- Parses the rest of a program: its tree with parents linked, or all errors. -/
def program (s : State) : Except (List ParseError) Tree :=
  let g := Grammar.upTo (maxDepth + s.weight + 2)
  let (body, s) := statements g (s.tokens.size + 1) [] s
  if s.errors.isEmpty then
    let span : Span := ⟨0, byteLength s.source, 1, 1⟩
    let (root, tree) := s.tree.alloc (.program body) (some span)
    .ok (tree.withRoot root).linkParents
  else .error s.errors.toList

/-- A parser at the start of a text. -/
def start (source : List Char) : Except (List ScanError) State := do
  let tokens ← tokenize source
  return { source, tokens := tokens.toArray }

end Parse

/-- A defect that keeps a text from having a tree. -/
inductive SourceError where
  | scan (error : ScanError)
  | parse (error : ParseError)

namespace SourceError

def span : SourceError → Span
  | .scan error => error.span
  | .parse error => error.span

def message : SourceError → String
  | .scan error => error.message
  | .parse error => error.message

end SourceError

/-- The tree of a text, or all its defects. -/
def parse (source : List Char) : Except (List SourceError) Tree :=
  match Parse.start source with
  | .error errors => .error (errors.map .scan)
  | .ok s =>
    match Parse.program s with
    | .error errors => .error (errors.map .parse)
    | .ok tree => .ok tree

end ScriptLint
