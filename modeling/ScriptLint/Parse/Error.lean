import ScriptLint.Token.Scan

namespace ScriptLint

/-- The reason of a parse error. -/
inductive ParseCause where
  | unexpectedToken (expected : List Token) (found : Token)
  | unexpectedEof (expected : List Token)
  | invalidSyntax (reason : String)
  /-- A statement that is not ended, with no line break to end it. -/
  | missingSemicolon
  /-- A construct outside the language that is understood. -/
  | unsupported (feature : String)
  | limitExceeded (limit : String)

/-- A parse error and where it is. -/
structure ParseError where
  cause : ParseCause
  span : Span
  /-- How the source might be mended. -/
  suggestion : Option String := none

namespace ParseCause

private def quote (t : Token) : String := s!"'{t.display}'"

def message : ParseCause → String
  | .unexpectedToken [] found => s!"unexpected token {quote found}"
  | .unexpectedToken [one] found => s!"expected {quote one}, found {quote found}"
  | .unexpectedToken many found =>
    let wanted := ", ".intercalate (many.map quote)
    s!"expected one of {wanted}, found {quote found}"
  | .unexpectedEof (first :: _) => s!"unexpected end of file, expected {quote first}"
  | .unexpectedEof [] => "unexpected end of file"
  | .invalidSyntax reason => reason
  | .missingSemicolon => "expected ';' or a line break"
  | .unsupported feature => s!"{feature} is not supported"
  | .limitExceeded limit => s!"parser limit exceeded: {limit}"

end ParseCause

namespace ParseError

def missingSemicolon (span : Span) : ParseError :=
  ⟨.missingSemicolon, span, some "terminate the statement with ';'"⟩

def unsupported (feature : String) (span : Span) : ParseError := ⟨.unsupported feature, span, none⟩

/-- The message with its place in front. -/
def message (e : ParseError) : String :=
  s!"parse error at {e.span.line}:{e.span.column}: {e.cause.message}"

end ParseError
end ScriptLint
