import ScriptLint.Source.Span

namespace ScriptLint

/-- A defect of the source found before parsing. -/
inductive ScanError where
  /-- A character with which no token begins. -/
  | unexpectedCharacter (char : Char) (span : Span)
  /-- A template without its closing backtick; the span is that of the opening one. -/
  | unterminatedTemplate (span : Span)
  /-- A longer stretch that is no token. -/
  | invalidToken (text : String) (span : Span)
  deriving DecidableEq

namespace ScanError

def span : ScanError → Span
  | .unexpectedCharacter _ span => span
  | .unterminatedTemplate span => span
  | .invalidToken _ span => span

def message : ScanError → String
  | .unexpectedCharacter c span =>
    s!"unexpected character '{String.singleton c}' at {span.line}:{span.column}"
  | .unterminatedTemplate span =>
    s!"unterminated template literal starting at {span.line}:{span.column}"
  | .invalidToken text span => s!"invalid token '{text}' at {span.line}:{span.column}"

end ScanError
end ScriptLint
