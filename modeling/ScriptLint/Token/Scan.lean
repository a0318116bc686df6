import ScriptLint.Token.Error
import ScriptLint.Token.Lexeme
import ScriptLint.Token.Template

namespace ScriptLint

/-- A token together with where it stands. -/
abbrev SpannedToken := Token × Span

/-- What a scan has found. The last token is `eof`. -/
structure Scan where
  tokens : List SpannedToken
  errors : List ScanError

namespace Scan

def withToken (t : Token) (span : Span) (s : Scan) : Scan :=
  { s with tokens := (t, span) :: s.tokens }

def withErrors (errors : List ScanError) (s : Scan) : Scan :=
  { s with errors := errors ++ s.errors }

/-- The end of a text. -/
def finished (p : Position) : Scan := ⟨[(.eof, .between p p)], []⟩

/-- The defect that a stretch of text is: a lone character is named as such. -/
def defect (text : List Char) (span : Span) : ScanError :=
  match text with
  | [c] => .unexpectedCharacter c span
  | text => .invalidToken (String.ofList text) span

/-- The parts of a template from its raw pieces, each substitution scanned by `scan`, with the
defects found inside and the place after the pieces. -/
def parts (scan : Position → List Char → Scan) :
    Position → List Template.Piece → List TemplatePart × List ScanError × Position
  | p, [] => ([], [], p)
  | p, .quasi text :: pieces =>
    let q := p.after text
    let (rest, errors, r) := parts scan q pieces
    (.quasi (String.ofList text) (.between p q) :: rest, errors, r)
  | p, .substitution text :: pieces =>
    let open_ := p.after ['$', '{']
    let inner := scan open_ text
    let (rest, errors, r) := parts scan ((open_.after text).step '}') pieces
    (.substitution inner.tokens :: rest, inner.errors ++ errors, r)

/-- Scans a text that begins at a place, in at most `fuel` lexemes. -/
def fromPlace : Nat → Position → List Char → Scan
  | 0, p, _ => finished p
  | fuel + 1, p, text =>
    match Lexeme.cut text with
    | none => finished p
    | some (lexeme, taken, rest) =>
      let q := p.after taken
      match lexeme with
      | .gap => fromPlace fuel q rest
      | .token t => (fromPlace fuel q rest).withToken t (.between p q)
      | .malformed => (fromPlace fuel q rest).withErrors [defect taken (.between p q)]
      | .backtick =>
        let raw := Template.raw rest
        let (found, errors, r) := parts (fromPlace fuel) q raw.pieces
        match raw.rest with
        | some rest =>
          let r := r.step '`'
          ((fromPlace fuel r rest).withToken (.template found) (.between p r)).withErrors errors
        | none =>
          (finished (q.after rest)).withErrors
            (errors ++ [.unterminatedTemplate (.between p q)])

end Scan

/-- Scans a whole text. -/
def scan (text : List Char) : Scan := Scan.fromPlace (text.length + 1) .origin text

/-- The tokens of a text, or all its defects. -/
def tokenize (text : List Char) : Except (List ScanError) (List SpannedToken) :=
  let s := scan text
  if s.errors.isEmpty then .ok s.tokens else .error s.errors

end ScriptLint
