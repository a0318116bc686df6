import ScriptLint.Token.Basic
import ScriptLint.Token.Escape

namespace ScriptLint

/-- What a stretch of text is. -/
inductive Lexeme where
  /-- Blanks and comments, which stand for nothing. -/
  | gap
  | token (t : Token)
  /-- The backtick that opens a template. -/
  | backtick
  /-- A stretch that is no token. -/
  | malformed

namespace Lexeme

def isBlank (c : Char) : Bool :=
  c == ' ' || c == '\t' || c == '\r' || c == '\n' || c == '\x0c' || c == '\ufeff'

def isDigit (c : Char) : Bool := '0' ≤ c && c ≤ '9'

def isLetter (c : Char) : Bool := ('a' ≤ c && c ≤ 'z') || ('A' ≤ c && c ≤ 'Z')

/-- Characters that may begin a name. -/
def isNameStart (c : Char) : Bool := isLetter c || c == '_' || c == '$'

/-- Characters that may continue a name. -/
def isNamePart (c : Char) : Bool := isNameStart c || isDigit c

/-- The longest run of characters of a class, and the rest. -/
def run (p : Char → Bool) (text : List Char) : List Char × List Char :=
  (text.takeWhile p, text.dropWhile p)

/-- The longest run of digits in which single underscores may stand before a digit. -/
def digitGroups (digit : Char → Bool) : List Char → List Char × List Char
  | [] => ([], [])
  | [c] => if digit c then ([c], []) else ([], [c])
  | c :: d :: text =>
    if digit c || (c == '_' && digit d) then
      let (taken, rest) := digitGroups digit (d :: text)
      (c :: taken, rest)
    else ([], c :: d :: text)

/-- An exponent `e`, sign, digits, if a whole one stands here. -/
def exponentPart (text : List Char) : List Char × List Char :=
  match text with
  | e :: s :: rest =>
    if e == 'e' || e == 'E' then
      if (s == '+' || s == '-') && (rest.head?.map isDigit).getD false then
        let (digits, rest) := run isDigit rest
        (e :: s :: digits, rest)
      else if isDigit s then
        let (digits, rest) := run isDigit (s :: rest)
        (e :: digits, rest)
      else ([], text)
    else ([], text)
  | _ => ([], text)

/-- The number that digits in a base spell, underscores skipped. -/
def digitsValue (base : Nat) (digits : List Char) : Nat :=
  digits.foldl
    (fun n c => if c == '_' then n else base * n + (Escape.hexValue? c).getD 0) 0

/-- The exponent that an exponent part spells. -/
def exponentValue : List Char → Int
  | _ :: '-' :: digits => -(digitsValue 10 digits : Int)
  | _ :: '+' :: digits => digitsValue 10 digits
  | _ :: digits => digitsValue 10 digits
  | [] => 0

/-- A decimal literal whose first digits are `whole`, read up to `rest`. -/
def decimalFrom (whole rest : List Char) : Token × List Char × List Char :=
  let (point, fraction, rest) := match rest with
    | '.' :: rest => let (digits, rest) := digitGroups isDigit rest; (['.'], digits, rest)
    | rest => ([], [], rest)
  let (exponent, rest) := exponentPart rest
  let places := (fraction.filter (· != '_')).length
  let value := Binary64.ofDecimal (digitsValue 10 (whole ++ fraction))
    (exponentValue exponent - places)
  (.number value, whole ++ point ++ fraction ++ exponent, rest)

/-- The base that a letter after a leading zero announces. -/
def radix? (c : Char) : Option Nat :=
  if c == 'x' || c == 'X' then some 16
  else if c == 'b' || c == 'B' then some 2
  else if c == 'o' || c == 'O' then some 8
  else none

def isDigitOf (base : Nat) (c : Char) : Bool :=
  match Escape.hexValue? c with
  | some d => d < base
  | none => false

/-- A literal in base 16, 8 or 2, if one stands here: the lexeme, its text and the rest. Its
value must fit 64 bits. -/
def radixLiteral? : List Char → Option (Lexeme × List Char × List Char)
  | '0' :: mark :: d :: text => do
    let base ← radix? mark
    if isDigitOf base d then
      let (digits, rest) := digitGroups (isDigitOf base) (d :: text)
      let value := digitsValue base digits
      let lexeme := if value < 0x10000000000000000 then .token (.number (.ofNat value)) else .malformed
      some (lexeme, '0' :: mark :: digits, rest)
    else none
  | _ => none

/-- A literal that begins with a digit. -/
def number (text : List Char) : Lexeme × List Char × List Char :=
  match radixLiteral? text with
  | some cut => cut
  | none =>
    let (whole, rest) := digitGroups isDigit text
    let (t, taken, rest) := decimalFrom whole rest
    (.token t, taken, rest)

/-- The body of a string up to its closing quote: ordinary characters, and backslashes with the
character after them. The rest begins with the quote if the string is closed. -/
def stringBody (quote : Char) : List Char → List Char × List Char
  | '\\' :: c :: text =>
    let (body, rest) := stringBody quote text
    ('\\' :: c :: body, rest)
  | c :: text =>
    if c == quote || c == '\\' || c == '\n' then ([], c :: text)
    else
      let (body, rest) := stringBody quote text
      (c :: body, rest)
  | [] => ([], [])

/-- A string literal that begins with `quote`. -/
def quoted (quote : Char) (text : List Char) : Lexeme × List Char × List Char :=
  match stringBody quote text with
  | (body, c :: rest) =>
    if c == quote then
      (.token (.string (String.ofList (Escape.read .plain body))), quote :: body ++ [c], rest)
    else (.malformed, quote :: body, c :: rest)
  | (body, []) => (.malformed, quote :: body, [])

/-- A name or reserved word. -/
def word (text : List Char) : Lexeme × List Char × List Char :=
  let (name, rest) := run isNamePart text
  let spelling := String.ofList name
  match Keyword.ofSpelling? spelling with
  | some k => (.token (.keyword k), name, rest)
  | none => (.token (.identifier spelling), name, rest)

/-- A block comment after its opening: up to its end, or all of the text. -/
def blockComment : List Char → List Char × List Char
  | '*' :: '/' :: text => (['*', '/'], text)
  | c :: text => let (taken, rest) := blockComment text; (c :: taken, rest)
  | [] => ([], [])

/-- The longest punctuator at the head of a text. -/
def punct? (text : List Char) : Option Punct :=
  Punct.byLength.find? fun p => p.spelling.toList.isPrefixOf text

/-- A punctuator, or one character that begins no token. -/
def mark (c : Char) (text : List Char) : Lexeme × List Char × List Char :=
  match punct? (c :: text) with
  | some p =>
    let n := p.spelling.toList.length
    (.token (.punct p), (c :: text).take n, (c :: text).drop n)
  | none => (.malformed, [c], text)

/-- The first lexeme of a text: what it is, its characters, and the rest. -/
def cut : List Char → Option (Lexeme × List Char × List Char)
  | [] => none
  | c :: text => some <|
    if isBlank c then (.gap, [c], text)
    else if c == '`' then (.backtick, [c], text)
    else if c == '"' || c == '\'' then quoted c text
    else if isNameStart c then word (c :: text)
    else if isDigit c then number (c :: text)
    else match c, text with
      | '.', d :: rest =>
        if isDigit d then
          let (t, taken, rest) := decimalFrom [] ('.' :: d :: rest)
          (.token t, taken, rest)
        else mark c text
      | '#', '!' :: rest =>
        let (line, rest) := run (· != '\n') rest
        (.gap, '#' :: '!' :: line, rest)
      | '#', d :: rest =>
        if isNameStart d then
          let (name, rest) := run isNamePart (d :: rest)
          (.token (.identifier (String.ofList ('#' :: name))), '#' :: name, rest)
        else (.malformed, [c], text)
      | '/', '/' :: rest =>
        let (line, rest) := run (· != '\n') rest
        (.gap, '/' :: '/' :: line, rest)
      | '/', '*' :: rest =>
        let (body, rest) := blockComment rest
        (.gap, '/' :: '*' :: body, rest)
      | c, text => mark c text

end Lexeme
end ScriptLint
