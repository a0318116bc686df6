import ScriptLint.Token.Escape

namespace ScriptLint
namespace Toml

/-- What was read, and the text after it. -/
abbrev Reader (α : Type) := List Char → Option (α × List Char)

/-- Blank or tab. -/
def isBlank (c : Char) : Bool := c == ' ' || c == '\t'

def skipBlanks (text : List Char) : List Char := text.dropWhile isBlank

/-- Characters that may stand in a string as themselves. -/
def isPlain (c : Char) : Bool := c == '\t' || (0x20 ≤ c.toNat && c.toNat != 0x7F)

/-- The character of an escape of one letter. -/
def letterEscape? : Char → Option Char
  | 'b' => some '\x08'
  | 't' => some '\t'
  | 'n' => some '\n'
  | 'f' => some '\x0c'
  | 'r' => some '\r'
  | '"' => some '"'
  | '\\' => some '\\'
  | _ => none

/-- The character with a code point in hexadecimal digits. -/
def codePoint? (digits : List Char) : Option Char := do
  let values ← digits.mapM Escape.hexValue?
  Escape.char? (values.foldl (fun n d => 16 * n + d) 0)

/-- A character in front of what was read. -/
def consChar (c : Char) (read : List Char × List Char) : List Char × List Char :=
  (c :: read.1, read.2)

/-- A string of one line up to its closing quote. -/
def quoted : Reader (List Char)
  | [] => none
  | '"' :: text => some ([], text)
  | '\\' :: 'u' :: a :: b :: c :: d :: text =>
    (codePoint? [a, b, c, d]).bind fun char => (quoted text).map (consChar char)
  | '\\' :: 'U' :: a :: b :: c :: d :: e :: f :: g :: h :: text =>
    (codePoint? [a, b, c, d, e, f, g, h]).bind fun char => (quoted text).map (consChar char)
  | '\\' :: c :: text => (letterEscape? c).bind fun char => (quoted text).map (consChar char)
  | c :: text => if isPlain c && c != '\\' then (quoted text).map (consChar c) else none

/-- A string of one line up to its closing apostrophe. -/
def literal : Reader (List Char)
  | [] => none
  | c :: text =>
    if c == '\'' then some ([], text)
    else if isPlain c then (literal text).map (consChar c) else none

/-- Whether only blanks stand before the end of the line. -/
def blankLine (text : List Char) : Bool :=
  match skipBlanks text with
  | '\n' :: _ | '\r' :: '\n' :: _ => true
  | _ => false

/-- A string of several lines up to its three closing quotes, before which two more may stand. With
`skip` set, blanks and line ends are left out up to the next character. -/
def quotedLines : Bool → Reader (List Char)
  | _, [] => none
  | _, '"' :: '"' :: '"' :: '"' :: '"' :: text => some (['"', '"'], text)
  | _, '"' :: '"' :: '"' :: '"' :: text => some (['"'], text)
  | _, '"' :: '"' :: '"' :: text => some ([], text)
  | _, '\\' :: 'u' :: a :: b :: c :: d :: text =>
    (codePoint? [a, b, c, d]).bind fun char => (quotedLines false text).map (consChar char)
  | _, '\\' :: 'U' :: a :: b :: c :: d :: e :: f :: g :: h :: text =>
    (codePoint? [a, b, c, d, e, f, g, h]).bind fun char =>
      (quotedLines false text).map (consChar char)
  | skip, '\r' :: '\n' :: text =>
    if skip then quotedLines true text else (quotedLines false text).map (consChar '\n')
  | skip, '\n' :: text =>
    if skip then quotedLines true text else (quotedLines false text).map (consChar '\n')
  | _, '\\' :: c :: text =>
    if blankLine (c :: text) then quotedLines true (c :: text)
    else (letterEscape? c).bind fun char => (quotedLines false text).map (consChar char)
  | skip, c :: text =>
    if skip && isBlank c then quotedLines true text
    else if isPlain c && c != '\\' then (quotedLines false text).map (consChar c) else none

/-- A string of several lines up to its three closing apostrophes. -/
def literalLines : Reader (List Char)
  | [] => none
  | '\'' :: '\'' :: '\'' :: '\'' :: '\'' :: text => some (['\'', '\''], text)
  | '\'' :: '\'' :: '\'' :: '\'' :: text => some (['\''], text)
  | '\'' :: '\'' :: '\'' :: text => some ([], text)
  | '\r' :: '\n' :: text => (literalLines text).map (consChar '\n')
  | '\n' :: text => (literalLines text).map (consChar '\n')
  | c :: text => if isPlain c then (literalLines text).map (consChar c) else none

/-- A text without a line end in front. -/
def dropLineEnd : List Char → List Char
  | '\n' :: text | '\r' :: '\n' :: text => text
  | text => text

/-- A string of any form. -/
def string : Reader String := fun text =>
  let named (read : Option (List Char × List Char)) :=
    read.map fun (body, rest) => (String.ofList body, rest)
  match text with
  | '"' :: '"' :: '"' :: rest => named (quotedLines false (dropLineEnd rest))
  | '\'' :: '\'' :: '\'' :: rest => named (literalLines (dropLineEnd rest))
  | '"' :: rest => named (quoted rest)
  | '\'' :: rest => named (literal rest)
  | _ => none

/-- Letters, digits, underscore and hyphen. -/
def isKeyChar (c : Char) : Bool := c.isAlphanum || c == '_' || c == '-'

/-- One part of a key. -/
def keyPart : Reader String := fun text =>
  match text with
  | '"' :: rest => (quoted rest).map fun (body, rest) => (String.ofList body, rest)
  | '\'' :: rest => (literal rest).map fun (body, rest) => (String.ofList body, rest)
  | _ =>
    let part := text.takeWhile isKeyChar
    if part.isEmpty then none else some (String.ofList part, text.dropWhile isKeyChar)

/-- A key of at most `fuel` parts with dots between them, and the blanks around it. -/
def keyUpTo : Nat → Reader (List String)
  | 0, _ => none
  | fuel + 1, text => do
    let (part, rest) ← keyPart (skipBlanks text)
    match skipBlanks rest with
    | '.' :: rest => (keyUpTo fuel rest).map fun (parts, rest) => (part :: parts, rest)
    | rest => return ([part], rest)

/-- The number of parts of a key and of levels of brackets stays below this. -/
def depthLimit : Nat := 80

/-- A key, split into its path and its last part. -/
def key : Reader (List String × String) := fun text => do
  let (parts, rest) ← keyUpTo (depthLimit - 1) text
  return ((parts.dropLast, ← parts.getLast?), rest)

end Toml
end ScriptLint
