import ScriptLint.Source.Span
import ScriptLint.Number.Shortest

namespace ScriptLint

/-- Reserved words. -/
inductive Keyword where
  | awaitWord
  | breakWord
  | caseWord
  | catchWord
  | classWord
  | constWord
  | continueWord
  | debuggerWord
  | defaultWord
  | deleteWord
  | doWord
  | elseWord
  | exportWord
  | extendsWord
  | falseWord
  | finallyWord
  | forWord
  | functionWord
  | ifWord
  | importWord
  | inWord
  | instanceofWord
  | letWord
  | newWord
  | nullWord
  | returnWord
  | superWord
  | switchWord
  | thisWord
  | throwWord
  | trueWord
  | tryWord
  | typeofWord
  | varWord
  | voidWord
  | whileWord
  | yieldWord
  deriving DecidableEq

namespace Keyword

def all : List Keyword :=
  [.awaitWord, .breakWord, .caseWord, .catchWord, .classWord, .constWord, .continueWord,
   .debuggerWord, .defaultWord, .deleteWord, .doWord, .elseWord, .exportWord, .extendsWord,
   .falseWord, .finallyWord, .forWord, .functionWord, .ifWord, .importWord, .inWord,
   .instanceofWord, .letWord, .newWord, .nullWord, .returnWord, .superWord, .switchWord,
   .thisWord, .throwWord, .trueWord, .tryWord, .typeofWord, .varWord, .voidWord, .whileWord,
   .yieldWord]

def spelling : Keyword → String
  | .awaitWord => "await"
  | .breakWord => "break"
  | .caseWord => "case"
  | .catchWord => "catch"
  | .classWord => "class"
  | .constWord => "const"
  | .continueWord => "continue"
  | .debuggerWord => "debugger"
  | .defaultWord => "default"
  | .deleteWord => "delete"
  | .doWord => "do"
  | .elseWord => "else"
  | .exportWord => "export"
  | .extendsWord => "extends"
  | .falseWord => "false"
  | .finallyWord => "finally"
  | .forWord => "for"
  | .functionWord => "function"
  | .ifWord => "if"
  | .importWord => "import"
  | .inWord => "in"
  | .instanceofWord => "instanceof"
  | .letWord => "let"
  | .newWord => "new"
  | .nullWord => "null"
  | .returnWord => "return"
  | .superWord => "super"
  | .switchWord => "switch"
  | .thisWord => "this"
  | .throwWord => "throw"
  | .trueWord => "true"
  | .tryWord => "try"
  | .typeofWord => "typeof"
  | .varWord => "var"
  | .voidWord => "void"
  | .whileWord => "while"
  | .yieldWord => "yield"

def ofSpelling? (text : String) : Option Keyword := all.find? (·.spelling == text)

end Keyword

/-- Operators and delimiters. -/
inductive Punct where
  | plus
  | minus
  | star
  | slash
  | percent
  | starStar
  | plusPlus
  | minusMinus
  | bang
  | tilde
  | equalEqual
  | bangEqual
  | equalEqualEqual
  | bangEqualEqual
  | less
  | lessEqual
  | greater
  | greaterEqual
  | ampAmp
  | pipePipe
  | questionQuestion
  | amp
  | pipe
  | caret
  | lessLess
  | greaterGreater
  | greaterGreaterGreater
  | equal
  | plusEqual
  | minusEqual
  | starEqual
  | slashEqual
  | percentEqual
  | starStarEqual
  | ampEqual
  | pipeEqual
  | caretEqual
  | lessLessEqual
  | greaterGreaterEqual
  | greaterGreaterGreaterEqual
  | ampAmpEqual
  | pipePipeEqual
  | questionQuestionEqual
  | question
  | questionDot
  | dotDotDot
  | dot
  | colon
  | arrow
  | atSign
  | leftParen
  | rightParen
  | leftBrace
  | rightBrace
  | leftBracket
  | rightBracket
  | semicolon
  | comma
  deriving DecidableEq

namespace Punct

def spelling : Punct → String
  | .plus => "+"
  | .minus => "-"
  | .star => "*"
  | .slash => "/"
  | .percent => "%"
  | .starStar => "**"
  | .plusPlus => "++"
  | .minusMinus => "--"
  | .bang => "!"
  | .tilde => "~"
  | .equalEqual => "=="
  | .bangEqual => "!="
  | .equalEqualEqual => "==="
  | .bangEqualEqual => "!=="
  | .less => "<"
  | .lessEqual => "<="
  | .greater => ">"
  | .greaterEqual => ">="
  | .ampAmp => "&&"
  | .pipePipe => "||"
  | .questionQuestion => "??"
  | .amp => "&"
  | .pipe => "|"
  | .caret => "^"
  | .lessLess => "<<"
  | .greaterGreater => ">>"
  | .greaterGreaterGreater => ">>>"
  | .equal => "="
  | .plusEqual => "+="
  | .minusEqual => "-="
  | .starEqual => "*="
  | .slashEqual => "/="
  | .percentEqual => "%="
  | .starStarEqual => "**="
  | .ampEqual => "&="
  | .pipeEqual => "|="
  | .caretEqual => "^="
  | .lessLessEqual => "<<="
  | .greaterGreaterEqual => ">>="
  | .greaterGreaterGreaterEqual => ">>>="
  | .ampAmpEqual => "&&="
  | .pipePipeEqual => "||="
  | .questionQuestionEqual => "??="
  | .question => "?"
  | .questionDot => "?."
  | .dotDotDot => "..."
  | .dot => "."
  | .colon => ":"
  | .arrow => "=>"
  | .atSign => "@"
  | .leftParen => "("
  | .rightParen => ")"
  | .leftBrace => "\x7b"
  | .rightBrace => "\x7d"
  | .leftBracket => "["
  | .rightBracket => "]"
  | .semicolon => ";"
  | .comma => ","

/-- Every punctuator, longer spellings first. -/
def byLength : List Punct :=
  [.greaterGreaterGreaterEqual, .equalEqualEqual, .bangEqualEqual, .greaterGreaterGreater,
   .starStarEqual, .lessLessEqual, .greaterGreaterEqual, .ampAmpEqual, .pipePipeEqual,
   .questionQuestionEqual, .dotDotDot, .starStar, .plusPlus, .minusMinus, .equalEqual,
   .bangEqual, .lessEqual, .greaterEqual, .ampAmp, .pipePipe, .questionQuestion, .lessLess,
   .greaterGreater, .plusEqual, .minusEqual, .starEqual, .slashEqual, .percentEqual, .ampEqual,
   .pipeEqual, .caretEqual, .questionDot, .arrow, .plus, .minus, .star, .slash, .percent, .bang,
   .tilde, .less, .greater, .amp, .pipe, .caret, .equal, .question, .dot, .colon, .atSign,
   .leftParen, .rightParen, .leftBrace, .rightBrace, .leftBracket, .rightBracket, .semicolon,
   .comma]

end Punct

mutual

/-- A token of the source. -/
inductive Token where
  | keyword (word : Keyword)
  | number (value : Binary64)
  /-- A string with its quotes removed and its escapes resolved. -/
  | string (value : String)
  | template (parts : List TemplatePart)
  /-- A name; that of a private member keeps its `#`. -/
  | identifier (name : String)
  | punct (mark : Punct)
  | eof

/-- A stretch of a template literal. -/
inductive TemplatePart where
  /-- Raw text, escapes untouched. -/
  | quasi (raw : String) (span : Span)
  /-- The tokens of a substitution, the last one `eof`. -/
  | substitution (tokens : List (Token × Span))

end

instance : Inhabited Token := ⟨.eof⟩

namespace Token

/-- How a token is named in messages. -/
def display : Token → String
  | .keyword word => word.spelling
  | .number value => value.toDecimal
  | .string _ => "<string>"
  | .template _ => "`...`"
  | .identifier name => name
  | .punct mark => mark.spelling
  | .eof => "<eof>"

/-- Whether two tokens are of one kind. Payloads do not count, so any two keywords are alike;
punctuators are alike if they are the same. -/
def sameKind : Token → Token → Bool
  | .keyword _, .keyword _ => true
  | .number _, .number _ => true
  | .string _, .string _ => true
  | .template _, .template _ => true
  | .identifier _, .identifier _ => true
  | .punct a, .punct b => a == b
  | .eof, .eof => true
  | _, _ => false

def isKeyword (word : Keyword) : Token → Bool
  | .keyword w => w == word
  | _ => false

def isPunct (mark : Punct) : Token → Bool
  | .punct m => m == mark
  | _ => false

def isName (name : String) : Token → Bool
  | .identifier n => n == name
  | _ => false

def isEof : Token → Bool
  | .eof => true
  | _ => false

end Token
end ScriptLint
