
namespace ScriptLint

/-- The word that opens a variable declaration. -/
inductive VariableKind where
  | varKind
  | letKind
  | constKind
  deriving DecidableEq

namespace VariableKind

def all : List VariableKind :=
  [.varKind, .letKind, .constKind]

def spelling : VariableKind → String
  | .varKind => "var"
  | .letKind => "let"
  | .constKind => "const"

def ofSpelling? (text : String) : Option VariableKind := all.find? (·.spelling == text)

end VariableKind

/-- What a member of an object literal defines. -/
inductive PropertyKind where
  | init
  | get
  | set
  deriving DecidableEq

namespace PropertyKind

def all : List PropertyKind :=
  [.init, .get, .set]

def spelling : PropertyKind → String
  | .init => "init"
  | .get => "get"
  | .set => "set"

def ofSpelling? (text : String) : Option PropertyKind := all.find? (·.spelling == text)

end PropertyKind

/-- What a method of a class is. -/
inductive MethodKind where
  | constructor
  | method
  | get
  | set
  deriving DecidableEq

namespace MethodKind

def all : List MethodKind :=
  [.constructor, .method, .get, .set]

def spelling : MethodKind → String
  | .constructor => "constructor"
  | .method => "method"
  | .get => "get"
  | .set => "set"

def ofSpelling? (text : String) : Option MethodKind := all.find? (·.spelling == text)

end MethodKind

/-- Operators before one operand. -/
inductive UnaryOperator where
  | minus
  | plus
  | not
  | bitNot
  | typeOf
  | void
  | delete
  deriving DecidableEq

namespace UnaryOperator

def all : List UnaryOperator :=
  [.minus, .plus, .not, .bitNot, .typeOf, .void, .delete]

def spelling : UnaryOperator → String
  | .minus => "-"
  | .plus => "+"
  | .not => "!"
  | .bitNot => "~"
  | .typeOf => "typeof"
  | .void => "void"
  | .delete => "delete"

def ofSpelling? (text : String) : Option UnaryOperator := all.find? (·.spelling == text)

end UnaryOperator

/-- Operators that change their operand. -/
inductive UpdateOperator where
  | increment
  | decrement
  deriving DecidableEq

namespace UpdateOperator

def all : List UpdateOperator :=
  [.increment, .decrement]

def spelling : UpdateOperator → String
  | .increment => "++"
  | .decrement => "--"

def ofSpelling? (text : String) : Option UpdateOperator := all.find? (·.spelling == text)

end UpdateOperator

/-- Operators on two values. -/
inductive BinaryOperator where
  | equal
  | notEqual
  | strictEqual
  | strictNotEqual
  | less
  | lessEqual
  | greater
  | greaterEqual
  | shiftLeft
  | shiftRight
  | unsignedShiftRight
  | add
  | subtract
  | multiply
  | divide
  | remainder
  | exponent
  | bitOr
  | bitXor
  | bitAnd
  | isIn
  | instanceOf
  deriving DecidableEq

namespace BinaryOperator

def all : List BinaryOperator :=
  [.equal, .notEqual, .strictEqual, .strictNotEqual, .less, .lessEqual, .greater, .greaterEqual,
   .shiftLeft, .shiftRight, .unsignedShiftRight, .add, .subtract, .multiply, .divide,
   .remainder, .exponent, .bitOr, .bitXor, .bitAnd, .isIn, .instanceOf]

def spelling : BinaryOperator → String
  | .equal => "=="
  | .notEqual => "!="
  | .strictEqual => "==="
  | .strictNotEqual => "!=="
  | .less => "<"
  | .lessEqual => "<="
  | .greater => ">"
  | .greaterEqual => ">="
  | .shiftLeft => "<<"
  | .shiftRight => ">>"
  | .unsignedShiftRight => ">>>"
  | .add => "+"
  | .subtract => "-"
  | .multiply => "*"
  | .divide => "/"
  | .remainder => "%"
  | .exponent => "**"
  | .bitOr => "|"
  | .bitXor => "^"
  | .bitAnd => "&"
  | .isIn => "in"
  | .instanceOf => "instanceof"

def ofSpelling? (text : String) : Option BinaryOperator := all.find? (·.spelling == text)

end BinaryOperator

/-- Operators that may leave their right operand unevaluated. -/
inductive LogicalOperator where
  | and
  | or
  | nullish
  deriving DecidableEq

namespace LogicalOperator

def all : List LogicalOperator :=
  [.and, .or, .nullish]

def spelling : LogicalOperator → String
  | .and => "&&"
  | .or => "||"
  | .nullish => "??"

def ofSpelling? (text : String) : Option LogicalOperator := all.find? (·.spelling == text)

end LogicalOperator

/-- Operators that assign. -/
inductive AssignmentOperator where
  | assign
  | add
  | subtract
  | multiply
  | divide
  | remainder
  | exponent
  | shiftLeft
  | shiftRight
  | unsignedShiftRight
  | bitOr
  | bitXor
  | bitAnd
  | and
  | or
  | nullish
  deriving DecidableEq

namespace AssignmentOperator

def all : List AssignmentOperator :=
  [.assign, .add, .subtract, .multiply, .divide, .remainder, .exponent, .shiftLeft, .shiftRight,
   .unsignedShiftRight, .bitOr, .bitXor, .bitAnd, .and, .or, .nullish]

def spelling : AssignmentOperator → String
  | .assign => "="
  | .add => "+="
  | .subtract => "-="
  | .multiply => "*="
  | .divide => "/="
  | .remainder => "%="
  | .exponent => "**="
  | .shiftLeft => "<<="
  | .shiftRight => ">>="
  | .unsignedShiftRight => ">>>="
  | .bitOr => "|="
  | .bitXor => "^="
  | .bitAnd => "&="
  | .and => "&&="
  | .or => "||="
  | .nullish => "??="

def ofSpelling? (text : String) : Option AssignmentOperator := all.find? (·.spelling == text)

end AssignmentOperator

end ScriptLint
