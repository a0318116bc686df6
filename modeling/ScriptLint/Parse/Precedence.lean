import ScriptLint.Token.Basic
import ScriptLint.Tree.Operator

namespace ScriptLint

/-- Levels of binding, the loosest first. -/
inductive Precedence where
  | none
  | nullCoalescing
  | logicalOr
  | logicalAnd
  | bitwiseOr
  | bitwiseXor
  | bitwiseAnd
  | equality
  | relational
  | shift
  | additive
  | multiplicative
  | exponentiation
  deriving DecidableEq

namespace Precedence

/-- The number of a level; a higher one binds tighter. -/
def level : Precedence → Nat
  | .none => 0
  | .nullCoalescing => 1
  | .logicalOr => 2
  | .logicalAnd => 3
  | .bitwiseOr => 4
  | .bitwiseXor => 5
  | .bitwiseAnd => 6
  | .equality => 7
  | .relational => 8
  | .shift => 9
  | .additive => 10
  | .multiplicative => 11
  | .exponentiation => 12

/-- The next tighter level, if there is one. -/
def next : Precedence → Precedence
  | .none => .nullCoalescing
  | .nullCoalescing => .logicalOr
  | .logicalOr => .logicalAnd
  | .logicalAnd => .bitwiseOr
  | .bitwiseOr => .bitwiseXor
  | .bitwiseXor => .bitwiseAnd
  | .bitwiseAnd => .equality
  | .equality => .relational
  | .relational => .shift
  | .shift => .additive
  | .additive => .multiplicative
  | .multiplicative => .exponentiation
  | .exponentiation => .exponentiation

end Precedence

/-- An operator between two operands. -/
inductive InfixOperator where
  | binary (operator : BinaryOperator)
  | logical (operator : LogicalOperator)
  deriving DecidableEq

namespace BinaryOperator

def precedence : BinaryOperator → Precedence
  | .equal | .notEqual | .strictEqual | .strictNotEqual => .equality
  | .less | .lessEqual | .greater | .greaterEqual | .isIn | .instanceOf => .relational
  | .shiftLeft | .shiftRight | .unsignedShiftRight => .shift
  | .add | .subtract => .additive
  | .multiply | .divide | .remainder => .multiplicative
  | .exponent => .exponentiation
  | .bitOr => .bitwiseOr
  | .bitXor => .bitwiseXor
  | .bitAnd => .bitwiseAnd

end BinaryOperator

namespace LogicalOperator

def precedence : LogicalOperator → Precedence
  | .nullish => .nullCoalescing
  | .or => .logicalOr
  | .and => .logicalAnd

end LogicalOperator

namespace InfixOperator

def precedence : InfixOperator → Precedence
  | .binary operator => operator.precedence
  | .logical operator => operator.precedence

def spelling : InfixOperator → String
  | .binary operator => operator.spelling
  | .logical operator => operator.spelling

/-- The operator that a token is. The word `in` is one only where it is allowed. -/
def ofToken? (allowIn : Bool) : Token → Option InfixOperator
  | .punct mark =>
    match mark with
    | .questionQuestion => some (.logical .nullish)
    | .pipePipe => some (.logical .or)
    | .ampAmp => some (.logical .and)
    | .pipe => some (.binary .bitOr)
    | .caret => some (.binary .bitXor)
    | .amp => some (.binary .bitAnd)
    | .equalEqual => some (.binary .equal)
    | .bangEqual => some (.binary .notEqual)
    | .equalEqualEqual => some (.binary .strictEqual)
    | .bangEqualEqual => some (.binary .strictNotEqual)
    | .less => some (.binary .less)
    | .lessEqual => some (.binary .lessEqual)
    | .greater => some (.binary .greater)
    | .greaterEqual => some (.binary .greaterEqual)
    | .lessLess => some (.binary .shiftLeft)
    | .greaterGreater => some (.binary .shiftRight)
    | .greaterGreaterGreater => some (.binary .unsignedShiftRight)
    | .plus => some (.binary .add)
    | .minus => some (.binary .subtract)
    | .star => some (.binary .multiply)
    | .slash => some (.binary .divide)
    | .percent => some (.binary .remainder)
    | .starStar => some (.binary .exponent)
    | _ => none
  | .keyword .instanceofWord => some (.binary .instanceOf)
  | .keyword .inWord => if allowIn then some (.binary .isIn) else none
  | _ => none

/-- Only exponentiation groups to the right. -/
def rightAssociative (operator : InfixOperator) : Bool := operator == .binary .exponent

/-- The level that a right operand must have at least. -/
def operandLevel (operator : InfixOperator) : Precedence :=
  if operator.rightAssociative then operator.precedence else operator.precedence.next

end InfixOperator

namespace AssignmentOperator

/-- The assignment that a token is. -/
def ofToken? : Token → Option AssignmentOperator
  | .punct mark =>
    match mark with
    | .equal => some .assign
    | .plusEqual => some .add
    | .minusEqual => some .subtract
    | .starEqual => some .multiply
    | .slashEqual => some .divide
    | .percentEqual => some .remainder
    | .starStarEqual => some .exponent
    | .lessLessEqual => some .shiftLeft
    | .greaterGreaterEqual => some .shiftRight
    | .greaterGreaterGreaterEqual => some .unsignedShiftRight
    | .pipeEqual => some .bitOr
    | .caretEqual => some .bitXor
    | .ampEqual => some .bitAnd
    | .ampAmpEqual => some .and
    | .pipePipeEqual => some .or
    | .questionQuestionEqual => some .nullish
    | _ => none
  | _ => none

end AssignmentOperator

namespace UnaryOperator

/-- The operator that a token is before an operand. -/
def ofToken? : Token → Option UnaryOperator
  | .punct .bang => some .not
  | .punct .tilde => some .bitNot
  | .punct .plus => some .plus
  | .punct .minus => some .minus
  | .keyword .typeofWord => some .typeOf
  | .keyword .voidWord => some .void
  | .keyword .deleteWord => some .delete
  | _ => none

end UnaryOperator

namespace UpdateOperator

def ofToken? : Token → Option UpdateOperator
  | .punct .plusPlus => some .increment
  | .punct .minusMinus => some .decrement
  | _ => none

end UpdateOperator
end ScriptLint
