import ScriptLint.Lint.Document
import ScriptLint.Lint.Predicate

namespace ScriptLint

/-- A piece of a template literal. -/
inductive TemplatePiece where
  /-- The body of a string literal, without its quotes. -/
  | text (raw : List Char)
  /-- The body of another template literal, without its backticks. -/
  | template (raw : List Char)
  /-- Any other operand. -/
  | expression (source : List Char)
  deriving DecidableEq

namespace TemplatePiece

def isExpression : TemplatePiece → Bool
  | .expression _ => true
  | _ => false

/-- The body of a string literal as a part of a template: a backtick and a dollar sign get a
backslash, and what has one keeps it. -/
def escape : List Char → List Char
  | [] => []
  | ['\\'] => ['\\']
  | '\\' :: c :: raw => '\\' :: c :: escape raw
  | c :: raw => if c = '`' ∨ c = '$' then '\\' :: c :: escape raw else c :: escape raw

def render : TemplatePiece → List Char
  | .text raw => escape raw
  | .template raw => raw
  | .expression source => '$' :: '{' :: source ++ ['}']

end TemplatePiece

/-- The template literal made of some pieces. -/
def templateLiteral (pieces : List TemplatePiece) : List Char :=
  '`' :: pieces.flatMap TemplatePiece.render ++ ['`']

/-- A text without its first and its last character. -/
def withoutDelimiters? : List Char → Option (List Char)
  | _ :: c :: text => some (c :: text).dropLast
  | _ => none

namespace Tree

/-- From a sum to its left operand. -/
def sumStep? (t : Tree) (id : NodeId) : Option NodeId :=
  match t.node id with
  | .binaryExpression .add left _ => some left
  | _ => none

def rightOperand? (t : Tree) (id : NodeId) : Option NodeId :=
  match t.node id with
  | .binaryExpression _ _ right => some right
  | _ => none

end Tree

/-- A sum taken apart along its left spine. -/
structure Sum where
  /-- The sums on the spine, innermost first. -/
  spine : List NodeId
  /-- The operands from left to right, one more than there are sums. -/
  operands : List NodeId

namespace Document

/-- Takes a sum apart. -/
def sum (d : Document) (id : NodeId) : Sum :=
  let chain := (d.tree.chain d.tree.sumStep? id).reverse
  let spine := chain.drop 1
  { spine, operands := chain.head?.toList ++ spine.filterMap d.tree.rightOperand? }

/-- The piece that an operand becomes. -/
def templatePiece? (d : Document) (id : NodeId) : Option TemplatePiece := do
  let text ← d.text? id
  if d.tree.isString id then return .text (← withoutDelimiters? text)
  else if d.tree.isTemplate id then return .template (← withoutDelimiters? text)
  else return .expression text

/-- Operands before the `first` string as one piece, if there is more than one. -/
def leadingPieces? (d : Document) (s : Sum) (first : Nat) :
    Option (List TemplatePiece × List NodeId) :=
  if 2 ≤ first then do
    let text ← d.text? (← s.spine[first - 2]?)
    return ([.expression text], s.operands.drop first)
  else return ([], s.operands)

/-- The pieces of the template literal for a sum of at least one string literal and at least one
operand that is no string. -/
def templatePieces? (d : Document) (id : NodeId) : Option (List TemplatePiece) := do
  let s := d.sum id
  guard (!s.spine.isEmpty && s.operands.any d.tree.isString)
  let first ← s.operands.findIdx? fun operand =>
    d.tree.isString operand || d.tree.isTemplate operand
  let (leading, rest) ← d.leadingPieces? s first
  let pieces := leading ++ (← rest.mapM d.templatePiece?)
  if pieces.any TemplatePiece.isExpression then some pieces else none

end Document
end ScriptLint
