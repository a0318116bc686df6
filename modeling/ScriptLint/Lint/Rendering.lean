import ScriptLint.Lint.Document
import ScriptLint.Text.Search

namespace ScriptLint

/-- How tightly a condition holds together, as far as `&&` and `||` care. -/
inductive Strength where
  /-- `??`, conditionals, assignments, sequences, arrow functions and `yield`. -/
  | loose
  | or
  | and
  | tight
  deriving DecidableEq

namespace Strength

def rank : Strength → Nat
  | .loose => 0
  | .or => 1
  | .and => 2
  | .tight => 3

def ofNode : Node → Strength
  | .logicalExpression .or _ _ => .or
  | .logicalExpression .and _ _ => .and
  | .logicalExpression .nullish _ _ => .loose
  | .conditionalExpression .. | .assignmentExpression .. | .sequenceExpression _
  | .arrowFunctionExpression _ | .yieldExpression .. => .loose
  | _ => .tight

end Strength

/-- The text of a condition with its strength. -/
structure Rendered where
  text : List Char
  strength : Strength

namespace Rendered

/-- The text, in parentheses if it holds together less tightly than `floor`. -/
def atLeast (r : Rendered) (floor : Strength) : List Char :=
  if r.strength.rank < floor.rank then '(' :: r.text ++ [')'] else r.text

/-- `a || b`. -/
def or (a b : Rendered) : Rendered :=
  ⟨a.atLeast .or ++ " || ".toList ++ b.atLeast .or, .or⟩

/-- `a && b`. -/
def and (a b : Rendered) : Rendered :=
  ⟨a.atLeast .and ++ " && ".toList ++ b.atLeast .and, .and⟩

end Rendered

/-- A text to put in the place of a stretch of source. -/
structure Substitution where
  start : Nat
  stop : Nat
  text : List Char

/-- A document with some stretches exchanged, in the order of their starts. -/
structure Rendering where
  document : Document
  substitutions : List Substitution := []

/-- The equality that holds when another does not. -/
def complement? : BinaryOperator → Option BinaryOperator
  | .strictEqual => some .strictNotEqual
  | .strictNotEqual => some .strictEqual
  | .equal => some .notEqual
  | .notEqual => some .equal
  | _ => none

namespace Rendering

def ofSubstitutions (document : Document) (substitutions : List Substitution) : Rendering :=
  { document, substitutions := substitutions.mergeSort fun a b => a.start ≤ b.start }

/-- The source from `cursor` up to `stop`; what does not fit in between is not exchanged. -/
def renderFrom (d : Document) (stop : Nat) : Nat → List Substitution → List Char
  | cursor, [] => d.slice cursor stop
  | cursor, s :: rest =>
    if s.start < cursor || stop < s.stop then renderFrom d stop cursor rest
    else d.slice cursor s.start ++ s.text ++ renderFrom d stop s.stop rest

/-- The text of a node. -/
def render? (r : Rendering) (id : NodeId) : Option (List Char) := do
  let range ← r.document.tree.range id
  let _ ← slice? r.document.source range.start range.stop
  return renderFrom r.document range.stop range.start r.substitutions

/-- The text of a node with its strength. -/
def condition? (r : Rendering) (id : NodeId) : Option Rendered :=
  (r.render? id).map fun text => ⟨text, .ofNode (r.document.tree.node id)⟩

/-- `!` in front of the text. -/
def not? (r : Rendering) (id : NodeId) : Option Rendered :=
  (r.render? id).map fun text => ⟨'!' :: text, .tight⟩

/-- `!` in front of the text in parentheses. -/
def notParenthesized? (r : Rendering) (id : NodeId) : Option Rendered :=
  (r.render? id).map fun text => ⟨'!' :: '(' :: text ++ [')'], .tight⟩

/-- A comparison with another operator. Comments around the operator stay. -/
def withOperator? (r : Rendering) (left right : NodeId) (old new : BinaryOperator) :
    Option Rendered := do
  let before ← r.document.tree.range left
  let after ← r.document.tree.range right
  let gap := r.document.slice before.stop after.start
  let gap := replaceFirst old.spelling.toList new.spelling.toList gap
  return ⟨(← r.render? left) ++ gap ++ (← r.render? right), .tight⟩

/-- The negation of a test: a `!` is taken away, an equality turned round, and anything else gets
a `!`. -/
def negated? (r : Rendering) (id : NodeId) : Option Rendered :=
  match r.document.tree.node id with
  | .unaryExpression .not argument =>
    match r.document.tree.node argument with
    | .parenthesizedExpression inner => r.condition? inner
    | _ => r.condition? argument
  | .binaryExpression operator left right =>
    match complement? operator with
    | some other => r.withOperator? left right operator other
    | none => r.notParenthesized? id
  | .identifier _ | .memberExpression _ | .callExpression .. | .chainExpression _
  | .thisExpression | .literal .. | .parenthesizedExpression _ => r.not? id
  | _ => r.notParenthesized? id

/-- The text of the negation of a test. -/
def negate? (r : Rendering) (id : NodeId) : Option (List Char) :=
  (r.negated? id).map (·.text)

end Rendering
end ScriptLint
