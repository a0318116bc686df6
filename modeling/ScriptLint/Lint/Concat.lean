import ScriptLint.Lint.Document
import ScriptLint.Lint.Predicate

namespace ScriptLint

namespace Tree

/-- The array on which a plain `.concat(…)` is called. -/
def concatReceiver? (t : Tree) (id : NodeId) : Option NodeId :=
  match t.node id with
  | .callExpression callee _ optional =>
    match t.member? callee with
    | some member =>
      if optional || member.optional then none else t.memberCall? "concat" id
    | none => none
  | _ => none

def callArguments (t : Tree) (id : NodeId) : List NodeId :=
  match t.node id with
  | .callExpression _ arguments _ => arguments
  | _ => []

/-- Whether `.concat(…)` is called on the node, which then is not the outermost of its chain. -/
def isConcatReceiver (t : Tree) (id : NodeId) : Bool :=
  ((t.parent id).bind t.parent).bind t.concatReceiver? == some id

/-- An array literal without holes, or a static path. -/
def isSpreadable (t : Tree) (id : NodeId) : Bool :=
  match t.node id with
  | .arrayExpression elements => elements.all Option.isSome
  | _ => t.isStaticPath id

/-- Receiver and arguments of the calls of a chain of nodes, outermost call first. -/
def concatOperands (t : Tree) (chain : List NodeId) : List NodeId :=
  chain.getLast?.toList ++ (chain.dropLast.reverse.flatMap t.callArguments)

/-- The operands of `a.concat(b).concat(c, d)`: the receiver, then every argument in the order of
the calls. Only the outermost call of a chain has operands, and only if all can be spread. -/
def concatChain? (t : Tree) (id : NodeId) : Option (List NodeId) :=
  if (t.concatReceiver? id).isNone || t.isConcatReceiver id then none
  else
    let operands := t.concatOperands (t.chain t.concatReceiver? id)
    if operands.all t.isSpreadable then some operands else none

/-- Whether it comes to an end to ask one operand after the other, up to the first that cannot be
spread. -/
def spreadsEnd (t : Tree) : List NodeId → Bool
  | [] => true
  | operand :: rest =>
    t.chainEnds t.pathStep? operand && (!t.isSpreadable operand || t.spreadsEnd rest)

/-- Whether it comes to an end to look for the operands of a chain and to ask whether they can be
spread. -/
def concatEnds (t : Tree) (id : NodeId) : Bool :=
  if (t.concatReceiver? id).isNone || t.isConcatReceiver id then true
  else t.chainEnds t.concatReceiver? id &&
    t.spreadsEnd (t.concatOperands (t.chain t.concatReceiver? id))

end Tree

/-- An entry of an array literal. -/
inductive SpreadPart where
  /-- One item, as it is written. -/
  | inline (text : List Char)
  /-- All items of an array. -/
  | spread (text : List Char)

namespace SpreadPart

def render : SpreadPart → List Char
  | .inline text => text
  | .spread text => '.' :: '.' :: '.' :: text

end SpreadPart

/-- The array literal with these entries. -/
def spreadArray (parts : List SpreadPart) : List Char :=
  '[' :: [',', ' '].intercalate (parts.map SpreadPart.render) ++ [']']

namespace Document

/-- The entries that an operand stands for: those of an array literal, else all its items. -/
def spreadParts? (d : Document) (operand : NodeId) : Option (List SpreadPart) :=
  match d.tree.node operand with
  | .arrayExpression elements =>
    (elements.filterMap id).mapM fun element => (d.text? element).map .inline
  | _ => (d.text? operand).map fun text => [.spread text]

/-- The entries of the array literal that a chain of calls amounts to. -/
def concatParts? (d : Document) (operands : List NodeId) : Option (List SpreadPart) :=
  (operands.mapM d.spreadParts?).map List.flatten

end Document
end ScriptLint
