import ScriptLint.Lint.TemplateText
import ScriptLint.Proofs.Tree.Ending
import ScriptLint.Proofs.Parse.Integrity

namespace ScriptLint

/-- What an operand is at run time: a string, or anything else. -/
inductive SumValue (α : Type) where
  | string (text : List Char)
  | other (value : α)

/-- The text that a value other than a string is converted to, and what two such values add up
to. -/
structure Addition (α : Type) where
  text : α → List Char
  add : α → α → SumValue α

namespace Addition

variable {α : Type} (a : Addition α)

/-- A value converted to a string. -/
def textOf : SumValue α → List Char
  | .string text => text
  | .other value => a.text value

/-- Two values added: strings if one of them is a string. -/
def plus : SumValue α → SumValue α → SumValue α
  | .other v, .other w => a.add v w
  | v, w => .string (a.textOf v ++ a.textOf w)

end Addition

namespace Tree

variable {α : Type}

/-- Values for the operands of sums, strings where a string or a template is written. -/
structure Valuation (t : Tree) (α : Type) where
  value : NodeId → SumValue α
  string_of_isString : ∀ id, t.isString id → ∃ text, value id = .string text
  string_of_isTemplate : ∀ id, t.isTemplate id → ∃ text, value id = .string text

/-- The value of a sum. -/
inductive Evaluates (t : Tree) (a : Addition α) (val : t.Valuation α) :
    NodeId → SumValue α → Prop
  | operand {id} : t.sumStep? id = none → Evaluates t a val id (val.value id)
  | sum {id left right v} : t.node id = .binaryExpression .add left right →
      Evaluates t a val left v → Evaluates t a val id (a.plus v (val.value right))

/-- A sum cut in the same way, whatever its parts are. -/
inductive SumOf (t : Tree) : NodeId → List NodeId → Prop
  | whole {id} : SumOf t id [id]
  | sum {id left right parts} : t.node id = .binaryExpression .add left right →
      SumOf t left parts → SumOf t id (parts ++ [right])

variable {t : Tree} {a : Addition α} {val : t.Valuation α} {id node : NodeId}
  {v w : SumValue α} {spine operands : List NodeId} {parts : List (NodeId × SumValue α)}

theorem Evaluates.eq (hv : Evaluates t a val id v) (hw : Evaluates t a val id w) : v = w := by
  induction hv generalizing w with
  | operand hnone =>
    cases hw with
    | operand _ => rfl
    | sum hnode _ => simp [sumStep?, hnode] at hnone
  | sum hnode _ ih =>
    cases hw with
    | operand hnone => simp [sumStep?, hnode] at hnone
    | sum hnode' hleft =>
      cases hnode.symm.trans hnode'
      rw [ih hleft]

/-- The parts of a sum lie below it. -/
theorem SumOf.reaches {nodes : List NodeId} (h : SumOf t id nodes) :
    ∀ i ∈ nodes, t.Reaches id i := by
  induction h with
  | whole =>
    intro i hi
    rw [List.mem_singleton.mp hi]
    exact .refl
  | @sum id left right parts hnode _ ih =>
    have hchildren : t.children id = [left, right] := by rw [children, hnode]; rfl
    intro i hi
    rcases List.mem_append.mp hi with hi | hi
    · exact .head (by simp [hchildren]) (ih i hi)
    · rw [List.mem_singleton.mp hi]
      exact .single (by simp [hchildren])

end Tree

namespace Addition

variable {α : Type}

end Addition

namespace Document

open Tree

variable {d : Document} {id : NodeId} {pieces : List TemplatePiece}

end Document
end ScriptLint
