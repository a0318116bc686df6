import ScriptLint.Lint.Rendering
import ScriptLint.Parse.Program
import ScriptLint.Proofs.Parse.Integrity
import ScriptLint.Proofs.Parse.Phrase
import ScriptLint.Proofs.Tree.Copied
import ScriptLint.Proofs.Tree.Search

namespace ScriptLint

open Position (origin)
open Parse (Phrase Phrased Place)

variable {α β : Type}

/-- What expressions come to, and what is made of that. Truth values are any type with an opposite
of each one, in which it does not matter how a chain of `&&` or of `||` is grouped. -/
structure Interpretation (α β : Type) where
  value : Tree → NodeId → α
  truth : α → β
  strictlyEqual : α → α → β
  equal : α → α → β
  not : β → β
  and : β → β → β
  or : β → β → β
  not_not : ∀ b, not (not b) = b
  and_assoc : ∀ a b c, and (and a b) c = and a (and b c)
  or_assoc : ∀ a b c, or (or a b) c = or a (or b c)

namespace Interpretation

/-- With truth tables. -/
def boolean (value : Tree → NodeId → α) (truth : α → Bool) (strictlyEqual equal : α → α → Bool) :
    Interpretation α Bool where
  value
  truth
  strictlyEqual
  equal
  not := Bool.not
  and := Bool.and
  or := Bool.or
  not_not := Bool.not_not
  and_assoc := Bool.and_assoc
  or_assoc := Bool.or_assoc

/-- Copies of an expression of the tree come to the same. -/
def Respects (m : Interpretation α β) (x : Exchange) (t : Tree) : Prop :=
  ∀ t' i i', t.Copied x t' i i' → m.value t' i' = m.value t i

/-- What an equality says of its operands. -/
def compare? (m : Interpretation α β) : BinaryOperator → Option (α → α → β)
  | .strictEqual => some m.strictlyEqual
  | .strictNotEqual => some fun x y => m.not (m.strictlyEqual x y)
  | .equal => some m.equal
  | .notEqual => some fun x y => m.not (m.equal x y)
  | _ => none

/-- Complementary equalities say the opposite of each other. -/
theorem exists_compare {operator other : BinaryOperator} (h : complement? operator = some other)
    (m : Interpretation α β) : ∃ compare, m.compare? operator = some compare ∧
      m.compare? other = some fun x y => m.not (compare x y) := by
  cases operator <;> simp only [complement?, Option.some.injEq, reduceCtorEq] at h <;> subst h <;>
    simp [compare?, m.not_not]

end Interpretation

/-- Whether the truth of an expression is that of its value, not made from its parts. -/
def Node.isOperand : Node → Bool
  | .parenthesizedExpression _ | .unaryExpression .not _ | .logicalExpression .and _ _
  | .logicalExpression .or _ _ => false
  | .binaryExpression operator _ _ => (complement? operator).isNone
  | _ => true

/-- The truth of an expression. -/
inductive Tree.Holds (t : Tree) (m : Interpretation α β) : NodeId → β → Prop
  | group {id inner b} : t.node id = .parenthesizedExpression inner → Holds t m inner b →
      Holds t m id b
  | not {id argument b} : t.node id = .unaryExpression .not argument →
      Holds t m argument b → Holds t m id (m.not b)
  | and {id left right a b} : t.node id = .logicalExpression .and left right →
      Holds t m left a → Holds t m right b → Holds t m id (m.and a b)
  | or {id left right a b} : t.node id = .logicalExpression .or left right →
      Holds t m left a → Holds t m right b → Holds t m id (m.or a b)
  | equality {id operator left right compare} :
      t.node id = .binaryExpression operator left right → m.compare? operator = some compare →
      Holds t m id (compare (m.value t left) (m.value t right))
  | operand {id} : (t.node id).isOperand = true → Holds t m id (m.truth (m.value t id))

namespace Document

/-- An expression in parentheses that stands alone in a document. -/
def expression? (text : List Char) : Option (Document × NodeId) :=
  match parse ('(' :: text ++ [')']) with
  | .error _ => none
  | .ok t =>
    match t.root.map t.node with
    | some (.program [statement]) =>
      match t.node statement with
      | .expressionStatement group =>
        match t.node group with
        | .parenthesizedExpression id => some (⟨"", '(' :: text ++ [')'], t⟩, id)
        | _ => none
      | _ => none
    | _ => none

end Document

variable {x : Exchange} {t t' : Tree} {i i' id : NodeId} {b : β}

/-- Where an expression of some strength is read. -/
def Strength.place : Strength → Place
  | .loose => .expression
  | .or => .operands .logicalOr
  | .and => .operands .logicalAnd
  | .tight => .operands .bitwiseOr

/-- What stands in parentheses, or else the node itself. -/
def Tree.unenclosed (t : Tree) (id : NodeId) : NodeId :=
  match t.node id with
  | .parenthesizedExpression inner => inner
  | _ => id

namespace Tree

/-- A node of a tree is the negation of a node of another one: a copy of what the other one denies,
an equality turned round, or a copy with `!` in front. -/
inductive Opposes (x : Exchange) (t : Tree) (id : NodeId) (t' : Tree) (i' : NodeId) : Prop
  | denied {argument : NodeId} (hnode : t.node id = .unaryExpression .not argument)
      (h : t.Copied x t' (t.unenclosed argument) i')
  | equality {operator other : BinaryOperator} {left right left' right' : NodeId}
      (hnode : t.node id = .binaryExpression operator left right)
      (hother : complement? operator = some other)
      (hnode' : t'.node i' = .binaryExpression other left' right')
      (hleft : t.Copied x t' left left') (hright : t.Copied x t' right right')
  | not {argument : NodeId} (hnode' : t'.node i' = .unaryExpression .not argument)
      (h : t.Copied x t' id argument)
  | notGroup {group inner : NodeId} (hnode' : t'.node i' = .unaryExpression .not group)
      (hgroup : t'.node group = .parenthesizedExpression inner) (h : t.Copied x t' id inner)

/-- What is no operand is not exchanged, if only operands are. -/
theorem Copied.exists_of_node {node : Node} (h : t.Copied x t' i i')
    (hoperands : ∀ j ∈ x.nodes, (t.node j).isOperand = true) (hnode : t.node i = node)
    (hoperand : node.isOperand = false) :
    ∃ f, t'.node i' = node.renumber f ∧ ∀ j ∈ node.children, t.Copied x t' j (f j) := by
  subst hnode
  exact h.exists_renumber fun hi => by simp [hoperands i hi] at hoperand

theorem Node.isOperand_renumber (f : NodeId → NodeId) (node : Node) :
    (node.renumber f).isOperand = node.isOperand := by
  cases node <;> first
    | rfl
    | next operator _ => cases operator <;> rfl
    | next operator _ _ => cases operator <;> rfl

/-- What holds of an expression holds of its copies, if what is exchanged are operands. -/
theorem Copied.holds {m : Interpretation α β} (h : t.Copied x t' i i') (hm : m.Respects x t)
    (hoperands : ∀ j ∈ x.nodes, (t.node j).isOperand = true) (hholds : t.Holds m i b) :
    t'.Holds m i' b := by
  induction hholds generalizing i' with
  | group hnode _ ih =>
    obtain ⟨f, hnode', hkids⟩ := h.exists_of_node hoperands hnode rfl
    exact .group hnode' (ih (hkids _ List.mem_cons_self))
  | not hnode _ ih =>
    obtain ⟨f, hnode', hkids⟩ := h.exists_of_node hoperands hnode rfl
    exact .not hnode' (ih (hkids _ List.mem_cons_self))
  | and hnode _ _ ih ih' =>
    obtain ⟨f, hnode', hkids⟩ := h.exists_of_node hoperands hnode rfl
    exact .and hnode' (ih (hkids _ List.mem_cons_self))
      (ih' (hkids _ (List.mem_cons_of_mem _ List.mem_cons_self)))
  | or hnode _ _ ih ih' =>
    obtain ⟨f, hnode', hkids⟩ := h.exists_of_node hoperands hnode rfl
    exact .or hnode' (ih (hkids _ List.mem_cons_self))
      (ih' (hkids _ (List.mem_cons_of_mem _ List.mem_cons_self)))
  | @equality i operator left right compare hnode hcompare =>
    have hoperator : (complement? operator).isNone = false := by
      cases operator <;> first | rfl | cases hcompare
    obtain ⟨f, hnode', hkids⟩ := h.exists_of_node hoperands hnode hoperator
    rw [← hm _ _ _ (hkids left List.mem_cons_self),
      ← hm _ _ _ (hkids right (List.mem_cons_of_mem _ List.mem_cons_self))]
    exact .equality hnode' hcompare
  | operand hoperand =>
    rw [← hm _ _ _ h]
    refine .operand ?_
    cases h with
    | name _ hnode' =>
      rw [hnode']
      rfl
    | node f _ _ hnode' =>
      rw [hnode', Node.isOperand_renumber]
      exact hoperand

/-- What holds of a negation is the opposite of what holds of its operand. -/
theorem holds_not_iff {m : Interpretation α β} {argument : NodeId}
    (hnode : t.node id = .unaryExpression .not argument) :
    t.Holds m id b ↔ t.Holds m argument (m.not b) := by
  constructor
  · intro h
    cases h with
    | not hnode' h =>
      cases hnode.symm.trans hnode'
      rwa [m.not_not]
    | operand hoperand => simp [hnode, Node.isOperand] at hoperand
    | _ hnode' => cases hnode.symm.trans hnode'
  · intro h
    have hnot := Holds.not hnode h
    rwa [m.not_not] at hnot

theorem holds_unenclosed_iff {m : Interpretation α β} :
    t.Holds m (t.unenclosed id) b ↔ t.Holds m id b := by
  unfold unenclosed
  split
  · next inner hnode =>
    refine ⟨.group hnode, fun h => ?_⟩
    cases h with
    | group hnode' h =>
      cases hnode.symm.trans hnode'
      exact h
    | operand hoperand => simp [hnode, Node.isOperand] at hoperand
    | _ hnode' => cases hnode.symm.trans hnode'
  · rfl

/-- The negation of an expression says the opposite of it. -/
theorem Opposes.holds {m : Interpretation α β} (h : t.Opposes x id t' i') (hm : m.Respects x t)
    (hoperands : ∀ j ∈ x.nodes, (t.node j).isOperand = true) (hholds : t.Holds m id b) :
    t'.Holds m i' (m.not b) := by
  cases h with
  | denied hnode h =>
    exact h.holds hm hoperands (holds_unenclosed_iff.mpr ((holds_not_iff hnode).mp hholds))
  | equality hnode hother hnode' hleft hright =>
    cases hholds with
    | equality hnode'' hcompare =>
      cases hnode.symm.trans hnode''
      obtain ⟨compare, hcompare', hopposite⟩ := m.exists_compare hother
      cases hcompare.symm.trans hcompare'
      rw [← hm _ _ _ hleft, ← hm _ _ _ hright]
      exact .equality hnode' hopposite
    | operand hoperand => simp [hnode, Node.isOperand, hother] at hoperand
    | _ hnode'' => cases hnode.symm.trans hnode''
  | not hnode' h => exact .not hnode' (h.holds hm hoperands hholds)
  | notGroup hnode' hgroup h => exact .not hnode' (.group hgroup (h.holds hm hoperands hholds))

end Tree

namespace Rendering

variable {r : Rendering} {room limit : Nat}

/-- Alone, the text of a node is read as a copy of it. -/
def Rereads (r : Rendering) (room : Nat) (x : Exchange) (place : Place) (id : NodeId) : Prop :=
  ∃ text, r.render? id = some text ∧
    Parse.Rereads room place text fun part root => r.document.tree.Copied x part id root

/-- The operator of an equality can be exchanged for another one. Up to where the operator is
spelled for the first time the text is the left operand, after that it is the right one, and the
other operator does not run together with them. -/
def Exchanges (r : Rendering) (room : Nat) (x : Exchange) (left right : NodeId)
    (old new : BinaryOperator) : Prop :=
  ∃ first second before after y z, r.document.tree.range left = some first ∧
    r.document.tree.range right = some second ∧
    splitAtFirst? old.spelling.toList (r.document.slice first.stop second.start) =
      some (before, after) ∧ r.render? left = some y ∧ r.render? right = some z ∧
    Parse.Rereads room (.operands .equality) (y ++ before)
      (fun part root => r.document.tree.Copied x part left root) ∧
    Skipped false after ∧ Parse.Rereads room (.operands .relational) z
      (fun part root => r.document.tree.Copied x part right root) ∧
    Lexeme.Clear (y ++ before) new.spelling.toList ∧ Lexeme.Clear new.spelling.toList (after ++ z)

end Rendering

namespace Document

variable {source : List Char}

/-- An expression in parentheses is a document of its own. -/
theorem exists_expression? {P : Tree → NodeId → Prop} {text : List Char}
    (h : Phrase 3 .expression text P)
    (hunangled : ∀ read, tokenize text = .ok read → Parse.Unangled read) :
    ∃ d id, expression? text = some (d, id) ∧ P d.tree id := by
  obtain ⟨inner, h⟩ := h
  obtain ⟨t, root, statement, group, e, hparse, hroot, hprogram, hstatement, hgroup, he⟩ :=
    h.exists_parse hunangled
  refine ⟨⟨"", '(' :: text ++ [')'], t⟩, e, ?_, he⟩
  rw [expression?, hparse]
  simp only [hroot, Option.map_some, hprogram, hstatement, hgroup]

end Document

end ScriptLint
