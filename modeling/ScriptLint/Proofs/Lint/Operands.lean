import ScriptLint.Proofs.Lint.Negation

namespace ScriptLint

open Position (origin)
open Parse (Phrase Phrased Place)

variable {α β : Type} {limit : Nat} {operator : LogicalOperator} {x y z piece : List Char}
  {P Q : Tree → NodeId → Prop} {Ps Qs : List (Tree → NodeId → Prop)} {t t' : Tree} {i i' : NodeId}

theorem Lexeme.Clear.append_left (h : Lexeme.Clear y z) (hne : y ≠ []) (x : List Char) :
    Lexeme.Clear (x ++ y) z := by
  intro a ha
  rw [List.getLast?_append_of_ne_nil _ hne] at ha
  exact h a ha

/-- What joins two conditions to one. -/
def Interpretation.join (m : Interpretation α β) : LogicalOperator → β → β → β
  | .and => m.and
  | .or | .nullish => m.or

theorem Interpretation.join_assoc (m : Interpretation α β) (operator : LogicalOperator) (a b c : β) :
    m.join operator (m.join operator a b) c = m.join operator a (m.join operator b c) := by
  cases operator
  · exact m.and_assoc a b c
  · exact m.or_assoc a b c
  · exact m.or_assoc a b c

/-- Each node with the property says the same. -/
def Interpretation.Tells (m : Interpretation α β) (P : Tree → NodeId → Prop) (b : β) : Prop :=
  ∀ t' i', P t' i' → t'.Holds m i' b

/-- Operands joined from left to right say this. -/
def Interpretation.TellsAll (m : Interpretation α β) (operator : LogicalOperator)
    (P : Tree → NodeId → Prop) (Ps : List (Tree → NodeId → Prop)) (b : β) : Prop :=
  ∃ c cs, m.Tells P c ∧ List.Forall₂ m.Tells Ps cs ∧ cs.foldl (m.join operator) c = b

namespace Parse

/-- Two operands that are joined. -/
def Joined (operator : LogicalOperator) (P Q : Tree → NodeId → Prop) (t : Tree) (i : NodeId) : Prop :=
  ∃ left right, t.node i = .logicalExpression operator left right ∧ P t left ∧ Q t right

/-- A text of operands with an operator between them. -/
inductive Chain (limit : Nat) (operator : LogicalOperator) :
    List Char → (Tree → NodeId → Prop) → List (Tree → NodeId → Prop) → Prop
  | one {y : List Char} {P : Tree → NodeId → Prop}
      (h : Phrase limit (.operands (InfixOperator.logical operator).operandLevel) y P) :
      Chain limit operator y P []
  | more {x piece y : List Char} {P Q : Tree → NodeId → Prop} {Ps : List (Tree → NodeId → Prop)}
      {mark : Punct} {span : Span} (h : Chain limit operator x P Ps)
      (hmark : (InfixOperator.logical operator).token = .punct mark)
      (hpiece : Marks piece mark span y) (hclear : Lexeme.Clear x piece)
      (hq : Phrase limit (.operands (InfixOperator.logical operator).operandLevel) y Q) :
      Chain limit operator (x ++ (piece ++ y)) P (Ps ++ [Q])

theorem Chain.ne_nil (h : Chain limit operator x P Ps) : x ≠ [] := by
  induction h with
  | one h => exact h.choose_spec.ne_nil
  | more _ _ _ _ _ ih => exact List.append_ne_nil_of_left_ne_nil ih _

/-- A chain is read with its first operands joined first. -/
theorem Chain.phrase (h : Chain limit operator x P Ps) :
    Phrase limit (.operands (InfixOperator.logical operator).precedence) x
      (Ps.foldl (Joined operator) P) := by
  induction h with
  | one h => exact h.mono _ (InfixOperator.level_le_operandLevel _)
  | @more x piece y P Q Ps mark span _ hmark hpiece hclear hq ih =>
    have hstop : endsOperands mark = true := by
      cases operator <;> cases hmark <;> rfl
    obtain ⟨first, ih⟩ := ih
    obtain ⟨second, hq⟩ := hq
    rw [List.foldl_append]
    exact ⟨_, ih.join hq hmark hstop hpiece hclear⟩

/-- The text of a chain, with another one after it. -/
theorem Chain.append {mark : Punct} {spelling : List Char} (h : Chain limit operator x P Ps)
    (h' : Chain limit operator y Q Qs)
    (hmark : (InfixOperator.logical operator).token = .punct mark)
    (hclosed : Closed spelling
      [(.punct mark, .between origin (origin.after spelling)), endToken spelling]) :
    Chain limit operator (x ++ ([' '] ++ (spelling ++ [' ']) ++ y)) P (Ps ++ Q :: Qs) := by
  have hclear : Lexeme.Clear x ([' '] ++ (spelling ++ [' '])) :=
    (Lexeme.stops_cons (by decide) _).clear x
  induction h' with
  | one hq => exact .more h hmark (marks_spaced hclosed _) hclear hq
  | @more y piece z Q R Qs mark' span hchain hmark' hpiece hclear' hr ih =>
    have hwhole := ih.more hmark' hpiece ((hclear'.append_left hchain.ne_nil _).append_left
      (List.append_ne_nil_of_right_ne_nil _ hchain.ne_nil) x) hr
    simpa using hwhole

theorem Chain.shallower {limit' : Nat} (h : Chain limit operator x P Ps) (hlimit : limit' ≤ limit) :
    Chain limit' operator x P Ps := by
  induction h with
  | one h => exact .one (h.shallower hlimit)
  | more _ hmark hpiece hclear hq ih => exact .more ih hmark hpiece hclear (hq.shallower hlimit)

end Parse

namespace Interpretation

variable {m : Interpretation α β} {a b : β}

theorem TellsAll.append (h : m.TellsAll operator P Ps a) (h' : m.TellsAll operator Q Qs b) :
    m.TellsAll operator P (Ps ++ Q :: Qs) (m.join operator a b) := by
  obtain ⟨c, cs, hc, hcs, rfl⟩ := h
  obtain ⟨d, ds, hd, hds, rfl⟩ := h'
  refine ⟨c, cs ++ d :: ds, hc, List.rel_append hcs (.cons hd hds), ?_⟩
  have : Std.Associative (m.join operator) := ⟨m.join_assoc operator⟩
  rw [List.foldl_append, List.foldl_cons, List.foldl_assoc]

/-- What a chain says is said by the node it is read as. -/
theorem TellsAll.tells (h : m.TellsAll operator P Ps b) (hoperator : operator ≠ .nullish) :
    m.Tells (Ps.foldl (Parse.Joined operator) P) b := by
  obtain ⟨c, cs, hc, hcs, rfl⟩ := h
  induction hcs generalizing P c with
  | nil => exact hc
  | @cons Q d Ps cs hd _ ih =>
    refine ih _ fun t' i' hjoined => ?_
    obtain ⟨left, right, hnode, hleft, hright⟩ := hjoined
    cases operator with
    | and => exact .and hnode (hc _ _ hleft) (hd _ _ hright)
    | or => exact .or hnode (hc _ _ hleft) (hd _ _ hright)
    | nullish => exact (hoperator rfl).elim

end Interpretation

namespace Tree

/-- A node and those below it are there, and none of them is a certain name. -/
inductive Lacks (name : String) (t : Tree) : NodeId → Prop
  | node {i : NodeId} (hlt : i < t.size) (hname : t.identifierName? i ≠ some name)
      (hkids : ∀ j ∈ t.children i, Lacks name t j) : Lacks name t i

/-- What stands below a node, but not below one that is exchanged. -/
def Kept (e : Exchange) (t : Tree) (i j : NodeId) : Prop :=
  j = i ∨ ∃ b, t.Reaches i b ∧ b ∉ e.nodes ∧ j ∈ t.children b

/-- A text of a test is made of the texts of operands with an operator between them. -/
inductive Spans (x : Exchange) (t : Tree) (room : Nat) (operator : LogicalOperator) :
    NodeId → List Char → Prop
  | operand {i : NodeId} {y : List Char}
      (h : Parse.Rereads room (.operands (InfixOperator.logical operator).operandLevel) y fun part root =>
        t.Copied x part i root) : Spans x t room operator i y
  | join {i left right : NodeId} {y piece z : List Char} {mark : Punct} {span : Span}
      (hnode : t.node i = .logicalExpression operator left right) (h : Spans x t room operator left y)
      (hmark : (InfixOperator.logical operator).token = .punct mark)
      (hpiece : Parse.Marks piece mark span z) (hclear : Lexeme.Clear y piece)
      (hright : Parse.Rereads room (.operands (InfixOperator.logical operator).operandLevel) z
        fun part root => t.Copied x part right root) : Spans x t room operator i (y ++ (piece ++ z))

/-- The text of a chain is read as one, and says what the chain says. -/
theorem Spans.exists_chain {e : Exchange} {room : Nat} (h : t.Spans e room operator i y)
    (hlimit : limit ≤ room)
    (hoperator : operator ≠ .nullish) (hoperands : ∀ j ∈ e.nodes, (t.node j).isOperand = true) :
    ∃ P Ps, Parse.Chain limit operator y P Ps ∧
      (∀ Q ∈ P :: Ps, ∃ j, Kept e t i j ∧ Q = fun t' i' => t.Copied e t' j i') ∧
      ∀ (α β : Type) (m : Interpretation α β), m.Respects e t → ∀ b, t.Holds m i b →
        m.TellsAll operator P Ps b := by
  induction h with
  | @operand i y h =>
    refine ⟨_, [], .one (h.phrase hlimit (lasting_copied e t i) fun _ _ _ _ => Copied.sameBelow),
      ?_, fun α β m hm b hb => ⟨b, [], fun t' i' hcopied => hcopied.holds hm hoperands hb, .nil, rfl⟩⟩
    simpa using ⟨i, .inl rfl, rfl⟩
  | @join i left right y piece z mark span hnode _ hmark hpiece hclear hright ih =>
    obtain ⟨P, Ps, hchain, hcopies, hsays⟩ := ih
    have hkids : t.children i = [left, right] := by rw [children, hnode]; rfl
    have hi : i ∉ e.nodes := fun hi => by
      have hoperand := hoperands i hi
      rw [hnode] at hoperand
      cases operator with
      | nullish => exact hoperator rfl
      | _ => cases hoperand
    refine ⟨P, Ps ++ [_], hchain.more hmark hpiece hclear (hright.phrase hlimit
      (lasting_copied e t right) fun _ _ _ _ => Copied.sameBelow), fun Q hQ => ?_, ?_⟩
    · rw [← List.cons_append, List.mem_append, List.mem_singleton] at hQ
      rcases hQ with hQ | rfl
      · obtain ⟨j, hj, rfl⟩ := hcopies Q hQ
        refine ⟨j, ?_, rfl⟩
        rcases hj with rfl | ⟨b, hb, hrest⟩
        · exact .inr ⟨i, .refl, hi, by simp [hkids]⟩
        · exact .inr ⟨b, .head (by simp [hkids]) hb, hrest⟩
      · exact ⟨right, .inr ⟨i, .refl, hi, by simp [hkids]⟩, rfl⟩
    · intro α β m hm b hb
      have hsplit : ∃ a c, t.Holds m left a ∧ t.Holds m right c ∧ m.join operator a c = b := by
        cases hb with
        | and hnode' ha hc =>
          cases hnode.symm.trans hnode'
          exact ⟨_, _, ha, hc, rfl⟩
        | or hnode' ha hc =>
          cases hnode.symm.trans hnode'
          exact ⟨_, _, ha, hc, rfl⟩
        | operand hoperand =>
          cases operator with
          | nullish => exact (hoperator rfl).elim
          | _ => simp [hnode, Node.isOperand] at hoperand
        | _ hnode' => cases hnode.symm.trans hnode'
      obtain ⟨a, c, ha, hc, rfl⟩ := hsplit
      obtain ⟨d, ds, hd, hds, rfl⟩ := hsays α β m hm a ha
      refine ⟨d, ds ++ [c], hd, List.rel_append hds (.cons ?_ .nil), by simp⟩
      exact fun t' i' hcopied => hcopied.holds hm hoperands hc

theorem Kept.trans {e : Exchange} {i j k : NodeId} (h : t.Kept e i j) (h' : t.Kept e j k) :
    t.Kept e i k := by
  rcases h' with rfl | ⟨b, hb, hrest⟩
  · exact h
  · rcases h with rfl | ⟨a, ha, -, hchild⟩
    · exact .inr ⟨b, hb, hrest⟩
    · exact .inr ⟨b, (ha.tail hchild).trans hb, hrest⟩

variable {name : String} {e : Exchange}

theorem Lacks.of_node {node : Node} (hnode : t.node i = node) (hne : node ≠ .missing)
    (hname : ∀ ident, node ≠ .identifier ident) (hkids : ∀ j ∈ node.children, t.Lacks name j) :
    t.Lacks name i := by
  subst hnode
  refine .node (lt_size_of_node_ne hne) ?_ hkids
  unfold identifierName?
  split
  · next ident hident => exact (hname ident hident).elim
  · exact nofun

end Tree

/-- Nodes with the property hold no such name. -/
def Parse.Lacking (name : String) (P : Tree → NodeId → Prop) : Prop :=
  ∀ t i, P t i → t.Lacks name i

variable {name : String} {e : Exchange}

theorem Parse.Lacking.joined (h : Parse.Lacking name P) (h' : Parse.Lacking name Q)
    (operator : LogicalOperator) : Parse.Lacking name (Parse.Joined operator P Q) := by
  rintro t i ⟨left, right, hnode, hleft, hright⟩
  refine .of_node hnode (by simp [Node.missing]) (by simp) fun j hj => ?_
  simp only [Node.children, List.mem_pair] at hj
  rcases hj with rfl | rfl
  · exact h _ _ hleft
  · exact h' _ _ hright

theorem Parse.Lacking.foldl (h : ∀ Q ∈ P :: Ps, Parse.Lacking name Q) (operator : LogicalOperator) :
    Parse.Lacking name (Ps.foldl (Parse.Joined operator) P) := by
  induction Ps generalizing P with
  | nil => exact h P List.mem_cons_self
  | cons Q Ps ih =>
    refine ih fun R hR => ?_
    rcases List.mem_cons.mp hR with rfl | hR
    · exact (h P List.mem_cons_self).joined (h Q (by simp)) operator
    · exact h R (by simp [hR])

theorem Parse.Lacking.group (h : Parse.Lacking name P) : Parse.Lacking name fun t i =>
    ∃ inner, t.node i = .parenthesizedExpression inner ∧ P t inner := by
  rintro t i ⟨inner, hnode, hp⟩
  refine .of_node hnode (by simp [Node.missing]) (by simp) fun j hj => ?_
  rw [List.mem_singleton.mp hj]
  exact h _ _ hp

theorem Parse.Lacking.not (h : Parse.Lacking name P) : Parse.Lacking name fun t i =>
    ∃ argument, t.node i = .unaryExpression .not argument ∧ P t argument := by
  rintro t i ⟨argument, hnode, hp⟩
  refine .of_node hnode (by simp [Node.missing]) (by simp) fun j hj => ?_
  rw [List.mem_singleton.mp hj]
  exact h _ _ hp

end ScriptLint
