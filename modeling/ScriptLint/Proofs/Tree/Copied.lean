import ScriptLint.Proofs.Parse.Conditional
import ScriptLint.Proofs.Tree.Renumber

namespace ScriptLint

theorem Node.renumber_renumber (f g : NodeId → NodeId) (node : Node) :
    (node.renumber f).renumber g = node.renumber (g ∘ f) := by
  cases node <;> simp [renumber, Function.comp_def]

/-- Nodes of a tree for which a name is put. -/
structure Exchange where
  nodes : List NodeId
  name : String

/-- No node is exchanged. -/
def Exchange.none : Exchange := ⟨[], ""⟩

namespace Tree

/-- What stands below a node of a tree stands below a node of another one too, with other
identifiers for the nodes and with the name in the place of each node that is exchanged. -/
inductive Copied (x : Exchange) (t t' : Tree) : NodeId → NodeId → Prop
  | name {i i' : NodeId} (hi : i ∈ x.nodes) (hnode : t'.node i' = .identifier { name := x.name }) :
      Copied x t t' i i'
  | node {i i' : NodeId} (f : NodeId → NodeId) (hi : i ∉ x.nodes) (hlt : i' < t'.size)
      (hnode : t'.node i' = (t.node i).renumber f)
      (hkids : ∀ j ∈ t.children i, Copied x t t' j (f j)) : Copied x t t' i i'

variable {x : Exchange} {t t' t'' part : Tree} {i i' id root : NodeId}

theorem Copied.lt_size (h : t.Copied x t' i i') : i' < t'.size := by
  cases h with
  | name _ hnode => exact lt_size_of_node_ne (by simp [hnode, Node.missing])
  | node _ _ hlt => exact hlt

/-- A copy is one in a tree that holds it with its nodes renamed. -/
theorem Copied.renumber (h : t.Copied x t' i i') (g : NodeId → NodeId)
    (hlt : ∀ j < t'.size, g j < t''.size)
    (hnode : ∀ j < t'.size, t''.node (g j) = (t'.node j).renumber g) : t.Copied x t'' i (g i') := by
  induction h with
  | @name i i' hi hname =>
    have hlt' : i' < t'.size := lt_size_of_node_ne (by simp [hname, Node.missing])
    exact .name hi (by rw [hnode _ hlt', hname]; rfl)
  | node f hi hlt' hnode' _ ih =>
    refine .node (g ∘ f) hi (hlt _ hlt') ?_ ih
    rw [hnode _ hlt', hnode', Node.renumber_renumber]

theorem Copied.congr (h : t.Copied x t' i i') (hsize : t'.size ≤ t''.size)
    (hsame : ∀ j < t'.size, t''.node j = t'.node j) : t.Copied x t'' i i' := by
  refine h.renumber id (fun j hj => hj.trans_le hsize) fun j hj => ?_
  rw [id, hsame j hj, Node.renumber_id]

theorem Copied.sameBelow (h : t.Copied x part id root) (hsame : t'.SameBelow i part root) :
    t.Copied x t' id i := by
  obtain ⟨base, rfl, -, hsize, hnode⟩ := hsame
  exact h.renumber (base + ·) (fun j hj => (Nat.add_lt_add_left hj base).trans_le hsize) hnode

/-- A node that is not exchanged has the same shape in a copy. -/
theorem Copied.exists_renumber (h : t.Copied x t' i i') (hi : i ∉ x.nodes) :
    ∃ f, t'.node i' = (t.node i).renumber f ∧ ∀ j ∈ t.children i, t.Copied x t' j (f j) := by
  cases h with
  | name hmem => exact (hi hmem).elim
  | node f _ _ hnode hkids => exact ⟨f, hnode, hkids⟩

/-- Whether a node is a name that is no binding with a type. -/
def isPlainName (t : Tree) (id : NodeId) (name : String) : Bool :=
  match t.node id with
  | .identifier ⟨other, none, false⟩ => other == name
  | _ => false

theorem isPlainName_iff {id : NodeId} {name : String} :
    t.isPlainName id name = true ↔ t.node id = .identifier { name } := by
  unfold isPlainName
  split <;> simp_all

/-- Whether a node is a copy of a node that is made of names, literals and operators only. -/
def isCopied (x : Exchange) (t t' : Tree) : Nat → NodeId → NodeId → Bool
  | 0, _, _ => false
  | fuel + 1, i, i' =>
    if i ∈ x.nodes then t'.isPlainName i' x.name
    else match t.node i, t'.node i' with
      | .identifier ⟨name, none, false⟩, _ => t'.isPlainName i' name
      | .literal value raw, .literal value' raw' => decide (value = value' ∧ raw = raw')
      | .logicalExpression operator left right, .logicalExpression operator' left' right' =>
        decide (operator = operator' ∧ left ≠ right) && isCopied x t t' fuel left left' &&
          isCopied x t t' fuel right right'
      | .binaryExpression operator left right, .binaryExpression operator' left' right' =>
        decide (operator = operator' ∧ left ≠ right) && isCopied x t t' fuel left left' &&
          isCopied x t t' fuel right right'
      | _, _ => false

theorem copied_of_isCopied {fuel : Nat} (h : isCopied x t t' fuel i i' = true) :
    t.Copied x t' i i' := by
  induction fuel generalizing i i' with
  | zero => cases h
  | succ fuel ih =>
    rw [isCopied] at h
    split_ifs at h with hi
    · exact .name hi (isPlainName_iff.mp h)
    have hlt : t'.node i' ≠ .missing → i' < t'.size := lt_size_of_node_ne
    split at h
    · next name hnode =>
      have hname := isPlainName_iff.mp h
      refine .node (fun j => j) hi (hlt (by simp [hname, Node.missing])) (by rw [hname, hnode]; rfl) ?_
      simp [children, hnode, Node.children]
    · next value raw value' raw' hnode hnode' =>
      obtain ⟨rfl, rfl⟩ := of_decide_eq_true h
      refine .node (fun j => j) hi (hlt (by simp [hnode', Node.missing])) (by rw [hnode, hnode']; rfl) ?_
      simp [children, hnode, Node.children]
    · next operator left right operator' left' right' hnode hnode' =>
      simp only [Bool.and_eq_true, decide_eq_true_eq] at h
      obtain ⟨⟨⟨rfl, hne⟩, hleft⟩, hright⟩ := h
      refine .node (fun j => if j = left then left' else right') hi
        (hlt (by simp [hnode', Node.missing])) (by simp [hnode, hnode', Node.renumber, hne.symm]) ?_
      simp only [children, hnode, Node.children, List.mem_pair]
      rintro j (rfl | rfl)
      · simpa using ih hleft
      · simpa [hne.symm] using ih hright
    · next operator left right operator' left' right' hnode hnode' =>
      simp only [Bool.and_eq_true, decide_eq_true_eq] at h
      obtain ⟨⟨⟨rfl, hne⟩, hleft⟩, hright⟩ := h
      refine .node (fun j => if j = left then left' else right') hi
        (hlt (by simp [hnode', Node.missing])) (by simp [hnode, hnode', Node.renumber, hne.symm]) ?_
      simp only [children, hnode, Node.children, List.mem_pair]
      rintro j (rfl | rfl)
      · simpa using ih hleft
      · simpa [hne.symm] using ih hright
    · cases h

end Tree
end ScriptLint
