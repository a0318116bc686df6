import ScriptLint.Parse.Pattern
import ScriptLint.Proofs.Tree.Extend
import Mathlib.Logic.Relation

namespace ScriptLint
namespace Node

/-- The nodes to which the search for targets goes on from a node. -/
def targets : Node → List NodeId
  | .arrayExpression elements => elements.filterMap (·)
  | .objectExpression properties => properties
  | .property p => if p.method then [] else [p.value]
  | .spreadElement argument => [argument]
  | .assignmentExpression .assign left _ => [left]
  | _ => []

/-- What a node becomes as a target, if it becomes something else. -/
def asTarget : Node → Option Node
  | .arrayExpression elements => some (.arrayPattern elements none)
  | .objectExpression properties => some (.objectPattern properties none)
  | .spreadElement argument => some (.restElement argument none)
  | .assignmentExpression .assign left right => some (.assignmentPattern left right)
  | _ => none

theorem targets_subset_children (node : Node) : node.targets ⊆ node.children := by
  unfold targets
  split
  · exact List.Subset.refl _
  · exact List.Subset.refl _
  · simp only [children]
    split_ifs <;> simp_all
  · exact List.Subset.refl _
  · simp [children]
  · simp

theorem targets_of_asTarget {node target : Node} (h : node.asTarget = some target) :
    target.targets = [] := by
  unfold asTarget at h
  split at h <;> cases h <;> rfl

/-- The node as a target, if it becomes something else. -/
def retagged (node : Node) : Node := node.asTarget.getD node

variable {node target : Node}

theorem children_of_asTarget (h : node.asTarget = some target) :
    target.children = node.children := by
  unfold asTarget at h
  split at h <;> cases h <;> simp [children]

theorem ids_of_asTarget (h : node.asTarget = some target) : target.ids = node.ids := by
  unfold asTarget at h
  split at h <;> cases h <;> simp [ids, fields]

theorem asTarget_of_asTarget (h : node.asTarget = some target) : target.asTarget = none := by
  unfold asTarget at h
  split at h <;> cases h <;> rfl

/-- From a node that stays what it is the search goes on to one node at most. -/
theorem targets_of_asTarget_eq_none (h : node.asTarget = none) :
    node.targets = [] ∨ ∃ next, node.targets = [next] := by
  unfold asTarget at h
  unfold targets
  split
  · cases h
  · cases h
  · split
    · exact .inl rfl
    · exact .inr ⟨_, rfl⟩
  · cases h
  · cases h
  · exact .inl rfl

theorem retagged_of_asTarget (h : node.asTarget = some target) : node.retagged = target := by
  rw [retagged, h, Option.getD_some]

theorem retagged_of_asTarget_eq_none (h : node.asTarget = none) : node.retagged = node := by
  rw [retagged, h, Option.getD_none]

theorem children_retagged (node : Node) : node.retagged.children = node.children := by
  cases h : node.asTarget with
  | none => rw [retagged_of_asTarget_eq_none h]
  | some target => rw [retagged_of_asTarget h, children_of_asTarget h]

theorem ids_retagged (node : Node) : node.retagged.ids = node.ids := by
  cases h : node.asTarget with
  | none => rw [retagged_of_asTarget_eq_none h]
  | some target => rw [retagged_of_asTarget h, ids_of_asTarget h]

theorem retagged_retagged (node : Node) : node.retagged.retagged = node.retagged := by
  cases h : node.asTarget with
  | none => rw [retagged_of_asTarget_eq_none h, retagged_of_asTarget_eq_none h]
  | some target =>
    rw [retagged_of_asTarget h, retagged_of_asTarget_eq_none (asTarget_of_asTarget h)]

theorem targets_retagged_subset (node : Node) : node.retagged.targets ⊆ node.targets := by
  cases h : node.asTarget with
  | none =>
    rw [retagged_of_asTarget_eq_none h]
    exact List.Subset.refl _
  | some target =>
    rw [retagged_of_asTarget h, targets_of_asTarget h]
    exact List.nil_subset _

end Node

namespace Tree

theorem node_setNode (t : Tree) (target : NodeId) (node : Node) (id : NodeId) :
    (t.setNode target node).node id =
      if target = id ∧ id < t.size then node else t.node id := by
  simp only [Tree.node, setNode, entry?_modify]
  by_cases heq : target = id
  · subst heq
    by_cases hlt : target < t.size
    · obtain ⟨e, he⟩ : ∃ e, t.entry? target = some e := ⟨_, Array.getElem?_eq_getElem hlt⟩
      simp [he, hlt]
    · simp [entry?_eq_none_iff.mpr (not_lt.mp hlt), hlt]
  · simp [heq]

/-- A node becomes a target after those in which the search goes on. -/
theorem toPattern_succ (t : Tree) (fuel : Nat) (id : NodeId) :
    t.toPattern (fuel + 1) id =
      match (t.node id).asTarget with
      | some node => ((t.node id).targets.foldl (toPattern fuel) t).setNode id node
      | none => (t.node id).targets.foldl (toPattern fuel) t := by
  rw [toPattern]
  split <;> simp_all only [Node.asTarget, Node.targets, List.foldl_cons, List.foldl_nil]
  · split <;> rfl

/-- A node is met from another one through the places of targets, or is that node. -/
def Targets (t : Tree) : NodeId → NodeId → Prop :=
  Relation.ReflTransGen fun i j => j ∈ (t.node i).targets

/-- The second tree is the first one with some nodes as targets. Only of nodes in `changed` is that
said. -/
structure Retagged (changed : NodeId → Prop) (t t' : Tree) : Prop where
  root : t'.root = t.root
  entry : ∀ i, t'.entry? i = (t.entry? i).map fun e => { e with node := t'.node i }
  node : ∀ i, t'.node i = t.node i ∨ changed i ∧ t'.node i = (t.node i).retagged

variable {t t' t'' : Tree} {changed changed' : NodeId → Prop} {id i c : NodeId} {node : Node}

theorem entry?_eq_map (t : Tree) (i : NodeId) :
    t.entry? i = (t.entry? i).map fun e => { e with node := t.node i } := by
  cases h : t.entry? i with
  | none => rfl
  | some e => rw [node_of_entry h, Option.map_some]

/-- Another node at a place leaves the entries what they are, but for their nodes. -/
theorem entry?_setNode (t : Tree) (id : NodeId) (node : Node) (i : NodeId) :
    entry? (t.setNode id node) i =
      (t.entry? i).map fun e => { e with node := Tree.node (t.setNode id node) i } := by
  rw [entry?_eq_map, setNode, entry?_modify]
  split
  · rw [Option.map_map]
    rfl
  · rfl

theorem lt_size_of_asTarget (h : (t.node id).asTarget = some node) : id < t.size := by
  refine lt_size_of_node_ne fun hmissing => ?_
  rw [hmissing] at h
  cases h

/-- Two trees whose entries differ in their nodes only are the same if they have the same nodes. -/
theorem eq_of_entries (hroot : t'.root = t.root)
    (hentry : ∀ i, t'.entry? i = (t.entry? i).map fun e => { e with node := t'.node i })
    (hnode : ∀ i, t'.node i = t.node i) : t' = t := by
  have hentries : t'.entries = t.entries := by
    refine Array.ext_getElem? fun i => ?_
    change t'.entry? i = t.entry? i
    rw [hentry, hnode, ← entry?_eq_map]
  cases t
  cases t'
  simp only at hroot hentries
  rw [hroot, hentries]

namespace Retagged

theorem refl (changed : NodeId → Prop) (t : Tree) : Retagged changed t t :=
  ⟨rfl, t.entry?_eq_map, fun _ => .inl rfl⟩

theorem mono (h : Retagged changed t t') (hle : ∀ i, changed i → changed' i) :
    Retagged changed' t t' :=
  ⟨h.root, h.entry, fun i => (h.node i).imp_right fun h => ⟨hle i h.1, h.2⟩⟩

theorem trans (h : Retagged changed t t') (h' : Retagged changed t' t'') :
    Retagged changed t t'' where
  root := h'.root.trans h.root
  entry i := by
    rw [h'.entry, h.entry, Option.map_map]
    rfl
  node i := by
    rcases h'.node i with hsame | ⟨hi, hnew⟩
    · rw [hsame]
      exact h.node i
    · rcases h.node i with hold | ⟨-, hold⟩
      · exact .inr ⟨hi, by rw [hnew, hold]⟩
      · exact .inr ⟨hi, by rw [hnew, hold, Node.retagged_retagged]⟩

theorem setNode (h : Retagged changed t t') (hid : changed id)
    (hnode : (t.node id).asTarget = some node) : Retagged changed t (t'.setNode id node) where
  root := h.root
  entry i := by
    rw [entry?_setNode, h.entry, Option.map_map]
    rfl
  node i := by
    rw [node_setNode]
    split
    · next hi =>
      rw [← hi.1]
      exact .inr ⟨hid, (Node.retagged_of_asTarget hnode).symm⟩
    · exact h.node i

theorem size (h : Retagged changed t t') : t'.size = t.size := by
  have hnone : ∀ i, t'.size ≤ i ↔ t.size ≤ i := by
    intro i
    rw [← entry?_eq_none_iff, ← entry?_eq_none_iff, h.entry, Option.map_eq_none_iff]
  exact le_antisymm ((hnone _).mpr le_rfl) ((hnone _).mp le_rfl)

theorem range (h : Retagged changed t t') (i : NodeId) : t'.range i = t.range i := by
  rw [Tree.range, Tree.range, h.entry]
  cases t.entry? i <;> rfl

theorem parent (h : Retagged changed t t') (i : NodeId) : t'.parent i = t.parent i := by
  rw [Tree.parent, Tree.parent, h.entry]
  cases t.entry? i <;> rfl

theorem children (h : Retagged changed t t') (i : NodeId) : t'.children i = t.children i := by
  rcases h.node i with heq | ⟨-, heq⟩
  · rw [Tree.children, heq, Tree.children]
  · rw [Tree.children, heq, Node.children_retagged, Tree.children]

theorem ids (h : Retagged changed t t') (i : NodeId) : (t'.node i).ids = (t.node i).ids := by
  rcases h.node i with heq | ⟨-, heq⟩
  · rw [heq]
  · rw [heq, Node.ids_retagged]

/-- Every node has its old children, fields and range. -/
theorem keepsAt (h : Retagged changed t t') (i : NodeId) : t.KeepsAt t' i := by
  intro e he
  have hchildren := h.children i
  have hids := h.ids i
  rw [Tree.children, Tree.children, node_of_entry he] at hchildren
  rw [node_of_entry he] at hids
  exact ⟨{ e with node := t'.node i }, by rw [h.entry, he, Option.map_some], hchildren, hids, rfl⟩

/-- A node that is not said to change has its old entry. -/
theorem entry?_eq (h : Retagged changed t t') (hi : ¬ changed i) : t'.entry? i = t.entry? i := by
  rcases h.node i with heq | ⟨hchanged, -⟩
  · rw [h.entry, heq, ← entry?_eq_map]
  · exact absurd hchanged hi

theorem targets_subset (h : Retagged changed t t') (i : NodeId) :
    (t'.node i).targets ⊆ (t.node i).targets := by
  rcases h.node i with heq | ⟨-, heq⟩
  · rw [heq]
    exact List.Subset.refl _
  · rw [heq]
    exact Node.targets_retagged_subset _

theorem targets (h : Retagged changed t t') (hi : t'.Targets id i) : t.Targets id i :=
  Relation.ReflTransGen.mono (fun j _ hk => h.targets_subset j hk) _ _ hi

/-- Steps that retag what is met from their nodes, one after the other. -/
theorem foldl {step : Tree → NodeId → Tree}
    (hstep : ∀ t c, Retagged (t.Targets c) t (step t c)) (ids : List NodeId) (t : Tree) :
    Retagged (fun i => ∃ c ∈ ids, t.Targets c i) t (ids.foldl step t) := by
  induction ids generalizing t with
  | nil => exact .refl _ t
  | cons c ids ih =>
    have hfirst := hstep t c
    refine (hfirst.mono fun i hi => ⟨c, List.mem_cons_self, hi⟩).trans ?_
    refine (ih (step t c)).mono fun i hi => ?_
    obtain ⟨d, hd, hi⟩ := hi
    exact ⟨d, List.mem_cons_of_mem _ hd, hfirst.targets hi⟩

end Retagged

/-- Whatever the fuel, only nodes that are met from the expression become targets. -/
theorem retagged_toPattern (t : Tree) (fuel : Nat) (id : NodeId) :
    Retagged (t.Targets id) t (t.toPattern fuel id) := by
  induction fuel generalizing t id with
  | zero => exact .refl _ t
  | succ fuel ih =>
    have hall := Retagged.foldl (fun t c => ih t c) (t.node id).targets t
    have hbelow := hall.mono fun i ⟨c, hc, hi⟩ => Relation.ReflTransGen.head hc hi
    rw [toPattern_succ]
    cases htarget : (t.node id).asTarget with
    | none => exact hbelow
    | some node => exact hbelow.setNode .refl htarget

variable {t₀ : Tree}

/-- From a new node only new ones are met. -/
theorem Extends.size_le_of_targets (ht : t₀.Extends t) (hid : t₀.size ≤ id)
    (hi : t.Targets id i) : t₀.size ≤ i := by
  induction hi with
  | refl => exact hid
  | tail _ hj ih => exact ht.closed _ ih _ (Node.targets_subset_children _ hj)

/-- Turning a new expression into a target leaves the old nodes alone. -/
theorem Extends.toPattern (ht : t₀.Extends t) (hid : t₀.size ≤ id) (fuel : Nat) :
    t₀.Extends (t.toPattern fuel id) := by
  have hretagged := retagged_toPattern t fuel id
  constructor
  · constructor
    · exact hretagged.root.trans ht.root
    · exact ht.size_le.trans_eq hretagged.size.symm
    · intro i hi
      rw [hretagged.entry?_eq fun h => (ht.size_le_of_targets hid h).not_gt hi, ht.kept i hi]
  · intro i hi c hc
    rw [hretagged.children] at hc
    exact ht.closed i hi c hc

end Tree
end ScriptLint
