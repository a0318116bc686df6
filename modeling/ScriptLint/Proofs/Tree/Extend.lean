import ScriptLint.Proofs.Tree.Fields
import ScriptLint.Tree.Walk
import Mathlib.Order.Nat

namespace ScriptLint

/-- Two entries that agree in all but the kind of their node and its parent. -/
structure Entry.Alike (e e' : Entry) : Prop where
  children : e'.node.children = e.node.children
  ids : e'.node.ids = e.node.ids
  range : e'.range = e.range

theorem Entry.Alike.refl (e : Entry) : e.Alike e := ⟨rfl, rfl, rfl⟩

namespace Tree

variable {t t' t'' : Tree} {i : NodeId}

theorem entry?_eq_none_iff : t.entry? i = none ↔ t.size ≤ i := Array.getElem?_eq_none_iff

theorem lt_size_of_entry {e : Entry} (h : t.entry? i = some e) : i < t.size :=
  (Array.getElem?_eq_some_iff.mp h).1

theorem node_of_entry {e : Entry} (h : t.entry? i = some e) : t.node i = e.node := by
  simp [node, h]

theorem children_of_entry {e : Entry} (h : t.entry? i = some e) :
    t.children i = e.node.children := by
  simp [children, node_of_entry h]

theorem range_of_entry {e : Entry} (h : t.entry? i = some e) : t.range i = e.range := by
  simp [range, h]

theorem children_eq_nil (h : t.size ≤ i) : t.children i = [] := by
  simp [children, node, entry?_eq_none_iff.mpr h, Node.missing, Node.children]

theorem lt_size_of_node_ne (h : t.node i ≠ .missing) : i < t.size := by
  by_contra hle
  exact h (by simp [node, entry?_eq_none_iff.mpr (Nat.le_of_not_lt hle)])

theorem children_congr (h : t'.entry? i = t.entry? i) : t'.children i = t.children i := by
  simp [children, node, h]

@[simp] theorem alloc_fst (t : Tree) (node : Node) (range : Option Span) :
    (t.alloc node range).1 = t.size := rfl

@[simp] theorem size_alloc (t : Tree) (node : Node) (range : Option Span) :
    (t.alloc node range).2.size = t.size + 1 := by
  simp [alloc, size]

theorem entry?_alloc (t : Tree) (node : Node) (range : Option Span) (i : NodeId) :
    entry? (t.alloc node range).2 i =
      if i = t.size then some { node, range } else t.entry? i :=
  Array.getElem?_push

@[simp] theorem size_modify (t : Tree) (id : NodeId) (f : Entry → Entry) :
    (t.modify id f).size = t.size := by
  simp [modify, size]

theorem entry?_modify (t : Tree) (id : NodeId) (f : Entry → Entry) (i : NodeId) :
    entry? (t.modify id f) i = if id = i then (t.entry? i).map f else t.entry? i := by
  simp [modify, entry?, Array.getElem?_modify]

/-- What `i` holds in one tree it holds in the other, up to the kind of node and its parent. -/
def KeepsAt (t t' : Tree) (i : NodeId) : Prop :=
  ∀ e, t.entry? i = some e → ∃ e', t'.entry? i = some e' ∧ e.Alike e'

theorem keepsAt_of_eq (h : t'.entry? i = t.entry? i) : t.KeepsAt t' i :=
  fun e he => ⟨e, h.trans he, .refl e⟩

/-- A tree and a later state of it: nodes were added, and those that were there are untouched. -/
structure Continues (t t' : Tree) : Prop where
  root : t'.root = t.root
  size_le : t.size ≤ t'.size
  kept : ∀ i, i < t.size → t'.entry? i = t.entry? i

namespace Continues

theorem refl (t : Tree) : t.Continues t := ⟨rfl, le_rfl, fun _ _ => rfl⟩

theorem trans (h : t.Continues t') (h' : t'.Continues t'') : t.Continues t'' where
  root := h'.root.trans h.root
  size_le := h.size_le.trans h'.size_le
  kept i hi := (h'.kept i (hi.trans_le h.size_le)).trans (h.kept i hi)

theorem alloc (h : t.Continues t') (node : Node) (range : Option Span) :
    t.Continues (t'.alloc node range).2 where
  root := h.root
  size_le := by
    rw [size_alloc]
    exact h.size_le.trans (Nat.le_succ _)
  kept i hi := by
    have hne : i ≠ t'.size := (hi.trans_le h.size_le).ne
    rw [entry?_alloc, if_neg hne, h.kept i hi]

/-- Cutting back to the old size takes away what was added. -/
theorem truncate_eq (h : t.Continues t') : t'.truncate t.size = t := by
  have hentries : t'.entries.take t.size = t.entries := by
    apply Array.ext_getElem?
    intro i
    rw [Array.take_eq_extract, Array.getElem?_extract]
    by_cases hi : i < t.size
    · have hi' : i < min t.size t'.entries.size - 0 := lt_min hi (hi.trans_le h.size_le)
      rw [if_pos hi', Nat.zero_add]
      exact h.kept i hi
    · have hi' : ¬i < min t.size t'.entries.size - 0 := fun hlt => hi (hlt.trans_le (min_le_left _ _))
      rw [if_neg hi']
      exact (entry?_eq_none_iff.mpr (not_lt.mp hi)).symm
  have hroot := h.root
  cases t with
  | mk entries root =>
    simp only at hroot
    simp only [truncate, hentries, hroot]

end Continues

/-- A tree and a later state of it in which the new nodes do not refer to those that were there. -/
structure Extends (t t' : Tree) : Prop extends Continues t t' where
  closed : ∀ i, t.size ≤ i → ∀ c ∈ t'.children i, t.size ≤ c

namespace Extends

theorem refl (t : Tree) : t.Extends t where
  toContinues := .refl t
  closed i hi c hc := by simp [children_eq_nil hi] at hc

theorem trans (h : t.Extends t') (h' : t'.Extends t'') : t.Extends t'' where
  toContinues := h.toContinues.trans h'.toContinues
  closed i hi c hc := by
    by_cases hlt : i < t'.size
    · rw [children_congr (h'.kept i hlt)] at hc
      exact h.closed i hi c hc
    · exact h.size_le.trans (h'.closed i (not_lt.mp hlt) c hc)

/-- What was added last by an extension stays through the next one. -/
theorem keepsAt (h : t.Extends t') (hi : i < t.size) : t.KeepsAt t' i :=
  keepsAt_of_eq (h.kept i hi)

theorem alloc (h : t.Extends t') {node : Node} {range : Option Span}
    (hchildren : ∀ c ∈ node.children, t.size ≤ c) : t.Extends (t'.alloc node range).2 where
  toContinues := h.toContinues.alloc node range
  closed i hi c hc := by
    by_cases heq : i = t'.size
    · have hnew : entry? (t'.alloc node range).2 i = some { node, range } := by
        rw [entry?_alloc, if_pos heq]
      rw [children_of_entry hnew] at hc
      exact hchildren c hc
    · have hold : entry? (t'.alloc node range).2 i = t'.entry? i := by
        rw [entry?_alloc, if_neg heq]
      rw [children_congr hold] at hc
      exact h.closed i hi c hc

theorem modify (h : t.Extends t') {id : NodeId} {f : Entry → Entry} (hid : t.size ≤ id)
    (hchildren : ∀ e, t'.entry? id = some e → ∀ c ∈ (f e).node.children, t.size ≤ c) :
    t.Extends (t'.modify id f) where
  root := h.root
  size_le := by
    rw [size_modify]
    exact h.size_le
  kept i hi := by
    have hne : id ≠ i := (hi.trans_le hid).ne'
    rw [entry?_modify, if_neg hne, h.kept i hi]
  closed i hi c hc := by
    by_cases heq : id = i
    · subst heq
      cases he : t'.entry? id with
      | none =>
        have hnone : entry? (t'.modify id f) id = none := by simp [entry?_modify, he]
        simp [children, node, hnone, Node.missing, Node.children] at hc
      | some e =>
        have hsome : entry? (t'.modify id f) id = some (f e) := by simp [entry?_modify, he]
        rw [children_of_entry hsome] at hc
        exact hchildren e he c hc
    · have hold : entry? (t'.modify id f) i = t'.entry? i := by
        rw [entry?_modify, if_neg heq]
      rw [children_congr hold] at hc
      exact h.closed i hi c hc

end Extends
end Tree
end ScriptLint
