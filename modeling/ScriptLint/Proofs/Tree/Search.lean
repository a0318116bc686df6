import ScriptLint.Proofs.Tree.Ancestry
import ScriptLint.Proofs.Tree.Walk
import Mathlib.Algebra.Order.BigOperators.Group.Finset

namespace ScriptLint
namespace Tree

/-- A walk from a stack that ends. The walk has no bound of its own, so that where nodes hold each
other there would be none if they were not marked. -/
inductive Walks (next : NodeId → List NodeId) : List NodeId → Array Bool → List NodeId → Prop where
  | done {seen : Array Bool} : Walks next [] seen []
  | visit {id : NodeId} {stack visited : List NodeId} {seen : Array Bool}
      (hid : seen[id]? = some false)
      (h : Walks next (next id ++ stack) (seen.set! id true) visited) :
      Walks next (id :: stack) seen (id :: visited)
  | pass {id : NodeId} {stack visited : List NodeId} {seen : Array Bool}
      (hid : seen[id]? ≠ some false) (h : Walks next stack seen visited) :
      Walks next (id :: stack) seen visited

variable {t : Tree} {next : NodeId → List NodeId} {stack visited : List NodeId} {seen : Array Bool}
  {id : NodeId}

theorem getElem?_set!_eq_false_iff {i : NodeId} :
    (seen.set! id true)[i]? = some false ↔ seen[i]? = some false ∧ i ≠ id := by
  rw [Array.set!_eq_setIfInBounds]
  by_cases hi : i = id
  · rw [hi, Array.getElem?_setIfInBounds_self]
    simp
  · rw [Array.getElem?_setIfInBounds_ne (Ne.symm hi)]
    simp [hi]

namespace Walks

/-- A walk goes only to nodes that were not marked before. -/
theorem unseen (h : Walks next stack seen visited) {i : NodeId} (hi : i ∈ visited) :
    seen[i]? = some false := by
  induction h with
  | done => cases hi
  | visit hid _ ih =>
    rcases List.mem_cons.mp hi with rfl | hi
    · exact hid
    · exact (getElem?_set!_eq_false_iff.mp (ih hi)).1
  | pass _ _ ih => exact ih hi

theorem nodup (h : Walks next stack seen visited) : visited.Nodup := by
  induction h with
  | done => exact List.nodup_nil
  | visit _ h ih =>
    refine List.nodup_cons.mpr ⟨fun hmem => ?_, ih⟩
    exact (getElem?_set!_eq_false_iff.mp (h.unseen hmem)).2 rfl
  | pass _ _ ih => exact ih

/-- A walk goes to all of its stack. -/
theorem mem_of_mem_stack (h : Walks next stack seen visited) {i : NodeId} (hi : i ∈ stack)
    (hunseen : seen[i]? = some false) : i ∈ visited := by
  induction h with
  | done => cases hi
  | @visit id _ _ _ hid _ ih =>
    by_cases heq : i = id
    · exact heq ▸ List.mem_cons_self
    · have hi := (List.mem_cons.mp hi).resolve_left heq
      exact List.mem_cons_of_mem _
        (ih (List.mem_append_right _ hi) (getElem?_set!_eq_false_iff.mpr ⟨hunseen, heq⟩))
  | pass hid _ ih =>
    rcases List.mem_cons.mp hi with rfl | hi
    · exact absurd hunseen hid
    · exact ih hi hunseen

/-- A walk goes on from each node it has been to. -/
theorem mem_of_mem_next (h : Walks next stack seen visited) {i j : NodeId} (hi : i ∈ visited)
    (hj : j ∈ next i) (hunseen : seen[j]? = some false) : j ∈ visited := by
  induction h with
  | done => cases hi
  | @visit id _ _ _ hid h ih =>
    by_cases heq : j = id
    · exact heq ▸ List.mem_cons_self
    · have hunseen := getElem?_set!_eq_false_iff.mpr ⟨hunseen, heq⟩
      refine List.mem_cons_of_mem _ ?_
      rcases List.mem_cons.mp hi with rfl | hi
      · exact h.mem_of_mem_stack (List.mem_append_left _ hj) hunseen
      · exact ih hi hunseen
  | pass _ _ ih => exact ih hi hunseen

/-- A walk stays with what its stack leads to. -/
theorem exists_reaches (h : Walks next stack seen visited) {i : NodeId} (hi : i ∈ visited) :
    ∃ start ∈ stack, Relation.ReflTransGen (fun i j => j ∈ next i) start i := by
  induction h with
  | done => cases hi
  | @visit id stack _ _ _ _ ih =>
    rcases List.mem_cons.mp hi with rfl | hi
    · exact ⟨i, List.mem_cons_self, .refl⟩
    · obtain ⟨j, hj, hreaches⟩ := ih hi
      rcases List.mem_append.mp hj with hj | hj
      · exact ⟨id, List.mem_cons_self, .head hj hreaches⟩
      · exact ⟨j, List.mem_cons_of_mem _ hj, hreaches⟩
  | pass _ _ ih =>
    obtain ⟨j, hj, hreaches⟩ := ih hi
    exact ⟨j, List.mem_cons_of_mem _ hj, hreaches⟩

end Walks

/-- The number of identifiers that are still to be put on the stack. -/
def pending (next : NodeId → List NodeId) (seen : Array Bool) : Nat :=
  ∑ i ∈ (Finset.range seen.size).filter fun i => seen[i]? = some false, (next i).length

theorem pending_set! (hid : seen[id]? = some false) :
    (next id).length + pending next (seen.set! id true) = pending next seen := by
  have hlt : id < seen.size := (Array.getElem?_eq_some_iff.mp hid).1
  have herase : (Finset.range (seen.set! id true).size).filter
      (fun i => (seen.set! id true)[i]? = some false) =
      ((Finset.range seen.size).filter fun i => seen[i]? = some false).erase id := by
    ext i
    rw [Array.set!_eq_setIfInBounds, Array.size_setIfInBounds, ← Array.set!_eq_setIfInBounds]
    simp only [Finset.mem_filter, Finset.mem_erase, getElem?_set!_eq_false_iff]
    tauto
  have hmem : id ∈ (Finset.range seen.size).filter fun i => seen[i]? = some false :=
    Finset.mem_filter.mpr ⟨Finset.mem_range.mpr hlt, hid⟩
  rw [pending, herase]
  exact Finset.add_sum_erase _ (fun i => (next i).length) hmem

theorem pending_replicate_le (hnext : ∀ i, (next i).length ≤ (t.children i).length) :
    pending next (Array.replicate t.size false) ≤ t.links := by
  have hall : (Finset.range (Array.replicate t.size false).size).filter
      (fun i => (Array.replicate t.size false)[i]? = some false) = Finset.range t.size := by
    ext i
    simp [Array.getElem?_replicate]
  rw [pending, hall, links_eq_sum]
  exact Finset.sum_le_sum fun i _ => hnext i

/-- Each round takes one identifier from the stack, so it ends when there is fuel for those on it
and those still to be put there. -/
theorem walks_walkFrom (fuel : Nat) (hfuel : stack.length + pending next seen ≤ fuel) :
    Walks next stack seen (walkFrom next fuel stack seen) := by
  induction fuel generalizing stack seen with
  | zero =>
    obtain rfl : stack = [] := List.length_eq_zero_iff.mp (by omega)
    exact .done
  | succ fuel ih =>
    cases stack with
    | nil => exact .done
    | cons id stack =>
      rw [List.length_cons] at hfuel
      unfold walkFrom
      split
      · next hid =>
        have hpending : (next id).length + pending next (seen.set! id true) = pending next seen :=
          pending_set! hid
        refine .visit hid (ih ?_)
        rw [List.length_append]
        omega
      · next hid => exact .pass hid (ih (by omega))

theorem lt_size_of_mem_children {i p : NodeId} (h : i ∈ t.children p) : p < t.size := by
  by_contra hge
  rw [children_eq_nil (not_lt.mp hge)] at h
  cases h

theorem walks_walk (hnext : ∀ i, (next i).length ≤ (t.children i).length) (id : NodeId) :
    Walks next [id] (Array.replicate t.size false) (t.walk next id) := by
  have hle := pending_replicate_le hnext
  refine walks_walkFrom (t.links + 2) ?_
  rw [List.length_singleton]
  omega

/-- A walk goes to the nodes that its steps lead to, where no node has more steps than children. -/
theorem mem_walk_iff (hnext : ∀ i, (next i).length ≤ (t.children i).length) {i : NodeId} :
    i ∈ t.walk next id ↔ i < t.size ∧ Relation.ReflTransGen (fun i j => j ∈ next i) id i := by
  have hwalks := walks_walk hnext id
  have hunseen : ∀ i, (Array.replicate t.size false)[i]? = some false ↔ i < t.size := by
    simp [Array.getElem?_replicate]
  have hinside : ∀ {i j}, j ∈ next i → i < t.size := by
    intro i j hj
    have hlength := (List.length_pos_of_mem hj).trans_le (hnext i)
    obtain ⟨c, hc⟩ := List.exists_mem_of_length_pos hlength
    exact lt_size_of_mem_children hc
  constructor
  · intro hi
    obtain ⟨start, hstart, hreaches⟩ := hwalks.exists_reaches hi
    rw [List.mem_singleton.mp hstart] at hreaches
    exact ⟨(hunseen i).mp (hwalks.unseen hi), hreaches⟩
  · rintro ⟨hlt, hreaches⟩
    induction hreaches with
    | refl => exact hwalks.mem_of_mem_stack List.mem_cons_self ((hunseen _).mpr hlt)
    | @tail p i _ hmem ih =>
      exact hwalks.mem_of_mem_next (ih (hinside hmem)) hmem ((hunseen i).mpr hlt)

/-- A walk from a node goes to the nodes that it reaches. -/
theorem mem_descendants_iff {i : NodeId} :
    i ∈ t.descendants id ↔ i < t.size ∧ t.Reaches id i :=
  mem_walk_iff fun _ => le_rfl

theorem reaches_of_mem_descendants {i : NodeId} (h : i ∈ t.descendants id) : t.Reaches id i :=
  (mem_descendants_iff.mp h).2

theorem walks_preorder (t : Tree) :
    Walks t.children t.root.toList (Array.replicate t.size false) t.preorder := by
  cases hroot : t.root with
  | none =>
    simp only [preorder, hroot]
    exact .done
  | some root =>
    simp only [preorder, hroot]
    exact walks_walk (fun _ => le_rfl) root

/-- A walk from the root goes to the nodes that the root reaches. -/
theorem mem_preorder_iff {i : NodeId} : i ∈ t.preorder ↔ i < t.size ∧ t.Reachable i := by
  cases hroot : t.root with
  | none => simp [preorder, Reachable, hroot]
  | some root => simp [preorder, Reachable, hroot, mem_descendants_iff]

/-- What parent links and walks are worth in a tree `u` that was linked from `t`. -/
structure Connected (t u : Tree) : Prop where
  same : Relinked t u
  root_parent : ∀ root, t.root = some root → u.parent root = none
  linked_iff : ∀ i, (u.parent i).isSome ↔ i < t.size ∧ t.Reachable i ∧ t.root ≠ some i
  link : ∀ i p, u.parent i = some p → t.Reachable p ∧ i ∈ t.children p
  lineage : ∀ i, u.Lineage i (u.ancestors i)
  lineage_root : ∀ i root, t.root = some root → i < t.size → t.Reachable i →
    (i :: u.ancestors i).getLast (List.cons_ne_nil _ _) = root
  walks : Walks u.children u.root.toList (Array.replicate u.size false) u.preorder
  nodup : u.preorder.Nodup
  mem_preorder : ∀ i, i ∈ u.preorder ↔ i < t.size ∧ (t.root = some i ∨ (u.parent i).isSome)

/-- Where there is no root nothing is linked. -/
theorem linkParents_of_none (hroot : t.root = none) : t.linkParents = t.unlinked := by
  unfold linkParents unlinked
  simp only [hroot]

/-- The nodes with a parent are those below the root. -/
theorem isSome_parent_linkParents_iff {i : NodeId} :
    (t.linkParents.parent i).isSome ↔ i < t.size ∧ t.Reachable i ∧ t.root ≠ some i := by
  cases hroot : t.root with
  | none =>
    rw [linkParents_of_none hroot, parent_unlinked]
    simp [Reachable, hroot]
  | some root =>
    obtain ⟨hlinked, -⟩ := linkParents_of_root hroot
    constructor
    · intro hsome
      obtain ⟨p, hp⟩ := Option.isSome_iff_exists.mp hsome
      have hlt : i < t.linkParents.size := by
        by_contra hge
        simp [Tree.parent, entry?_eq_none_iff.mpr (not_lt.mp hge)] at hp
      refine ⟨hlinked.same.size ▸ hlt, ⟨root, hroot, hlinked.reaches (.inr hsome)⟩, ?_⟩
      rintro heq
      cases heq
      rw [hlinked.root_parent] at hp
      cases hp
    · rintro ⟨hlt, ⟨root', hroot', hreaches⟩, hne⟩
      cases hroot.symm.trans hroot'
      obtain ⟨p, hp, -⟩ := exists_parent_linkParents hroot hreaches hlt fun heq => hne (heq ▸ rfl)
      rw [hp]
      rfl

/-- Only parent links change. -/
theorem same_linkParents (t : Tree) : Relinked t t.linkParents := by
  cases hroot : t.root with
  | none => exact linkParents_of_none hroot ▸ relinked_unlinked t
  | some root => exact relinked_linkParents hroot

/-- A parent is a node below the root that holds the child. -/
theorem link_linkParents {i p : NodeId} (hp : t.linkParents.parent i = some p) :
    t.Reachable p ∧ i ∈ t.children p := by
  have hsome : (t.linkParents.parent i).isSome := by rw [hp]; rfl
  obtain ⟨-, ⟨root, hroot, -⟩, -⟩ := isSome_parent_linkParents_iff.mp hsome
  obtain ⟨hreaches, hmem⟩ := (linkParents_of_root hroot).1.link i p hp
  exact ⟨⟨root, hroot, hreaches⟩, hmem⟩

/-- The way up ends. -/
theorem lineage_linkParents (t : Tree) (i : NodeId) :
    t.linkParents.Lineage i (t.linkParents.ancestors i) := by
  cases hroot : t.root with
  | none =>
    refine @lineage_ancestorsUpTo _ (fun _ => 0) (fun i p hp => ?_) _ i (Nat.zero_le _)
    rw [linkParents_of_none hroot, parent_unlinked] at hp
    cases hp
  | some root =>
    obtain ⟨rank, hranked⟩ := exists_ranked_linkParents hroot
    exact hranked.lineage_ancestors i

/-- Whatever identifiers the nodes of a tree hold, also if nodes are shared, missing or lead back to
themselves, its links lead to the root and a walk ends. The root has no parent, the nodes with one
are those below the root, a parent has the node among its children, and a walk meets each node once.
-/
theorem connected_linkParents (t : Tree) : Connected t t.linkParents := by
  have hsame := same_linkParents t
  refine ⟨hsame, fun _ hroot => parent_root_linkParents hroot,
    fun _ => isSome_parent_linkParents_iff, fun _ _ => link_linkParents, lineage_linkParents t,
    fun i root hroot hlt hreachable => ?_, walks_preorder _, (walks_preorder _).nodup, fun i => ?_⟩
  · obtain ⟨rank, hranked⟩ := exists_ranked_linkParents hroot
    obtain ⟨root', hroot', hreaches⟩ := hreachable
    cases hroot.symm.trans hroot'
    exact hranked.getLast_lineage ((linkParents_of_root hroot).2.seen hreaches hlt)
      (hranked.lineage_ancestors i)
  · rw [mem_preorder_iff, hsame.size, hsame.reachable, isSome_parent_linkParents_iff]
    by_cases hi : t.root = some i
    · have hreachable : t.Reachable i := ⟨i, hi, .refl⟩
      simp [hi, hreachable]
    · simp only [hi, false_or, not_false_eq_true, and_true, ne_eq]
      tauto

end Tree
end ScriptLint
