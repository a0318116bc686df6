import ScriptLint.Proofs.Tree.Search
import ScriptLint.Tree.Shape
import Mathlib.Data.List.Chain
import Mathlib.Logic.Relation
import Mathlib.Order.WellFounded

namespace ScriptLint
namespace Tree

/-- A walk from a node comes to an end, however long it takes. -/
def Halts (next : NodeId → List NodeId) (id : NodeId) : Prop := Acc (fun j i => j ∈ next i) id

/-- Steps from a node lead to one from which they lead back to it. -/
def Circles (next : NodeId → List NodeId) (id : NodeId) : Prop :=
  ∃ i, Relation.ReflTransGen (fun i j => j ∈ next i) id i ∧
    Relation.TransGen (fun i j => j ∈ next i) i i

variable {t : Tree} {next : NodeId → List NodeId} {id i : NodeId} {n : Nat}

/-- A walk ends within some steps if none of its paths has as many. -/
theorem endsWithin_iff_length_lt : endsWithin next n id ↔
    ∀ path : List NodeId, (id :: path).IsChain (fun i j => j ∈ next i) → path.length < n := by
  induction n generalizing id with
  | zero => simpa [endsWithin] using ⟨[], .singleton id⟩
  | succ n ih =>
    rw [endsWithin, List.all_eq_true]
    constructor
    · intro h path hpath
      cases path with
      | nil => exact Nat.succ_pos n
      | cons j path =>
        obtain ⟨hj, hpath⟩ := List.isChain_cons_cons.mp hpath
        exact Nat.succ_lt_succ (ih.mp (h j hj) path hpath)
    · intro h j hj
      refine ih.mpr fun path hpath => ?_
      exact Nat.lt_of_succ_lt_succ (h (j :: path) (List.isChain_cons_cons.mpr ⟨hj, hpath⟩))

/-- A path that never returns to a node has no node twice. -/
theorem nodup_of_isChain (hcircles : ¬ Circles next id) {path : List NodeId}
    (hpath : (id :: path).IsChain fun i j => j ∈ next i) : (id :: path).Nodup := by
  have hlater : (id :: path).Pairwise (Relation.TransGen fun i j => j ∈ next i) :=
    (hpath.imp fun _ _ h => Relation.TransGen.single h).pairwise
  have hfrom : ∀ i ∈ id :: path, Relation.ReflTransGen (fun i j => j ∈ next i) id i := by
    intro i hi
    rcases List.mem_cons.mp hi with rfl | hi
    · exact .refl
    · exact ((List.pairwise_cons.mp hlater).1 i hi).to_reflTransGen
  refine List.Pairwise.imp_of_mem (fun hi _ hij heq => ?_) hlater
  subst heq
  exact hcircles ⟨_, hfrom _ hi, hij⟩

/-- Each node of a path but the last has a next one. -/
theorem exists_next_of_mem_dropLast {path : List NodeId}
    (hpath : path.IsChain fun i j => j ∈ next i) (hi : i ∈ path.dropLast) : ∃ j, j ∈ next i := by
  induction hpath with
  | nil => cases hi
  | singleton => cases hi
  | cons_cons hj _ ih =>
    rw [List.dropLast_cons_cons] at hi
    rcases List.mem_cons.mp hi with rfl | hi
    · exact ⟨_, hj⟩
    · exact ih hi

theorem halts_of_endsWithin (h : endsWithin next n id) : Halts next id := by
  induction n generalizing id with
  | zero => cases h
  | succ n ih =>
    rw [endsWithin, List.all_eq_true] at h
    exact ⟨id, fun j hj => ih (h j hj)⟩

theorem Halts.of_reflTransGen (h : Halts next id)
    (hi : Relation.ReflTransGen (fun i j => j ∈ next i) id i) : Halts next i := by
  induction hi with
  | refl => exact h
  | tail _ hj ih => exact ih.inv hj

theorem Halts.not_circles (h : Halts next id) : ¬ Circles next id := by
  rintro ⟨i, hid, hi⟩
  exact not_acc_iff_exists_descending_chain.mpr
    ⟨fun _ => i, rfl, fun _ => Relation.transGen_swap.mpr hi⟩ (h.of_reflTransGen hid).transGen

/-- Where only nodes of the tree have a next one, a path without a node twice has no more steps
than there are nodes. -/
theorem ends_of_not_circles (hnext : ∀ i, ∀ j ∈ next i, i < t.size)
    (hcircles : ¬ Circles next id) : t.ends next id := by
  refine endsWithin_iff_length_lt.mpr fun path hpath => ?_
  have hsub : (id :: path).dropLast ⊆ List.range t.size := by
    intro i hi
    obtain ⟨j, hj⟩ := exists_next_of_mem_dropLast hpath hi
    exact List.mem_range.mpr (hnext i j hj)
  have hnodup : (id :: path).dropLast.Nodup :=
    (nodup_of_isChain hcircles hpath).sublist (List.dropLast_sublist _)
  have hlength := hnodup.length_le_of_subset hsub
  simp only [List.length_dropLast, List.length_cons, List.length_range] at hlength
  omega

/-- A walk that comes to an end at all does so within as many steps as there are nodes. -/
theorem ends_iff_halts (hnext : ∀ i, ∀ j ∈ next i, i < t.size) :
    t.ends next id ↔ Halts next id :=
  ⟨halts_of_endsWithin, fun h => ends_of_not_circles hnext h.not_circles⟩

theorem ends_iff_not_circles (hnext : ∀ i, ∀ j ∈ next i, i < t.size) :
    t.ends next id ↔ ¬ Circles next id :=
  ⟨fun h => (halts_of_endsWithin h).not_circles, ends_of_not_circles hnext⟩

/-- More fuel adds nothing to a chain that ends. -/
theorem follow_eq_of_endsWithin {next : NodeId → Option NodeId} {m : Nat}
    (h : endsWithin (fun i => (next i).toList) n id) (hle : n ≤ m) :
    follow next m id = follow next n id := by
  induction n generalizing m id with
  | zero => cases h
  | succ n ih =>
    obtain ⟨m, rfl⟩ := Nat.exists_eq_add_one_of_ne_zero (show m ≠ 0 by omega)
    rw [endsWithin, List.all_eq_true] at h
    simp only [follow]
    split
    · rfl
    · next j hj => rw [ih (h j (Option.mem_toList.mpr hj)) (by omega)]

theorem halts_children_iff : Halts t.children id ↔ ¬ Circles t.children id :=
  (ends_iff_halts fun _ _ => lt_size_of_mem_children).symm.trans
    (ends_iff_not_circles fun _ _ => lt_size_of_mem_children)

/-- A walk that leads from each node to nodes below it halts where the children do not lead in a
circle. -/
theorem Halts.of_below (h : Halts t.children id)
    (hbelow : ∀ i, ∀ j ∈ next i, Relation.TransGen (fun j i => j ∈ t.children i) j i) :
    Halts next id :=
  Subrelation.accessible (fun {j i} hj => hbelow i j hj) h.transGen

/-- Nodes that are not in the tree have no children, so it is enough to ask those that are. -/
theorem not_circles_of_ends (h : ∀ i < t.size, t.ends t.children i) (i : NodeId) :
    ¬ Circles t.children i := by
  rcases Nat.lt_or_ge i t.size with hi | hi
  · exact (halts_of_endsWithin (h i hi)).not_circles
  · refine halts_children_iff.mp ⟨i, fun j hj => ?_⟩
    rw [children_eq_nil hi] at hj
    cases hj

/-- Where a forest stands below each of its nodes there is no circle. -/
theorem halts_of_follows {f : Forest} (h : f.Follows next) : ∀ i ∈ f.roots, Halts next i := by
  induction h with
  | nil => simp [Forest.roots]
  | node hnext _ _ ihkids ihrest =>
    intro i hi
    rcases List.mem_cons.mp hi with rfl | hi
    · exact ⟨i, fun j hj => ihkids j (hnext ▸ hj)⟩
    · exact ihrest i hi

/-- A tree that a host makes: nodes are added, one is made the root and parents are linked, in any
order and as often as it likes. The nodes hold whatever identifiers it likes. -/
inductive Built : Tree → Prop where
  | empty : Built .empty
  | alloc {t : Tree} (h : Built t) (node : Node) (range : Option Span) :
      Built (t.alloc node range).2
  | withRoot {t : Tree} (h : Built t) (id : NodeId) : Built (t.withRoot id)
  | linkParents {t : Tree} (h : Built t) : Built t.linkParents

/-- Some nodes without ranges, linked from a root. -/
def ofNodes (nodes : List Node) (root : NodeId) : Tree :=
  ((nodes.foldl (fun t node => (alloc t node none).2) empty).withRoot root).linkParents

theorem built_ofNodes (nodes : List Node) (root : NodeId) : Built (ofNodes nodes root) := by
  refine .linkParents (.withRoot ?_ root)
  exact List.foldlRecOn nodes _ .empty fun _ h node _ => .alloc h node none

/-- Links are made all at once, so later nodes and roots do not close a circle of parents. -/
theorem Built.exists_rank (h : Built t) : ∃ rank : NodeId → Nat,
    (∀ i p, t.parent i = some p → rank p < rank i) ∧ ∀ i, rank i ≤ t.size := by
  induction h with
  | empty => exact ⟨fun _ => 0, by simp [Tree.parent, entry?, Tree.empty], fun _ => Nat.zero_le _⟩
  | @alloc t _ node range ih =>
    obtain ⟨rank, hlt, hle⟩ := ih
    refine ⟨rank, fun i p hp => hlt i p ?_, fun i => ?_⟩
    · rw [Tree.parent, entry?_alloc] at hp
      split at hp
      · cases hp
      · exact hp
    · rw [size_alloc]
      exact (hle i).trans (Nat.le_succ _)
  | withRoot _ id ih => exact ih
  | @linkParents t _ ih =>
    cases hroot : t.root with
    | none =>
      refine ⟨fun _ => 0, fun i p hp => ?_, fun _ => Nat.zero_le _⟩
      rw [linkParents_of_none hroot, parent_unlinked] at hp
      cases hp
    | some root =>
      obtain ⟨rank, hranked⟩ := exists_ranked_linkParents hroot
      exact ⟨rank, hranked.lt, fun i => (Nat.le_add_right _ _).trans (hranked.le i)⟩

/-- The way up always ends. -/
theorem Built.lineage_ancestors (h : Built t) (i : NodeId) : t.Lineage i (t.ancestors i) := by
  obtain ⟨rank, hlt, hle⟩ := h.exists_rank
  exact lineage_ancestorsUpTo hlt t.size i (hle i)

/-- A node is found from the root along children and parents. -/
def InSight (t : Tree) (i : NodeId) : Prop :=
  ∃ root, t.root = some root ∧
    Relation.ReflTransGen (fun i j => j ∈ t.children i ∨ t.parent i = some j) root i

namespace InSight

theorem reaches (h : t.InSight i) {j : NodeId} (hj : t.Reaches i j) : t.InSight j := by
  obtain ⟨root, hroot, hi⟩ := h
  exact ⟨root, hroot, hi.trans (Relation.ReflTransGen.mono (fun _ _ => Or.inl) _ _ hj)⟩

theorem child (h : t.InSight i) {j : NodeId} (hj : j ∈ t.children i) : t.InSight j :=
  h.reaches (.single hj)

theorem parent (h : t.InSight i) {p : NodeId} (hp : t.parent i = some p) : t.InSight p := by
  obtain ⟨root, hroot, hi⟩ := h
  exact ⟨root, hroot, hi.tail (.inr hp)⟩

theorem ancestors (h : t.InSight i) {p : NodeId} (hp : p ∈ t.ancestors i) : t.InSight p := by
  unfold Tree.ancestors at hp
  generalize t.size = fuel at hp
  induction fuel generalizing i with
  | zero => cases hp
  | succ fuel ih =>
    unfold ancestorsUpTo at hp
    split at hp
    · cases hp
    · next q hq =>
      rcases List.mem_cons.mp hp with rfl | hp
      · exact h.parent hq
      · exact ih (h.parent hq) hp

end InSight

theorem inSight_of_mem_preorder (h : i ∈ t.preorder) : t.InSight i := by
  obtain ⟨-, root, hroot, hreaches⟩ := mem_preorder_iff.mp h
  exact InSight.reaches ⟨root, hroot, .refl⟩ hreaches

/-- Where parents have just been linked no more is in sight than what the root reaches. -/
theorem reachable_of_inSight (h : t.linkParents.InSight i) : t.Reachable i := by
  have hsame := same_linkParents t
  obtain ⟨root, hroot, hi⟩ := h
  rw [hsame.root] at hroot
  induction hi with
  | refl => exact ⟨root, hroot, .refl⟩
  | tail _ hlink ih =>
    rcases hlink with hchild | hparent
    · obtain ⟨root', hroot', hreaches⟩ := ih
      rw [hsame.children] at hchild
      exact ⟨root', hroot', hreaches.tail hchild⟩
    · exact (link_linkParents hparent).1

end Tree
end ScriptLint
