import ScriptLint.Proofs.Tree.Forest
import ScriptLint.Proofs.Tree.Link
import Mathlib.Algebra.Order.BigOperators.Group.List
import Mathlib.Algebra.Order.Ring.Nat
import Mathlib.Data.List.Perm.Subperm

namespace ScriptLint

namespace Forest

/-- Below each node of the forest stands what `next` gives for it. -/
inductive Follows (next : NodeId → List NodeId) : Forest → Prop where
  | nil : Follows next nil
  | node {id : NodeId} {kids rest : Forest} (hnext : next id = kids.roots)
      (hkids : Follows next kids) (hrest : Follows next rest) : Follows next (node id kids rest)

variable {next : NodeId → List NodeId} {f : Forest} {t : Tree} {text : List Char} {lo hi : Nat}

theorem Planted.follows (h : f.Planted t text lo hi) : f.Follows t.children := by
  induction h with
  | nil => exact .nil
  | node hentry hchildren _ _ _ _ _ _ _ ihkids ihrest =>
    exact .node ((Tree.children_of_entry hentry).trans hchildren) ihkids ihrest

namespace Follows

/-- What stands below a node of a forest is in the forest. -/
theorem mem_preorder (h : f.Follows next) {i j : NodeId} (hi : i ∈ f.preorder) (hj : j ∈ next i) :
    j ∈ f.preorder := by
  induction h with
  | nil => simp [preorder] at hi
  | @node id kids rest hnext _ _ ihkids ihrest =>
    simp only [preorder, List.mem_cons, List.mem_append] at hi ⊢
    rcases hi with rfl | hi | hi
    · rw [hnext] at hj
      exact .inr (.inl (kids.roots_subset_preorder hj))
    · exact .inr (.inl (ihkids hi))
    · exact .inr (.inr (ihrest hi))

/-- A root of a forest stands below none of its nodes. -/
theorem not_mem_roots (h : f.Follows next) (hnodup : f.preorder.Nodup) {i j : NodeId}
    (hi : i ∈ f.preorder) (hj : j ∈ next i) : j ∉ f.roots := by
  induction h with
  | nil => simp [preorder] at hi
  | @node id kids rest hnext hkids hrest ihkids ihrest =>
    simp only [preorder, List.nodup_cons, List.mem_append, not_or] at hnodup
    obtain ⟨⟨hidkids, hidrest⟩, hnodup⟩ := hnodup
    obtain ⟨hnodupkids, hnoduprest, hdisjoint⟩ := List.nodup_append.mp hnodup
    have hbelow : j ∈ kids.preorder → j ∉ (Forest.node id kids rest).roots := by
      intro hmem hroot
      rcases List.mem_cons.mp hroot with rfl | hroot
      · exact hidkids hmem
      · exact hdisjoint j hmem j (rest.roots_subset_preorder hroot) rfl
    simp only [preorder, List.mem_cons, List.mem_append] at hi
    rcases hi with rfl | hi | hi
    · rw [hnext] at hj
      exact hbelow (kids.roots_subset_preorder hj)
    · exact hbelow (hkids.mem_preorder hi hj)
    · intro hroot
      rcases List.mem_cons.mp hroot with rfl | hroot
      · exact hidrest (hrest.mem_preorder hi hj)
      · exact ihrest hnoduprest hi hroot

/-- Every node stands below at most one other. -/
theorem parent_unique (h : f.Follows next) (hnodup : f.preorder.Nodup) {p q j : NodeId}
    (hp : p ∈ f.preorder) (hq : q ∈ f.preorder) (hjp : j ∈ next p) (hjq : j ∈ next q) : p = q := by
  induction h with
  | nil => simp [preorder] at hp
  | @node id kids rest hnext hkids hrest ihkids ihrest =>
    simp only [preorder, List.nodup_cons, List.mem_append, not_or] at hnodup
    obtain ⟨hnodupkids, hnoduprest, hdisjoint⟩ := List.nodup_append.mp hnodup.2
    have happart : ∀ {a b}, a ∈ kids.preorder → b ∈ rest.preorder → j ∈ next a → j ∈ next b → p = q :=
      fun ha hb hja hjb =>
        absurd rfl (hdisjoint j (hkids.mem_preorder ha hja) j (hrest.mem_preorder hb hjb))
    have htop : ∀ {a}, j ∈ next id → a ∈ kids.preorder ∨ a ∈ rest.preorder → j ∈ next a → p = q := by
      intro a hjid ha hja
      rw [hnext] at hjid
      rcases ha with ha | ha
      · exact absurd hjid (hkids.not_mem_roots hnodupkids ha hja)
      · exact absurd rfl (hdisjoint j (kids.roots_subset_preorder hjid) j (hrest.mem_preorder ha hja))
    simp only [preorder, List.mem_cons, List.mem_append] at hp hq
    rcases hp with rfl | hp
    · rcases hq with rfl | hq
      · rfl
      · exact htop hjp hq hjq
    · rcases hq with rfl | hq
      · exact htop hjq hp hjp
      · rcases hp with hp | hp <;> rcases hq with hq | hq
        · exact ihkids hnodupkids hp hq
        · exact happart hp hq hjp hjq
        · exact happart hq hp hjq hjp
        · exact ihrest hnoduprest hp hq

/-- No node stands below another twice. -/
theorem nodup_next (h : f.Follows next) (hnodup : f.preorder.Nodup) {i : NodeId}
    (hi : i ∈ f.preorder) : (next i).Nodup := by
  induction h with
  | nil => simp [preorder] at hi
  | @node id kids rest hnext _ _ ihkids ihrest =>
    obtain ⟨hnodupkids, hnoduprest, -⟩ := List.nodup_append.mp (List.nodup_cons.mp hnodup).2
    simp only [preorder, List.mem_cons, List.mem_append] at hi
    rcases hi with rfl | hi | hi
    · rw [hnext]
      exact hnodupkids.sublist kids.roots_sublist_preorder
    · exact ihkids hnodupkids hi
    · exact ihrest hnoduprest hi

/-- Every node of a forest is reached from one of its roots. -/
theorem exists_reaches (h : f.Follows t.children) {i : NodeId} (hi : i ∈ f.preorder) :
    ∃ root ∈ f.roots, t.Reaches root i := by
  induction h with
  | nil => simp [preorder] at hi
  | @node id kids rest hnext _ _ ihkids ihrest =>
    simp only [preorder, List.mem_cons, List.mem_append] at hi
    rcases hi with rfl | hi | hi
    · exact ⟨i, List.mem_cons_self, .refl⟩
    · obtain ⟨kid, hkid, hreaches⟩ := ihkids hi
      rw [← hnext] at hkid
      exact ⟨id, List.mem_cons_self, .head hkid hreaches⟩
    · obtain ⟨root, hroot, hreaches⟩ := ihrest hi
      exact ⟨root, List.mem_cons_of_mem _ hroot, hreaches⟩

/-- The nodes of a finite tree are those reached from its root. -/
theorem mem_preorder_iff {root : NodeId} {kids : Forest}
    (h : (Forest.node root kids .nil).Follows t.children) {i : NodeId} :
    i ∈ (Forest.node root kids .nil).preorder ↔ t.Reaches root i := by
  constructor
  · intro hi
    obtain ⟨r, hr, hreaches⟩ := h.exists_reaches hi
    rwa [← List.mem_singleton.mp hr]
  · intro hreaches
    induction hreaches with
    | refl => exact List.mem_cons_self
    | tail _ hmem ih => exact h.mem_preorder ih hmem

end Follows

/-- Each node of a forest is a root or stands below one other node. -/
theorem Follows.length_preorder (h : f.Follows next) :
    f.preorder.length = f.roots.length + (f.preorder.map fun i => (next i).length).sum := by
  induction h with
  | nil => rfl
  | node hnext _ _ ihkids ihrest =>
    simp only [preorder, roots, List.length_cons, List.length_append, List.map_cons,
      List.map_append, List.sum_cons, List.sum_append, ihkids, ihrest, hnext]
    omega

end Forest

namespace Tree

variable {next : NodeId → List NodeId} {t : Tree}

/-- The nodes that were seen, with some more. -/
def mark (seen : Array Bool) (ids : List NodeId) : Array Bool :=
  ids.foldl (fun seen id => seen.set! id true) seen

theorem getElem?_mark {seen : Array Bool} {ids : List NodeId} {i : NodeId} (hi : i ∉ ids) :
    (mark seen ids)[i]? = seen[i]? := by
  induction ids generalizing seen with
  | nil => rfl
  | cons id ids ih =>
    obtain ⟨hne, hnot⟩ := not_or.mp fun h => hi (List.mem_cons.mpr h)
    rw [mark, List.foldl_cons, ← mark, ih hnot, Array.set!_eq_setIfInBounds,
      Array.getElem?_setIfInBounds_ne (Ne.symm hne)]

/-- A walk goes through a forest on top of its stack in the recursive order. -/
theorem walkFrom_forest {f : Forest} (hf : f.Follows next) (hnodup : f.preorder.Nodup)
    {seen : Array Bool} (hunseen : ∀ i ∈ f.preorder, seen[i]? = some false) {fuel : Nat}
    (hfuel : f.preorder.length ≤ fuel) (stack : List NodeId) :
    walkFrom next fuel (f.roots ++ stack) seen = f.preorder ++
      walkFrom next (fuel - f.preorder.length) stack (mark seen f.preorder) := by
  induction hf generalizing seen fuel stack with
  | nil => simp [Forest.roots, Forest.preorder, mark]
  | @node id kids rest hnext _ _ ihkids ihrest =>
    simp only [Forest.preorder, List.nodup_cons, List.mem_append, not_or] at hnodup
    obtain ⟨⟨hidkids, hidrest⟩, hnodup⟩ := hnodup
    obtain ⟨hkids, hrest, hdisjoint⟩ := List.nodup_append.mp hnodup
    simp only [Forest.preorder, List.length_cons, List.length_append] at hfuel
    obtain ⟨fuel, rfl⟩ : ∃ n, fuel = n + 1 := ⟨fuel - 1, by omega⟩
    have hseen : ∀ i, i ≠ id → (seen.set! id true)[i]? = seen[i]? := by
      intro i hne
      rw [Array.set!_eq_setIfInBounds, Array.getElem?_setIfInBounds_ne (Ne.symm hne)]
    have hunseenkids : ∀ i ∈ kids.preorder, (seen.set! id true)[i]? = some false := by
      intro i hi
      have hne : i ≠ id := fun heq => hidkids (heq ▸ hi)
      rw [hseen i hne]
      exact hunseen i (List.mem_cons_of_mem _ (List.mem_append_left _ hi))
    have hunseenrest : ∀ i ∈ rest.preorder,
        (mark (seen.set! id true) kids.preorder)[i]? = some false := by
      intro i hi
      have hne : i ≠ id := fun heq => hidrest (heq ▸ hi)
      have hnot : i ∉ kids.preorder := fun hmem => hdisjoint i hmem i hi rfl
      rw [getElem?_mark hnot, hseen i hne]
      exact hunseen i (List.mem_cons_of_mem _ (List.mem_append_right _ hi))
    have hid := hunseen id List.mem_cons_self
    have hfuelrest : fuel + 1 - (kids.preorder.length + rest.preorder.length + 1) =
        fuel - kids.preorder.length - rest.preorder.length := by omega
    simp only [Forest.roots, Forest.preorder, List.cons_append, walkFrom, hid, hnext,
      List.length_cons, List.length_append, hfuelrest]
    rw [ihkids hkids hunseenkids (by omega), ihrest hrest hunseenrest (by omega)]
    simp [mark]

theorem links_eq_sum (t : Tree) :
    t.links = ((List.range t.size).map fun i => (t.children i).length).sum := by
  have hmap : (List.range t.size).map (fun i => (t.children i).length) =
      t.entries.toList.map fun e => e.node.children.length := by
    refine List.ext_getElem (by simp [size]) fun i h₁ h₂ => ?_
    have hi : i < t.entries.size := by simpa using h₂
    simp [children, node, entry?, Array.getElem?_eq_getElem hi]
  rw [hmap, links, ← Array.foldl_toList, List.sum_eq_foldl, List.foldl_map]

/-- The children of different nodes are counted once each. -/
theorem sum_children_le_links {ids : List NodeId} (hnodup : ids.Nodup)
    (hlt : ∀ i ∈ ids, i < t.size) : (ids.map fun i => (t.children i).length).sum ≤ t.links := by
  have hsubset : ids ⊆ List.range t.size := fun i hi => List.mem_range.mpr (hlt i hi)
  obtain ⟨ids', hperm, hsublist⟩ := hnodup.subperm hsubset
  rw [links_eq_sum, ← (hperm.map _).sum_eq]
  exact (hsublist.map _).sum_le_sum (by simp)

/-- The nodes below the root of a tree without shared nodes, in the recursive order. -/
theorem preorder_eq {root : NodeId} {kids : Forest} (hroot : t.root = some root)
    (hfollows : (Forest.node root kids .nil).Follows t.children)
    (hnodup : (Forest.node root kids .nil).preorder.Nodup)
    (hlt : ∀ i ∈ (Forest.node root kids .nil).preorder, i < t.size) :
    t.preorder = (Forest.node root kids .nil).preorder := by
  have hlength := hfollows.length_preorder
  have hlinks := sum_children_le_links hnodup hlt
  have hunseen : ∀ i ∈ (Forest.node root kids .nil).preorder,
      (Array.replicate t.size false)[i]? = some false := by
    intro i hi
    simp [hlt i hi]
  have hfuel : (Forest.node root kids .nil).preorder.length ≤ t.links + 2 := by
    simp only [Forest.roots, List.length_singleton] at hlength
    omega
  have hwalk := walkFrom_forest hfollows hnodup hunseen hfuel []
  simp only [preorder, hroot, Option.map_some, Option.getD_some, descendants, walk]
  simp only [Forest.roots, List.append_nil] at hwalk
  rw [hwalk]
  cases t.links + 2 - (Forest.node root kids .nil).preorder.length <;> simp [walkFrom]

end Tree
end ScriptLint
