import ScriptLint.Proofs.Parse.Program
import ScriptLint.Proofs.Tree.Range
import ScriptLint.Proofs.Tree.Search

namespace ScriptLint

namespace Tree

/-- All links of a tree are those of one finite tree below `root`. -/
structure Intact (t : Tree) (root : NodeId) : Prop where
  root_eq : t.root = some root
  inside : ∀ i, t.Reachable i → i < t.size
  /-- Every identifier in a field leads to a node that is reached through children. -/
  fields : ∀ i, t.Reachable i → ∀ field ∈ (t.node i).fields, ∀ j ∈ field.2.nodeIds,
    j < t.size ∧ t.Reachable j
  /-- Every node but the root is once a child of one node, and its parent link names that node. -/
  parent : ∀ i, t.Reachable i → i ≠ root → ∃ p, t.Reachable p ∧ (t.children p).count i = 1 ∧
    (∀ q, t.Reachable q → i ∈ t.children q → q = p) ∧ t.parent i = some p
  root_parent : t.parent root = none
  root_child : ∀ i, t.Reachable i → root ∉ t.children i
  /-- The walk over the tree is the recursive preorder. -/
  preorder : ∃ kids : Forest, (Forest.node root kids .nil).Follows t.children ∧
    t.preorder = (Forest.node root kids .nil).preorder
  preorder_nodup : t.preorder.Nodup
  mem_preorder : ∀ i, i ∈ t.preorder ↔ t.Reachable i

variable {t : Tree} {root : NodeId} {kids : Forest} {text : List Char} {lo hi : Nat}

/-- A tree that holds one finite tree is intact once its parents are linked. -/
theorem intact_linkParents (hroot : t.root = some root)
    (hnodup : (Forest.node root kids .nil).preorder.Nodup)
    (hplanted : (Forest.node root kids .nil).Planted t text lo hi) :
    t.linkParents.Intact root := by
  have hsame := relinked_linkParents hroot
  have hfollows := hplanted.follows
  have hmem : ∀ i, i ∈ (Forest.node root kids .nil).preorder ↔ t.Reachable i := by
    intro i
    rw [hfollows.mem_preorder_iff]
    simp [Reachable, hroot]
  have hchildren : t.linkParents.children = t.children := funext hsame.children
  have hpreorder : t.linkParents.preorder = (Forest.node root kids .nil).preorder := by
    refine preorder_eq (hsame.root.trans hroot) ?_ hnodup fun i hi => ?_
    · rwa [hchildren]
    · rw [hsame.size]
      exact hplanted.lt_size i hi
  refine ⟨hsame.root.trans hroot, ?_, ?_, ?_, parent_root_linkParents hroot, ?_, ⟨kids, ?_, hpreorder⟩,
    hpreorder ▸ hnodup, fun i => ?_⟩
  · intro i hi
    rw [hsame.reachable] at hi
    rw [hsame.size]
    exact hplanted.lt_size i ((hmem i).mpr hi)
  · intro i hi field hfield j hj
    rw [hsame.reachable] at hi ⊢
    rw [hsame.node] at hfield
    rw [hsame.size]
    obtain ⟨lo', hi', kids', hsub⟩ := hplanted.subtree ((hmem i).mpr hi)
    have hbelow : j ∈ (Forest.node i kids' .nil).preorder := by
      cases hsub with
      | node hentry _ hids =>
        rw [node_of_entry hentry] at hfield
        have hj := hids (List.mem_flatMap.mpr ⟨field, hfield, hj⟩)
        exact List.mem_cons_of_mem _ (List.mem_append_left _ hj)
    obtain ⟨r, hr, hreaches⟩ := hi
    exact ⟨hsub.lt_size j hbelow, r, hr, hreaches.trans (hsub.follows.mem_preorder_iff.mp hbelow)⟩
  · intro i hi hne
    rw [hsame.reachable, hchildren] at *
    obtain ⟨p, hparent, hp, hchild⟩ := exists_parent_linkParents hroot
      (hfollows.mem_preorder_iff.mp ((hmem i).mpr hi)) (hplanted.lt_size i ((hmem i).mpr hi)) hne
    have hp : t.Reachable p := ⟨root, hroot, hp⟩
    refine ⟨p, hp, ?_, fun q hq hchild' => ?_, hparent⟩
    · exact List.count_eq_one_of_mem (hfollows.nodup_next hnodup ((hmem p).mpr hp)) hchild
    · exact hfollows.parent_unique hnodup ((hmem q).mpr hq) ((hmem p).mpr hp) hchild' hchild
  · intro i hi
    rw [hsame.reachable] at hi
    rw [hchildren]
    exact fun hchild => hfollows.not_mem_roots hnodup ((hmem i).mpr hi) hchild List.mem_cons_self
  · rwa [hchildren]
  · rw [hpreorder, hsame.reachable]
    exact hmem i

/-- The parent of a node is the one that holds it. -/
theorem Intact.parent_eq_some_iff (h : t.Intact root) {i p : NodeId} (hi : t.Reachable i) :
    t.parent i = some p ↔ t.Reachable p ∧ i ∈ t.children p := by
  by_cases hne : i = root
  · rw [hne, h.root_parent]
    exact ⟨nofun, fun ⟨hp, hchild⟩ => absurd hchild (h.root_child p hp)⟩
  · obtain ⟨q, hq, hcount, hunique, hparent⟩ := h.parent i hi hne
    have hchild : i ∈ t.children q := List.count_pos_iff.mp (hcount ▸ Nat.one_pos)
    rw [hparent, Option.some.injEq]
    exact ⟨fun heq => heq ▸ ⟨hq, hchild⟩, fun ⟨hp, hchild'⟩ => (hunique p hp hchild').symm⟩

theorem Intact.parent_eq (h : t.Intact root) {i p : NodeId} (hp : t.Reachable p)
    (hi : i ∈ t.children p) : t.parent i = some p :=
  (h.parent_eq_some_iff (hp.child hi)).mpr ⟨hp, hi⟩

end Tree

theorem exists_tree_of_toBool {source : List Char} (h : (parse source).toBool = true) :
    ∃ t, parse source = .ok t := by
  match hparse : parse source with
  | .ok t => exact ⟨t, rfl⟩
  | .error _ =>
    rw [hparse] at h
    cases h

/-- A text whose tree has been looked at parses. -/
theorem exists_tree_of_any {source : List Char} {p : Tree → Bool}
    (h : (parse source).toOption.any p = true) : ∃ t, parse source = .ok t ∧ p t = true := by
  cases hparse : parse source with
  | ok t =>
    rw [hparse] at h
    exact ⟨t, rfl, h⟩
  | error _ =>
    rw [hparse] at h
    cases h

/-- The root of a tree that was parsed, from which it is intact. -/
theorem Tree.exists_root_of_parse {source : List Char} {t : Tree} (h : parse source = .ok t) :
    ∃ root, t.root = some root ∧ t.Intact root := by
  obtain ⟨t₀, root, kids, rfl, hroot, hnodup, hplanted⟩ := Parse.exists_forest_of_parse h
  have hintact := intact_linkParents hroot hnodup hplanted
  exact ⟨root, hintact.root_eq, hintact⟩

/-- Every text that parses has an intact tree. What the root leads to lies inside it, every node but
the root is once a child of one node only, which its parent link names, every identifier in a field
leads to such a node, and the walk meets each of them once, parents before children. -/
theorem parse_intact {source : List Char} {t : Tree} (h : parse source = .ok t) :
    ∃ root, t.Intact root := by
  obtain ⟨root, -, hintact⟩ := Tree.exists_root_of_parse h
  exact ⟨root, hintact⟩

theorem parse_intact_of_nested_types : ∃ t root,
    parse "let x: Map<K, List<V>> = [y, ...z];".toList = .ok t ∧ t.Intact root := by
  have hparses : (parse "let x: Map<K, List<V>> = [y, ...z];".toList).toBool = true := by
    decide +kernel
  obtain ⟨t, h⟩ := exists_tree_of_toBool hparses
  obtain ⟨root, hintact⟩ := parse_intact h
  exact ⟨t, root, h, hintact⟩

/-- In the tree of a text that parses the way up from every node ends. -/
theorem parse_lineage {source : List Char} {t : Tree} (h : parse source = .ok t) (i : NodeId) :
    t.Lineage i (t.ancestors i) := by
  obtain ⟨t₀, root, kids, rfl, -⟩ := Parse.exists_forest_of_parse h
  exact t₀.lineage_linkParents i

/-- The ranges of a tree that was parsed. -/
theorem Tree.ranged_of_parse {source : List Char} {t : Tree} (h : parse source = .ok t) :
    t.Ranged source := by
  obtain ⟨t₀, root, kids, rfl, hroot, -, hplanted⟩ := Parse.exists_forest_of_parse h
  exact ranged_linkParents hroot hplanted

/-- In the tree of a text that parses the range of every node is in place: it begins and ends
between characters of the text, the ranges of the node's children lie inside of it, and they stand
one after the other. -/
theorem parse_ranged {source : List Char} {t : Tree} (h : parse source = .ok t) {i : NodeId}
    (hi : t.Reachable i) : ∃ r, t.RangedAt source i r := by
  exact Tree.ranged_of_parse h i hi

theorem parse_ranged_of_nested_types : ∃ t root r,
    parse "let x: Map<K, List<V>> = [y, ...z];".toList = .ok t ∧ t.root = some root ∧
      t.RangedAt "let x: Map<K, List<V>> = [y, ...z];".toList root r := by
  have hparses : (parse "let x: Map<K, List<V>> = [y, ...z];".toList).toBool = true := by
    decide +kernel
  obtain ⟨t, h⟩ := exists_tree_of_toBool hparses
  obtain ⟨root, hroot, -⟩ := Tree.exists_root_of_parse h
  obtain ⟨r, hranged⟩ := parse_ranged h ⟨root, hroot, .refl⟩
  exact ⟨t, root, r, h, hroot, hranged⟩

end ScriptLint
