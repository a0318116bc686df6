import ScriptLint.Proofs.Source.Place
import ScriptLint.Proofs.Tree.Extend
import Mathlib.Data.List.Chain
import Mathlib.Data.List.Nodup

namespace ScriptLint

/-- Finite ordered trees, one after the other. -/
inductive Forest where
  | nil
  | node (id : NodeId) (kids rest : Forest)

namespace Forest

/-- The top of each tree. -/
def roots : Forest → List NodeId
  | nil => []
  | node id _ rest => id :: rest.roots

/-- All nodes, each before those below it and these before the next tree. -/
def preorder : Forest → List NodeId
  | nil => []
  | node id kids rest => id :: (kids.preorder ++ rest.preorder)

protected def append : Forest → Forest → Forest
  | nil, g => g
  | node id kids rest, g => node id kids (rest.append g)

instance : Append Forest := ⟨Forest.append⟩

@[simp] theorem nil_append (g : Forest) : nil ++ g = g := rfl

@[simp] theorem node_append (id : NodeId) (kids rest g : Forest) :
    node id kids rest ++ g = node id kids (rest ++ g) := rfl

@[simp] theorem roots_append (f g : Forest) : (f ++ g).roots = f.roots ++ g.roots := by
  induction f with
  | nil => rfl
  | node id kids rest _ ih => simp [roots, ih]

@[simp] theorem preorder_append (f g : Forest) :
    (f ++ g).preorder = f.preorder ++ g.preorder := by
  induction f with
  | nil => rfl
  | node id kids rest _ ih => simp [preorder, ih]

theorem roots_sublist_preorder (f : Forest) : f.roots.Sublist f.preorder := by
  induction f with
  | nil => exact .slnil
  | node id kids rest _ ih => exact (ih.trans (List.sublist_append_right _ _)).cons_cons id

theorem roots_subset_preorder (f : Forest) : f.roots ⊆ f.preorder :=
  f.roots_sublist_preorder.subset

/-- The tree holds the forest between two offsets of the text. -/
inductive Planted (t : Tree) (text : List Char) : Nat → Nat → Forest → Prop where
  | nil {lo hi : Nat} : Planted t text lo hi nil
  | node {lo hi : Nat} {id : NodeId} {kids rest : Forest} {e : Entry} {r : Span}
      (hentry : t.entry? id = some e) (hchildren : e.node.children = kids.roots)
      (hids : e.node.ids ⊆ kids.preorder) (hrange : e.range = some r) (hon : r.On text)
      (hlo : lo ≤ r.start) (hhi : r.stop ≤ hi) (hkids : Planted t text r.start r.stop kids)
      (hrest : Planted t text r.stop hi rest) : Planted t text lo hi (node id kids rest)

namespace Planted

variable {t t' : Tree} {text : List Char} {lo lo' hi hi' : Nat} {f g : Forest}

theorem weaken (h : Planted t text lo hi f) (hlo : lo' ≤ lo) (hhi : hi ≤ hi') :
    Planted t text lo' hi' f := by
  induction h generalizing lo' with
  | nil => exact .nil
  | node hentry hchildren hids hrange hon hstart hstop hkids _ _ ih =>
    exact .node hentry hchildren hids hrange hon (hlo.trans hstart) (hstop.trans hhi) hkids
      (ih le_rfl hhi)

/-- One forest after another. -/
theorem append {mid mid' : Nat} (hf : Planted t text lo mid f) (hg : Planted t text mid' hi g)
    (hlo : lo ≤ mid') (hmid : mid ≤ mid') (hhi : mid ≤ hi) : Planted t text lo hi (f ++ g) := by
  induction hf with
  | nil => exact hg.weaken hlo le_rfl
  | node hentry hchildren hids hrange hon hstart hstop hkids _ _ ih =>
    exact .node hentry hchildren hids hrange hon hstart (hstop.trans hhi) hkids
      (ih (hstop.trans hmid) hmid hhi)

/-- Only children, fields and ranges of its nodes matter to a forest. -/
theorem congr (h : Planted t text lo hi f) (hkeeps : ∀ i ∈ f.preorder, t.KeepsAt t' i) :
    Planted t' text lo hi f := by
  induction h with
  | nil => exact .nil
  | node hentry hchildren hids hrange hon hstart hstop _ _ ihkids ihrest =>
    obtain ⟨e', hentry', halike⟩ := hkeeps _ List.mem_cons_self _ hentry
    refine .node hentry' (halike.children.trans hchildren) ?_ (halike.range.trans hrange) hon
      hstart hstop (ihkids fun i hi => ?_) (ihrest fun i hi => ?_)
    · rw [halike.ids]
      exact hids
    · exact hkeeps i (List.mem_cons_of_mem _ (List.mem_append_left _ hi))
    · exact hkeeps i (List.mem_cons_of_mem _ (List.mem_append_right _ hi))

/-- What the tree holds at the first root. -/
theorem entry {id : NodeId} {kids rest : Forest} (h : Planted t text lo hi (.node id kids rest)) :
    ∃ e r, t.entry? id = some e ∧ e.range = some r ∧ r.On text ∧ r.stop ≤ hi := by
  cases h with
  | node hentry _ _ hrange hon _ hhi => exact ⟨_, _, hentry, hrange, hon, hhi⟩

theorem lt_size (h : Planted t text lo hi f) : ∀ i ∈ f.preorder, i < t.size := by
  induction h with
  | nil => simp [preorder]
  | node hentry _ _ _ _ _ _ _ _ ihkids ihrest =>
    intro i hi
    simp only [preorder, List.mem_cons, List.mem_append] at hi
    rcases hi with rfl | hi | hi
    · exact Tree.lt_size_of_entry hentry
    · exact ihkids i hi
    · exact ihrest i hi

/-- Each node of a forest is the root of a tree that is held too. -/
theorem subtree (h : Planted t text lo hi f) {i : NodeId} (hmem : i ∈ f.preorder) :
    ∃ lo hi kids, Planted t text lo hi (.node i kids .nil) := by
  induction h with
  | nil => simp [preorder] at hmem
  | node hentry hchildren hids hrange hon hlo hhi hkids _ ihkids ihrest =>
    simp only [preorder, List.mem_cons, List.mem_append] at hmem
    rcases hmem with rfl | hmem | hmem
    · exact ⟨_, _, _, .node hentry hchildren hids hrange hon hlo hhi hkids .nil⟩
    · exact ihkids hmem
    · exact ihrest hmem

/-- The roots lie between the two offsets. -/
theorem range_of_mem_roots (h : Planted t text lo hi f) {i : NodeId} (hmem : i ∈ f.roots) :
    ∃ r, t.range i = some r ∧ lo ≤ r.start ∧ r.stop ≤ hi := by
  induction h with
  | nil => simp [roots] at hmem
  | node hentry _ _ hrange hon hlo hhi _ _ _ ihrest =>
    rcases List.mem_cons.mp hmem with rfl | hmem
    · exact ⟨_, (Tree.range_of_entry hentry).trans hrange, hlo, hhi⟩
    · obtain ⟨r, hr, hstart, hstop⟩ := ihrest hmem
      exact ⟨r, hr, hlo.trans (hon.start_le_stop.trans hstart), hstop⟩

/-- Each root ends before the next one begins. -/
theorem isChain_roots (h : Planted t text lo hi f) :
    f.roots.IsChain fun i j => ∃ r q, t.range i = some r ∧ t.range j = some q ∧ r.stop ≤ q.start := by
  induction h with
  | nil => exact .nil
  | @node _ _ id _ rest e r hentry _ _ hrange _ _ _ _ hrest _ ihrest =>
    rw [roots]
    refine List.isChain_cons.mpr ⟨fun j hj => ?_, ihrest⟩
    obtain ⟨q, hq, hstart, -⟩ := hrest.range_of_mem_roots (List.mem_of_mem_head? hj)
    exact ⟨r, q, (Tree.range_of_entry hentry).trans hrange, hq, hstart⟩

/-- A node takes the trees after it as its last children and reaches to their end. -/
theorem absorb {id : NodeId} {kids rest : Forest} {e e' : Entry} {r r' : Span}
    (h : Planted t text lo hi (.node id kids rest))
    (hnodup : (Forest.node id kids rest).preorder.Nodup) (hentry : t.entry? id = some e)
    (hrange : e.range = some r) (hother : ∀ i, i ≠ id → t'.entry? i = t.entry? i)
    (hentry' : t'.entry? id = some e')
    (hchildren : e'.node.children = e.node.children ++ rest.roots)
    (hids : e'.node.ids ⊆ e.node.ids ++ rest.roots) (hrange' : e'.range = some r')
    (hon : r'.On text) (hstart : r'.start = r.start) (hstop : r'.stop = hi) :
    Planted t' text lo hi (.node id (kids ++ rest) .nil) := by
  cases h with
  | node hentry₀ hchildren₀ hids₀ hrange₀ hon₀ hlo₀ hhi₀ hkids hrest =>
    cases hentry.symm.trans hentry₀
    cases hrange.symm.trans hrange₀
    have hnot : ∀ i ∈ (kids ++ rest).preorder, i ≠ id := by
      intro i hi heq
      subst heq
      rw [preorder_append] at hi
      exact (List.nodup_cons.mp hnodup).1 hi
    have hall : Planted t text r.start hi (kids ++ rest) :=
      hkids.append hrest hon₀.start_le_stop le_rfl hhi₀
    refine .node hentry' ?_ ?_ hrange' hon (hlo₀.trans hstart.ge) hstop.le ?_ .nil
    · rw [hchildren, hchildren₀, roots_append]
    · refine List.Subset.trans hids (List.append_subset.mpr ⟨?_, ?_⟩)
      · exact List.Subset.trans hids₀ (by simp)
      · exact List.Subset.trans rest.roots_subset_preorder (by simp)
    · rw [hstart, hstop]
      exact hall.congr fun i hi => Tree.keepsAt_of_eq (hother i (hnot i hi))

end Planted

/-- The forest consists of nodes that were added to `t` and is held by the later tree `t'`. -/
structure Sown (f : Forest) (t t' : Tree) (text : List Char) (lo hi : Nat) : Prop where
  nodup : f.preorder.Nodup
  fresh : ∀ i ∈ f.preorder, t.size ≤ i
  planted : f.Planted t' text lo hi

namespace Sown

variable {t t' t'' : Tree} {text : List Char} {lo hi : Nat} {f g : Forest}

theorem nil : Sown .nil t t' text lo hi :=
  ⟨List.nodup_nil, by simp [preorder], .nil⟩

theorem weaken {lo' hi' : Nat} (h : f.Sown t t' text lo hi) (hlo : lo' ≤ lo) (hhi : hi ≤ hi') :
    f.Sown t t' text lo' hi' :=
  { h with planted := h.planted.weaken hlo hhi }

/-- One forest after another that was added later. -/
theorem append {mid mid' : Nat} (hf : f.Sown t t' text lo mid) (hg : g.Sown t' t'' text mid' hi)
    (h : t.Extends t') (h' : t'.Extends t'') (hlo : lo ≤ mid') (hmid : mid ≤ mid') (hhi : mid ≤ hi) :
    (f ++ g).Sown t t'' text lo hi where
  nodup := by
    rw [preorder_append]
    refine hf.nodup.append hg.nodup fun i hi hi' => ?_
    exact absurd (hf.planted.lt_size i hi) (not_lt.mpr (hg.fresh i hi'))
  fresh i hi := by
    rw [preorder_append] at hi
    rcases List.mem_append.mp hi with hi | hi
    · exact hf.fresh i hi
    · exact h.size_le.trans (hg.fresh i hi)
  planted := by
    have hkept := hf.planted.congr fun i hi => h'.keepsAt (hf.planted.lt_size i hi)
    exact hkept.append hg.planted hlo hmid hhi

/-- A new node above a forest. -/
theorem alloc {node : Node} {span : Span} (hf : f.Sown t t' text span.start span.stop)
    (h : t.Extends t') (hchildren : node.children = f.roots) (hids : node.ids ⊆ f.preorder)
    (hon : span.On text) :
    (Forest.node t'.size f .nil).Sown t (t'.alloc node (some span)).2 text span.start span.stop where
  nodup := by
    simp only [preorder, List.append_nil, List.nodup_cons]
    exact ⟨fun hi => (hf.planted.lt_size _ hi).false, hf.nodup⟩
  fresh i hi := by
    simp only [preorder, List.append_nil, List.mem_cons] at hi
    rcases hi with rfl | hi
    · exact h.size_le
    · exact hf.fresh i hi
  planted := by
    have hentry : Tree.entry? (t'.alloc node (some span)).2 t'.size =
        some { node, range := some span } := by
      rw [Tree.entry?_alloc, if_pos rfl]
    refine .node hentry hchildren hids rfl hon le_rfl le_rfl ?_ .nil
    refine hf.planted.congr fun i hi => Tree.keepsAt_of_eq ?_
    rw [Tree.entry?_alloc, if_neg (hf.planted.lt_size i hi).ne]

end Sown
end Forest
end ScriptLint
