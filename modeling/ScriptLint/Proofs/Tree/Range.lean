import ScriptLint.Proofs.Tree.Walk

namespace ScriptLint
namespace Tree

/-- A node has a range on the text, around the ranges of its children, which stand in order. -/
structure RangedAt (t : Tree) (text : List Char) (i : NodeId) (r : Span) : Prop where
  range : t.range i = some r
  start_le_stop : r.start ≤ r.stop
  stop_le : r.stop ≤ byteLength text
  start_boundary : (position? text r.start).isSome
  stop_boundary : (position? text r.stop).isSome
  nested : ∀ c ∈ t.children i, ∃ q, t.range c = some q ∧ r.start ≤ q.start ∧ q.stop ≤ r.stop
  ordered : (t.children i).IsChain fun c d =>
    ∃ q q', t.range c = some q ∧ t.range d = some q' ∧ q.stop ≤ q'.start

/-- The ranges of all nodes are in place. -/
def Ranged (t : Tree) (text : List Char) : Prop := ∀ i, t.Reachable i → ∃ r, t.RangedAt text i r

variable {t : Tree} {root i j p : NodeId} {kids : Forest} {text : List Char} {lo hi : Nat}

/-- The nodes of a forest that a tree holds have their ranges in place. -/
theorem rangedAt_of_planted {f : Forest} (hplanted : f.Planted t text lo hi) {i : NodeId}
    (hi : i ∈ f.preorder) : ∃ r, t.RangedAt text i r := by
  obtain ⟨lo', hi', kids', hsub⟩ := hplanted.subtree hi
  cases hsub with
  | @node _ _ _ _ _ e r hentry hchildren _ hrange hon _ _ hkids _ =>
    have hroots : t.children i = kids'.roots := (children_of_entry hentry).trans hchildren
    refine ⟨r, (range_of_entry hentry).trans hrange, hon.start_le_stop, hon.stop_le, ?_,
      hon.position_stop_isSome, fun c hc => ?_, ?_⟩
    · rw [hon.position_start]
      rfl
    · rw [hroots] at hc
      exact hkids.range_of_mem_roots hc
    · rw [hroots]
      exact hkids.isChain_roots

/-- The ranges are in place in a tree that holds one finite tree, also with its parents linked. -/
theorem ranged_linkParents (hroot : t.root = some root)
    (hplanted : (Forest.node root kids .nil).Planted t text lo hi) :
    t.linkParents.Ranged text := by
  intro i hi
  have hsame := relinked_linkParents hroot
  rw [hsame.reachable] at hi
  obtain ⟨root', hroot', hreaches⟩ := hi
  cases hroot.symm.trans hroot'
  obtain ⟨r, hr⟩ := rangedAt_of_planted hplanted (hplanted.follows.mem_preorder_iff.mpr hreaches)
  refine ⟨r, ?_, hr.start_le_stop, hr.stop_le, hr.start_boundary, hr.stop_boundary, ?_, ?_⟩
  · rw [hsame.range, hr.range]
  · simpa only [hsame.range, hsame.children] using hr.nested
  · simpa only [hsame.range, hsame.children] using hr.ordered

theorem Reachable.trans (hi : t.Reachable i) (hij : t.Reaches i j) : t.Reachable j := by
  obtain ⟨root, hroot, hreaches⟩ := hi
  exact ⟨root, hroot, Relation.ReflTransGen.trans hreaches hij⟩

theorem Reachable.child (hi : t.Reachable i) (hj : j ∈ t.children i) : t.Reachable j :=
  hi.trans (.single hj)

/-- The range of one node ends before that of another one begins. -/
def Precedes (t : Tree) (i j : NodeId) : Prop :=
  ∃ r q, t.range i = some r ∧ t.range j = some q ∧ r.start ≤ r.stop ∧ r.stop ≤ q.start

theorem Precedes.trans {k : NodeId} (h : t.Precedes i j) (h' : t.Precedes j k) :
    t.Precedes i k := by
  obtain ⟨r, q, hr, hq, hle, hbefore⟩ := h
  obtain ⟨q', s, hq', hs, hle', hbefore'⟩ := h'
  cases hq.symm.trans hq'
  exact ⟨r, s, hr, hs, hle, hbefore.trans (hle'.trans hbefore')⟩

namespace Ranged

/-- A node below another lies inside of it. -/
theorem inside (h : t.Ranged text) (hi : t.Reachable i) (hij : t.Reaches i j) {r : Span}
    (hr : t.range i = some r) : ∃ q, t.range j = some q ∧ r.start ≤ q.start ∧ q.stop ≤ r.stop := by
  induction hij with
  | refl => exact ⟨r, hr, le_rfl, le_rfl⟩
  | @tail j k hij hk ih =>
    obtain ⟨q, hq, hstart, hstop⟩ := ih
    obtain ⟨q', hat⟩ := h j (hi.trans hij)
    cases hq.symm.trans hat.range
    obtain ⟨s, hs, hstart', hstop'⟩ := hat.nested k hk
    exact ⟨s, hs, hstart.trans hstart', hstop'.trans hstop⟩

/-- Of the children of a node each one precedes all that come after it. -/
theorem pairwise (h : t.Ranged text) (hp : t.Reachable p) :
    (t.children p).Pairwise t.Precedes := by
  obtain ⟨r, hat⟩ := h p hp
  have : Trans t.Precedes t.Precedes t.Precedes := ⟨Precedes.trans⟩
  refine List.IsChain.pairwise (hat.ordered.imp_of_mem_imp fun c d hc _ hcd => ?_)
  obtain ⟨q, q', hq, hq', hle⟩ := hcd
  obtain ⟨q₀, hatc⟩ := h c (hp.child hc)
  cases hq.symm.trans hatc.range
  exact ⟨q, q', hq, hq', hatc.start_le_stop, hle⟩

end Ranged

/-- A stretch of the text inside a node of which it cuts no child in two. -/
structure Uncut (t : Tree) (start stop : Nat) (p : NodeId) : Prop where
  reachable : t.Reachable p
  around : ∃ r, t.range p = some r ∧ r.start ≤ start ∧ stop ≤ r.stop
  children : ∀ c ∈ t.children p, ∀ q, t.range c = some q →
    q.stop ≤ start ∨ stop ≤ q.start ∨ (start ≤ q.start ∧ q.stop ≤ stop)

end Tree
end ScriptLint
