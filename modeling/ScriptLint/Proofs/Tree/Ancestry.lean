import ScriptLint.Proofs.Tree.Link

namespace ScriptLint
namespace Tree

variable {t t₀ : Tree} {root id : NodeId} {rank : NodeId → Nat}

/-- Links were made in the order of the ranks, the latest one with as many nodes linked as its rank
says. -/
structure Ranked (t : Tree) (root : NodeId) (rank : NodeId → Nat) : Prop where
  seen : ∀ i p, t.parent i = some p → t.Seen root p
  lt : ∀ i p, t.parent i = some p → rank p < rank i
  le : ∀ i, rank i + t.orphans ≤ t.size

theorem ranked_unlinked (t : Tree) (root : NodeId) : t.unlinked.Ranked root fun _ => 0 where
  seen i p hp := by simp [parent_unlinked] at hp
  lt i p hp := by simp [parent_unlinked] at hp
  le _ := by
    rw [Nat.zero_add]
    exact orphans_le_size _

/-- A node that is linked now comes after all that were linked before. -/
theorem Ranked.setParent (h : t.Ranked root rank) (hid : t.Seen root id) {c : NodeId}
    (hlt : c < t.size) (hparent : t.parent c = none) (hne : c ≠ root) :
    (t.setParent c (some id)).Ranked root
      (Function.update rank c (t.size - (t.setParent c (some id)).orphans)) := by
  have hunseen : ∀ p, t.Seen root p → p ≠ c := by
    rintro p hp rfl
    rcases hp with heq | hsome
    · exact hne heq
    · simp [hparent] at hsome
  have hfewer := orphans_setParent (p := id) hlt hparent
  have hsize : (t.setParent c (some id)).size = t.size := (relinked_setParent t c _).size
  have hold : ∀ p, t.Seen root p →
      Function.update rank c (t.size - (t.setParent c (some id)).orphans) p = rank p :=
    fun p hp => Function.update_of_ne (hunseen p hp) _ _
  have hlink : ∀ i p, (t.setParent c (some id)).parent i = some p →
      i = c ∧ p = id ∨ i ≠ c ∧ t.parent i = some p := by
    intro i p hp
    rw [parent_setParent] at hp
    split at hp
    · next heq => exact .inl ⟨heq.1.symm, (Option.some.inj hp).symm⟩
    · next heq => exact .inr ⟨fun hi => heq ⟨hi.symm, hi ▸ hlt⟩, hp⟩
  refine ⟨fun i p hp => (seen_setParent_iff hlt).mpr (.inl ?_), fun i p hp => ?_, fun i => ?_⟩
  · rcases hlink i p hp with ⟨-, rfl⟩ | ⟨-, hp⟩
    · exact hid
    · exact h.seen i p hp
  · rcases hlink i p hp with ⟨rfl, rfl⟩ | ⟨hi, hp⟩
    · have hle := h.le p
      rw [hold p hid, Function.update_self]
      omega
    · rw [hold p (h.seen i p hp), Function.update_of_ne hi]
      exact h.lt i p hp
  · have hle := h.le i
    rw [hsize]
    by_cases hi : i = c
    · rw [hi, Function.update_self]
      omega
    · rw [Function.update_of_ne hi]
      omega

theorem exists_ranked_adopt (h : ∃ rank, t.Ranked root rank) (hid : t.Seen root id)
    (cs : List NodeId) : ∃ rank, (adopt root id t cs).1.Ranked root rank := by
  induction cs generalizing t with
  | nil => exact h
  | cons c cs ih =>
    obtain ⟨rank, hrank⟩ := h
    unfold adopt
    split
    · next e he =>
      have hparent : t.parent c = e.parent := by simp [Tree.parent, he]
      split
      · next hfree =>
        rw [Option.isNone_iff_eq_none, ← hparent] at hfree
        have hlt := lt_size_of_entry he
        exact ih ⟨_, hrank.setParent hid hlt hfree.1 hfree.2⟩ ((seen_setParent_iff hlt).mpr (.inl hid))
      · exact ih ⟨rank, hrank⟩ hid
    · exact ih ⟨rank, hrank⟩ hid

theorem exists_ranked_linkFrom (fuel : Nat) (stack : List NodeId) (hlinked : Linked t₀ root t)
    (h : ∃ rank, t.Ranked root rank) (hstack : ∀ i ∈ stack, t.Seen root i) :
    ∃ rank, (linkFrom root fuel stack t).Ranked root rank := by
  induction fuel generalizing stack t with
  | zero => exact h
  | succ fuel ih =>
    cases stack with
    | nil => exact h
    | cons id stack =>
      have hid := hstack id List.mem_cons_self
      have hadopts := adopts_adopt hlinked (hlinked.reaches hid) (t.children id) fun c hc => by
        rwa [hlinked.same.children] at hc
      unfold linkFrom
      refine ih _ hadopts.linked (exists_ranked_adopt h hid _) fun i hi => ?_
      rcases List.mem_append.mp hi with hi | hi
      · exact hadopts.gained i (List.mem_reverse.mp hi)
      · exact hadopts.seen i (hstack i (List.mem_cons_of_mem _ hi))

theorem exists_ranked_linkParents (hroot : t.root = some root) :
    ∃ rank, t.linkParents.Ranked root rank := by
  have hlinked : Linked t root t.unlinked :=
    ⟨relinked_unlinked t, parent_unlinked t root, fun i p hp => by simp [parent_unlinked] at hp⟩
  have heq : t.linkParents = linkFrom root (t.unlinked.size + 1) [root] t.unlinked := by
    unfold linkParents unlinked
    simp only [hroot]
  rw [heq]
  exact exists_ranked_linkFrom _ _ hlinked ⟨_, ranked_unlinked t root⟩
    fun i hi => .inl (List.mem_singleton.mp hi)

/-- A chain of parent links from a node that goes on until there is none. -/
structure Lineage (t : Tree) (i : NodeId) (above : List NodeId) : Prop where
  linked : (i :: above).IsChain fun i p => t.parent i = some p
  ends : t.parent ((i :: above).getLast (List.cons_ne_nil i above)) = none

theorem lineage_nil {i : NodeId} (h : t.parent i = none) : t.Lineage i [] := ⟨.singleton i, h⟩

theorem Lineage.cons {i p : NodeId} {above : List NodeId} (h : t.Lineage p above)
    (hp : t.parent i = some p) : t.Lineage i (p :: above) := by
  refine ⟨.cons_cons hp h.linked, ?_⟩
  rw [List.getLast_cons (List.cons_ne_nil p above)]
  exact h.ends

theorem Lineage.tail {i p : NodeId} {above : List NodeId} (h : t.Lineage i (p :: above)) :
    t.parent i = some p ∧ t.Lineage p above := by
  obtain ⟨hp, hlinked⟩ := List.isChain_cons_cons.mp h.linked
  have hends := h.ends
  rw [List.getLast_cons (List.cons_ne_nil p above)] at hends
  exact ⟨hp, hlinked, hends⟩

/-- There is one way up from a node. -/
theorem Lineage.unique {i : NodeId} {above above' : List NodeId} (h : t.Lineage i above)
    (h' : t.Lineage i above') : above = above' := by
  induction above generalizing i above' with
  | nil =>
    have hnone : t.parent i = none := h.ends
    cases above' with
    | nil => rfl
    | cons p _ => cases hnone.symm.trans h'.tail.1
  | cons p above ih =>
    cases above' with
    | nil =>
      have hnone : t.parent i = none := h'.ends
      cases hnone.symm.trans h.tail.1
    | cons p' above' =>
      obtain rfl : p = p' := Option.some.inj (h.tail.1.symm.trans h'.tail.1)
      rw [ih h.tail.2 h'.tail.2]

/-- Links that decrease the rank of a node are followed to their end. -/
theorem lineage_ancestorsUpTo (hlt : ∀ i p, t.parent i = some p → rank p < rank i) (fuel : Nat)
    (i : NodeId) (hfuel : rank i ≤ fuel) : t.Lineage i (t.ancestorsUpTo fuel i) := by
  induction fuel generalizing i with
  | zero =>
    refine lineage_nil ?_
    cases hp : t.parent i with
    | none => rfl
    | some p => exact absurd (hlt i p hp) (by omega)
  | succ fuel ih =>
    unfold ancestorsUpTo
    split
    · next hp => exact lineage_nil hp
    · next p hp =>
      have hless := hlt i p hp
      exact (ih p (by omega)).cons hp

theorem Ranked.lineage_ancestors (h : t.Ranked root rank) (i : NodeId) :
    t.Lineage i (t.ancestors i) := by
  have hle := h.le i
  exact lineage_ancestorsUpTo h.lt t.size i (by omega)

/-- From a node that was seen the links end at the root. -/
theorem Ranked.getLast_lineage (h : t.Ranked root rank) {i : NodeId} {above : List NodeId}
    (hi : t.Seen root i) (hlineage : t.Lineage i above) :
    (i :: above).getLast (List.cons_ne_nil i above) = root := by
  obtain ⟨hlinked, hends⟩ := hlineage
  induction above generalizing i with
  | nil =>
    rcases hi with heq | hsome
    · exact heq
    · rw [List.getLast_singleton] at hends
      rw [hends] at hsome
      cases hsome
  | cons p above ih =>
    obtain ⟨hp, hlinked⟩ := List.isChain_cons_cons.mp hlinked
    rw [List.getLast_cons (List.cons_ne_nil p above)] at hends ⊢
    exact ih (h.seen i p hp) hlinked hends

end Tree
end ScriptLint
