import ScriptLint.Proofs.Tree.Extend
import Mathlib.Data.Finset.Card
import Mathlib.Logic.Relation

namespace ScriptLint
namespace Tree

/-- A node is found below another, or is that node. -/
def Reaches (t : Tree) : NodeId → NodeId → Prop :=
  Relation.ReflTransGen fun i j => j ∈ t.children i

/-- A node is found below the root. -/
def Reachable (t : Tree) (i : NodeId) : Prop := ∃ root, t.root = some root ∧ t.Reaches root i

/-- Two trees that differ in their parent links only. -/
structure Relinked (t t' : Tree) : Prop where
  root : t'.root = t.root
  size : t'.size = t.size
  node : ∀ i, t'.node i = t.node i
  range : ∀ i, t'.range i = t.range i

variable {t t' t'' t₀ : Tree} {root id : NodeId}

namespace Relinked

theorem trans (h : Relinked t t') (h' : Relinked t' t'') : Relinked t t'' :=
  ⟨h'.root.trans h.root, h'.size.trans h.size, fun i => (h'.node i).trans (h.node i),
    fun i => (h'.range i).trans (h.range i)⟩

theorem children (h : Relinked t t') (i : NodeId) : t'.children i = t.children i := by
  rw [Tree.children, Tree.children, h.node]

theorem reaches (h : Relinked t t') : t'.Reaches = t.Reaches := by
  unfold Reaches
  simp only [h.children]

theorem reachable (h : Relinked t t') : t'.Reachable = t.Reachable := by
  unfold Reachable
  rw [h.root, h.reaches]

end Relinked

theorem relinked_setParent (t : Tree) (id : NodeId) (parent : Option NodeId) :
    Relinked t (t.setParent id parent) := by
  refine ⟨rfl, size_modify _ _ _, fun i => ?_, fun i => ?_⟩
  · simp only [setParent, Tree.node, entry?_modify]
    split <;> cases t.entry? i <;> rfl
  · simp only [setParent, Tree.range, entry?_modify]
    split <;> cases t.entry? i <;> rfl

theorem parent_setParent (t : Tree) (id i : NodeId) (parent : Option NodeId) :
    (t.setParent id parent).parent i = if id = i ∧ i < t.size then parent else t.parent i := by
  simp only [setParent, Tree.parent, entry?_modify]
  by_cases heq : id = i
  · cases he : t.entry? i with
    | none =>
      have hge : ¬i < t.size := not_lt.mpr (entry?_eq_none_iff.mp he)
      simp [heq, hge]
    | some e => simp [heq, lt_size_of_entry he]
  · simp [heq]

/-- The number of nodes without a parent. -/
def orphans (t : Tree) : Nat := ((Finset.range t.size).filter fun i => t.parent i = none).card

theorem orphans_le_size (t : Tree) : t.orphans ≤ t.size := by
  refine (Finset.card_filter_le _ _).trans ?_
  simp

theorem orphans_setParent {p : NodeId} (hlt : id < t.size) (hparent : t.parent id = none) :
    (t.setParent id (some p)).orphans + 1 ≤ t.orphans := by
  refine Finset.card_lt_card (Finset.ssubset_iff_of_subset ?_ |>.mpr ⟨id, ?_, ?_⟩)
  · intro i hi
    simp only [Finset.mem_filter, Finset.mem_range, parent_setParent] at hi ⊢
    refine ⟨hi.1.trans_eq (size_modify _ _ _), ?_⟩
    have hnone := hi.2
    split at hnone
    · simp at hnone
    · exact hnone
  · simp [hlt, hparent]
  · simp [parent_setParent, hlt]

/-- The root, or a node that has been given a parent. -/
def Seen (t : Tree) (root i : NodeId) : Prop := i = root ∨ (t.parent i).isSome

/-- Parents are links to reachable nodes that hold their children. -/
structure Linked (t₀ : Tree) (root : NodeId) (t : Tree) : Prop where
  same : Relinked t₀ t
  root_parent : t.parent root = none
  link : ∀ i p, t.parent i = some p → t₀.Reaches root p ∧ i ∈ t₀.children p

theorem Linked.reaches (h : Linked t₀ root t) {i : NodeId} (hi : t.Seen root i) :
    t₀.Reaches root i := by
  rcases hi with rfl | hi
  · exact .refl
  · obtain ⟨p, hp⟩ := Option.isSome_iff_exists.mp hi
    obtain ⟨hreaches, hmem⟩ := h.link i p hp
    exact hreaches.tail hmem

theorem Linked.setParent (h : Linked t₀ root t) (hid : t₀.Reaches root id) {c : NodeId}
    (hc : c ∈ t₀.children id) (hne : c ≠ root) : Linked t₀ root (t.setParent c (some id)) := by
  refine ⟨h.same.trans (relinked_setParent t c _), ?_, fun i p hp => ?_⟩
  · rw [parent_setParent, if_neg fun heq => hne heq.1, h.root_parent]
  · rw [parent_setParent] at hp
    split at hp
    · next heq =>
      cases hp
      rw [← heq.1]
      exact ⟨hid, hc⟩
    · exact h.link i p hp

theorem seen_setParent_iff {c i : NodeId} (hlt : c < t.size) :
    (t.setParent c (some id)).Seen root i ↔ t.Seen root i ∨ i = c := by
  unfold Seen
  rw [parent_setParent]
  by_cases hc : c = i
  · subst hc
    simp [hlt]
  · simp [hc, Ne.symm hc]

/-- What one node's children gain when they are adopted. -/
structure Adopts (t₀ : Tree) (root : NodeId) (t t' : Tree) (cs adopted : List NodeId) : Prop where
  linked : Linked t₀ root t'
  seen : ∀ i, t.Seen root i → t'.Seen root i
  new : ∀ i, t'.Seen root i → t.Seen root i ∨ i ∈ adopted
  gained : ∀ i ∈ adopted, t'.Seen root i
  all : ∀ c ∈ cs, c < t₀.size → t'.Seen root c
  fewer : t'.orphans + adopted.length ≤ t.orphans

namespace Adopts

variable {cs adopted : List NodeId} {c : NodeId}

/-- A child that was seen already, or that is no node at all, is passed over. -/
theorem skip (h : Adopts t₀ root t t' cs adopted) (hc : c < t₀.size → t.Seen root c) :
    Adopts t₀ root t t' (c :: cs) adopted := by
  refine ⟨h.linked, h.seen, h.new, h.gained, fun d hd hlt => ?_, h.fewer⟩
  rcases List.mem_cons.mp hd with rfl | hd
  · exact h.seen d (hc hlt)
  · exact h.all d hd hlt

/-- A child without a parent is taken. -/
theorem take (h : Adopts t₀ root (t.setParent c (some id)) t' cs adopted) (hlt : c < t.size)
    (hparent : t.parent c = none) : Adopts t₀ root t t' (c :: cs) (c :: adopted) := by
  have hseen : t'.Seen root c := h.seen c ((seen_setParent_iff hlt).mpr (.inr rfl))
  refine ⟨h.linked, fun i hi => h.seen i ((seen_setParent_iff hlt).mpr (.inl hi)), fun i hi => ?_,
    fun i hi => ?_, fun d hd hdlt => ?_, ?_⟩
  · rcases h.new i hi with hi | hi
    · rcases (seen_setParent_iff hlt).mp hi with hi | rfl
      · exact .inl hi
      · exact .inr List.mem_cons_self
    · exact .inr (List.mem_cons_of_mem _ hi)
  · rcases List.mem_cons.mp hi with rfl | hi
    · exact hseen
    · exact h.gained i hi
  · rcases List.mem_cons.mp hd with rfl | hd
    · exact hseen
    · exact h.all d hd hdlt
  · have hfewer := h.fewer
    have hone := orphans_setParent (p := id) hlt hparent
    simp only [List.length_cons]
    omega

end Adopts

theorem adopts_adopt (h : Linked t₀ root t) (hid : t₀.Reaches root id) (cs : List NodeId)
    (hcs : ∀ c ∈ cs, c ∈ t₀.children id) :
    Adopts t₀ root t (adopt root id t cs).1 cs (adopt root id t cs).2 := by
  induction cs generalizing t with
  | nil => exact ⟨h, fun _ hi => hi, fun _ hi => .inl hi, by simp [adopt], by simp, by simp [adopt]⟩
  | cons c cs ih =>
    have hrest : ∀ d ∈ cs, d ∈ t₀.children id := fun d hd => hcs d (List.mem_cons_of_mem _ hd)
    unfold adopt
    split
    · next e he =>
      have hparent : t.parent c = e.parent := by simp [Tree.parent, he]
      split
      · next hfree =>
        obtain ⟨hnone, hne⟩ := hfree
        rw [Option.isNone_iff_eq_none, ← hparent] at hnone
        have hlinked := h.setParent hid (hcs c List.mem_cons_self) hne
        exact (ih hlinked hrest).take (lt_size_of_entry he) hnone
      · next hfree =>
        refine (ih h hrest).skip fun _ => ?_
        by_cases hroot : c = root
        · exact .inl hroot
        · refine .inr ?_
          rw [hparent]
          cases hp : e.parent with
          | none => exact absurd ⟨by simp [hp], hroot⟩ hfree
          | some => rfl
    · next he =>
      refine (ih h hrest).skip fun hlt => ?_
      rw [← h.same.size] at hlt
      exact absurd hlt (not_lt.mpr (entry?_eq_none_iff.mp he))

/-- Every node that was seen waits on the stack, or its children were seen too. -/
def Settled (t₀ t : Tree) (root : NodeId) (stack : List NodeId) : Prop :=
  ∀ i, t.Seen root i → i ∈ stack ∨ ∀ c ∈ t₀.children i, c < t₀.size → t.Seen root c

/-- Linking goes on until nothing waits on the stack. -/
theorem linked_linkFrom (fuel : Nat) (stack : List NodeId) (h : Linked t₀ root t)
    (hstack : ∀ i ∈ stack, t.Seen root i) (hsettled : Settled t₀ t root stack)
    (hfuel : stack.length + t.orphans ≤ fuel) :
    Linked t₀ root (linkFrom root fuel stack t) ∧ Settled t₀ (linkFrom root fuel stack t) root [] := by
  induction fuel generalizing stack t with
  | zero =>
    obtain rfl : stack = [] := List.length_eq_zero_iff.mp (by omega)
    exact ⟨h, hsettled⟩
  | succ fuel ih =>
    cases stack with
    | nil => exact ⟨h, hsettled⟩
    | cons id stack =>
      have hid := h.reaches (hstack id List.mem_cons_self)
      have hadopts := adopts_adopt h hid (t.children id) fun c hc => by
        rwa [h.same.children] at hc
      unfold linkFrom
      refine ih _ hadopts.linked (fun i hi => ?_) (fun i hi => ?_) ?_
      · rcases List.mem_append.mp hi with hi | hi
        · exact hadopts.gained i (List.mem_reverse.mp hi)
        · exact hadopts.seen i (hstack i (List.mem_cons_of_mem _ hi))
      · rcases hadopts.new i hi with hold | hnew
        · rcases hsettled i hold with hwaiting | hdone
          · rcases List.mem_cons.mp hwaiting with rfl | hwaiting
            · refine .inr fun c hc hlt => hadopts.all c ?_ hlt
              rwa [h.same.children]
            · exact .inl (List.mem_append_right _ hwaiting)
          · exact .inr fun c hc hlt => hadopts.seen c (hdone c hc hlt)
        · exact .inl (List.mem_append_left _ (List.mem_reverse.mpr hnew))
      · have hfewer := hadopts.fewer
        simp only [List.length_append, List.length_reverse, List.length_cons] at hfuel ⊢
        omega

theorem Settled.seen (h : Settled t₀ t root []) {i : NodeId} (hreaches : t₀.Reaches root i)
    (hlt : i < t₀.size) : t.Seen root i := by
  induction hreaches with
  | refl => exact .inl rfl
  | @tail p i hp hmem ih =>
    have hpsize : p < t₀.size := by
      by_contra hge
      rw [children_eq_nil (not_lt.mp hge)] at hmem
      simp at hmem
    rcases h p (ih hpsize) with hwaiting | hdone
    · simp at hwaiting
    · exact hdone i hmem hlt

/-- The tree without parents. -/
def unlinked (t : Tree) : Tree :=
  { t with entries := t.entries.map fun (e : Entry) => { e with parent := none } }

theorem entry?_unlinked (t : Tree) (i : NodeId) :
    t.unlinked.entry? i = (t.entry? i).map fun e => { e with parent := none } := by
  simp [unlinked, entry?]

theorem relinked_unlinked (t : Tree) : Relinked t t.unlinked := by
  refine ⟨rfl, by simp [unlinked, size], fun i => ?_, fun i => ?_⟩
  · simp only [Tree.node, entry?_unlinked]
    cases t.entry? i <;> rfl
  · simp only [Tree.range, entry?_unlinked]
    cases t.entry? i <;> rfl

theorem parent_unlinked (t : Tree) (i : NodeId) : t.unlinked.parent i = none := by
  simp only [Tree.parent, entry?_unlinked]
  cases t.entry? i <;> rfl

theorem linkParents_of_root (hroot : t.root = some root) :
    Linked t root t.linkParents ∧ Settled t t.linkParents root [] := by
  have hlinked : Linked t root t.unlinked :=
    ⟨relinked_unlinked t, parent_unlinked t root, fun i p hp => by simp [parent_unlinked] at hp⟩
  have hseen : ∀ i, t.unlinked.Seen root i → i = root := by
    rintro i (hi | hi)
    · exact hi
    · simp [parent_unlinked] at hi
  have hfuel : [root].length + t.unlinked.orphans ≤ t.unlinked.size + 1 := by
    have hle := orphans_le_size t.unlinked
    simp only [List.length_singleton]
    omega
  have hrun := linked_linkFrom (t.unlinked.size + 1) [root] hlinked
    (fun i hi => .inl (List.mem_singleton.mp hi))
    (fun i hi => .inl (List.mem_singleton.mpr (hseen i hi))) hfuel
  have heq : t.linkParents = linkFrom root (t.unlinked.size + 1) [root] t.unlinked := by
    unfold linkParents unlinked
    simp only [hroot]
  rwa [heq]

/-- Linking changes nothing but parents. -/
theorem relinked_linkParents (hroot : t.root = some root) : Relinked t t.linkParents :=
  (linkParents_of_root hroot).1.same

/-- The root is never given a parent. -/
theorem parent_root_linkParents (hroot : t.root = some root) : t.linkParents.parent root = none :=
  (linkParents_of_root hroot).1.root_parent

/-- Every other node of the tree that the root reaches is given a parent that holds it. -/
theorem exists_parent_linkParents (hroot : t.root = some root) (hreaches : t.Reaches root id)
    (hlt : id < t.size) (hne : id ≠ root) :
    ∃ p, t.linkParents.parent id = some p ∧ t.Reaches root p ∧ id ∈ t.children p := by
  obtain ⟨hlinked, hsettled⟩ := linkParents_of_root hroot
  rcases hsettled.seen hreaches hlt with heq | hsome
  · exact absurd heq hne
  · obtain ⟨p, hp⟩ := Option.isSome_iff_exists.mp hsome
    exact ⟨p, hp, hlinked.link id p hp⟩

end Tree
end ScriptLint
