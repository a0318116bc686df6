import ScriptLint.Proofs.Tree.Link
import ScriptLint.Proofs.Tree.Renumber

namespace ScriptLint

/-- The node without the spelling of a literal. -/
def Node.unspelled : Node → Node
  | .literal value _ => .literal value ""
  | node => node

theorem Node.children_unspelled (node : Node) : node.unspelled.children = node.children := by
  cases node <;> rfl

theorem Node.Twin.unspelled {node node' : Node} {verbatim : Bool}
    (h : node.Twin verbatim id node') : node'.unspelled = node.unspelled := by
  rcases h with rfl | ⟨-, value, raw, raw', rfl, rfl⟩
  · rw [Node.renumber_id]
  · rfl

/-- The entry without its range and the spelling of a literal. -/
def Entry.outline (e : Entry) : Entry := { e with node := e.node.unspelled, range := none }

namespace Tree

variable {t t' : Tree}

/-- The tree without ranges and the spelling of literals. -/
def outline (t : Tree) : Tree := { t with entries := t.entries.map Entry.outline }

@[simp] theorem entry?_outline (t : Tree) (i : NodeId) :
    t.outline.entry? i = (t.entry? i).map Entry.outline := by
  simp [outline, entry?]

theorem children_outline (t : Tree) (i : NodeId) : t.outline.children i = t.children i := by
  simp only [children, node, entry?_outline]
  cases t.entry? i with
  | none => rfl
  | some e => exact e.node.children_unspelled

theorem outline_setParent (t : Tree) (id : NodeId) (parent : Option NodeId) :
    (t.setParent id parent).outline = t.outline.setParent id parent := by
  have hentries : (t.setParent id parent).outline.entries = (t.outline.setParent id parent).entries := by
    refine Array.ext_getElem? fun i => ?_
    simp only [outline, setParent, modify, Array.getElem?_map, Array.getElem?_modify]
    split <;> cases t.entries[i]? <;> rfl
  exact congrArg (fun entries => ({ entries, root := t.root } : Tree)) hentries

theorem adopt_outline (root id : NodeId) (t : Tree) (cs : List NodeId) :
    adopt root id t.outline cs = ((adopt root id t cs).1.outline, (adopt root id t cs).2) := by
  induction cs generalizing t with
  | nil => rfl
  | cons c cs ih =>
    cases he : t.entry? c with
    | none =>
      simp only [adopt, entry?_outline, he, Option.map_none]
      exact ih t
    | some e =>
      have hparent : e.outline.parent = e.parent := rfl
      simp only [adopt, entry?_outline, he, Option.map_some, hparent]
      split
      · rw [← outline_setParent, ih]
      · exact ih t

theorem linkFrom_outline (root : NodeId) (fuel : Nat) (stack : List NodeId) (t : Tree) :
    linkFrom root fuel stack t.outline = (linkFrom root fuel stack t).outline := by
  induction fuel generalizing stack t with
  | zero => rfl
  | succ fuel ih =>
    cases stack with
    | nil => rfl
    | cons id stack =>
      simp only [linkFrom, children_outline, adopt_outline]
      exact ih _ _

/-- Linking works on the tree without its parents. -/
theorem linkParents_eq (t : Tree) :
    t.linkParents = match t.root with
      | none => t.unlinked
      | some root => linkFrom root (t.size + 1) [root] t.unlinked := by
  have hsize : t.unlinked.size = t.size := (relinked_unlinked t).size
  unfold linkParents
  cases hroot : t.root with
  | none => simp [unlinked, hroot]
  | some root =>
    rw [← hsize]
    simp [unlinked, hroot]

/-- Trees of one outline are linked alike. -/
theorem outline_linkParents_congr (hroot : t'.root = t.root) (hsize : t'.size = t.size)
    (h : t'.unlinked.outline = t.unlinked.outline) :
    t'.linkParents.outline = t.linkParents.outline := by
  rw [linkParents_eq, linkParents_eq, hroot, hsize]
  cases t.root with
  | none => exact h
  | some root => simp only [← linkFrom_outline, h]

/-- Twins under the same identifiers have the same outline before their parents are linked. -/
theorem Twin.outline_unlinked {verbatim : Bool} (h : Tree.Twin verbatim 0 t t')
    (hroot : t'.root = t.root) : t'.unlinked.outline = t.unlinked.outline := by
  have hsame : (fun id : NodeId => 0 + id) = id := funext Nat.zero_add
  have hsize : t'.size = t.size := h.size.trans (Nat.zero_add _)
  have hentry : ∀ i, t'.unlinked.outline.entry? i = t.unlinked.outline.entry? i := by
    intro i
    have hnode := h.node i
    rw [hsame, Nat.zero_add] at hnode
    simp only [entry?_outline, entry?_unlinked]
    cases he : t.entry? i with
    | none =>
      rw [entry?_eq_none_iff, ← hsize, ← entry?_eq_none_iff] at he
      rw [he]
    | some e =>
      have hlt := lt_size_of_entry he
      obtain ⟨e', he'⟩ : ∃ e', t'.entry? i = some e' :=
        ⟨_, Array.getElem?_eq_getElem (hlt.trans_eq hsize.symm)⟩
      rw [node_of_entry he, node_of_entry he'] at hnode
      simp [he', Entry.outline, hnode.unspelled]
  have hentries : t'.unlinked.outline.entries = t.unlinked.outline.entries :=
    Array.ext_getElem? hentry
  calc t'.unlinked.outline = ⟨t'.unlinked.outline.entries, t'.root⟩ := rfl
    _ = ⟨t.unlinked.outline.entries, t.root⟩ := by rw [hentries, hroot]
    _ = t.unlinked.outline := rfl

theorem Twin.outline_linkParents {verbatim : Bool} (h : Tree.Twin verbatim 0 t t')
    (hroot : t'.root = t.root) : t'.linkParents.outline = t.linkParents.outline :=
  outline_linkParents_congr hroot (h.size.trans (Nat.zero_add _)) (h.outline_unlinked hroot)

end Tree
end ScriptLint
