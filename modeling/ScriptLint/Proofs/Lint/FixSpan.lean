import ScriptLint.Lint.Registry
import ScriptLint.Proofs.Parse.Integrity
import ScriptLint.Proofs.Source.Slice

namespace ScriptLint

/-- What is known of the tree of a text that parses. -/
structure Document.Sound (d : Document) : Prop where
  ranged : d.tree.Ranged d.source
  /-- A parent link leads to a node that holds the child. -/
  parent : ∀ i p, d.tree.Reachable i → d.tree.parent i = some p →
    d.tree.Reachable p ∧ i ∈ d.tree.children p
  mem_preorder : ∀ i, i ∈ d.tree.preorder ↔ d.tree.Reachable i

theorem Document.sound_of_parse {source : List Char} {t : Tree} (h : parse source = .ok t)
    (path : String) : Document.Sound { path, source, tree := t } := by
  obtain ⟨root, -, hintact⟩ := Tree.exists_root_of_parse h
  refine ⟨Tree.ranged_of_parse h, fun i p hi hp => ?_, hintact.mem_preorder⟩
  by_cases hne : i = root
  · rw [hne, hintact.root_parent] at hp
    cases hp
  · obtain ⟨q, hq, hcount, -, hparent⟩ := hintact.parent i hi hne
    cases hp.symm.trans hparent
    exact ⟨hq, List.count_pos_iff.mp (hcount ▸ Nat.one_pos)⟩

/-- The span of a fix is a stretch of the text that cuts no node in two. -/
def Fix.Fits (f : Fix) (d : Document) : Prop :=
  (slice? d.source f.span.start f.span.stop).isSome ∧ ∃ p, d.tree.Uncut f.span.start f.span.stop p

variable {d : Document} {id : NodeId} {replacement : List Char} {f : Fix}

namespace Tree

variable {t : Tree}

theorem children_of_block? {body : List NodeId} (h : t.block? id = some body) :
    t.children id = body := by
  unfold block? at h
  split at h
  · next hnode =>
    cases h
    rw [children, hnode]
    rfl
  · cases h

/-- The statements of a function are below it. -/
theorem reaches_of_bodyBlock? {body : List NodeId} (h : t.bodyBlock? id = some body) {i : NodeId}
    (hi : i ∈ body) : t.Reaches id i := by
  have hblock : ∀ {b : NodeId}, b ∈ t.children id → t.block? b = some body → t.Reaches id i := by
    intro b hb hbody
    rw [← children_of_block? hbody] at hi
    exact .head hb (.single hi)
  unfold bodyBlock? at h
  split at h
  all_goals first
    | cases h
    | next hnode =>
      refine hblock ?_ h
      rw [children, hnode]
      simp [Node.children]

theorem reaches_of_nestedIf? {found : NodeId} {branch : Branch}
    (h : t.nestedIf? id = some (found, branch)) : t.Reaches id found := by
  unfold nestedIf? at h
  obtain ⟨body, hbody, h⟩ := Option.bind_eq_some_iff.mp h
  obtain ⟨found', hfound, h⟩ := Option.bind_eq_some_iff.mp h
  obtain ⟨-, -, h⟩ := Option.bind_eq_some_iff.mp h
  obtain ⟨branch', -, h⟩ := Option.bind_eq_some_iff.mp h
  cases h
  exact reaches_of_bodyBlock? hbody (List.mem_of_find?_eq_some hfound)

end Tree

namespace Rules

open Document

end Rules
end ScriptLint
