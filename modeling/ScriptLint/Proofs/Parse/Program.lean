import ScriptLint.Proofs.Parse.Module
import ScriptLint.Proofs.Tree.Walk

namespace ScriptLint
namespace Parse

variable {g : Grammar} {b s : State} {m : Bool}

theorem errors_advance (s : State) : s.advance.errors = s.errors := (Frame.advance s).errors

theorem errors_syncFrom (fuel : Nat) (s : State) : (syncFrom fuel s).errors = s.errors := by
  induction fuel generalizing s with
  | zero => rfl
  | succ fuel ih =>
    unfold syncFrom
    split_ifs with heof hsemicolon hbrace hstart
    · rfl
    · exact errors_advance s
    · rfl
    · rfl
    · rw [ih, errors_advance]

theorem errors_sync (s : State) : (sync s).errors = s.errors := by
  unfold sync
  split_ifs
  · rfl
  · exact errors_advance s
  · rw [errors_syncFrom, errors_advance]

/-- Errors are collected and never dropped. -/
theorem errors_le_statements (hg : g.Sound) (fuel : Nat) (body : List NodeId) (s : State) :
    s.errors.size ≤ (statements g fuel body s).2.errors.size := by
  induction fuel generalizing body s with
  | zero => exact le_rfl
  | succ fuel ih =>
    have hstatement := grows_statement hg s
    unfold statements
    unfold Leads at hstatement
    split_ifs
    · exact le_rfl
    · split at hstatement
      · next id s' heq =>
        rw [heq, ← hstatement.frame.errors]
        exact ih (id :: body) s'
      · next e s' heq =>
        rw [heq, ← hstatement.errors]
        calc s'.errors.size ≤ (s'.errors.push e).size := by simp
          _ = (sync { s' with errors := s'.errors.push e }).errors.size := by rw [errors_sync]
          _ ≤ _ := ih body _

/-- Statements without an error make their nodes one after the other. -/
theorem grown_statements (hg : g.Sound) (fuel : Nat) (body : List NodeId)
    (h : Grown b s m body.reverse) (herrors : (statements g fuel body s).2.errors = #[]) :
    Grown b (statements g fuel body s).2 false (statements g fuel body s).1 := by
  induction fuel generalizing body s m with
  | zero => exact h.done rfl
  | succ fuel ih =>
    have hstatement := grows_statement hg s
    unfold statements at herrors ⊢
    unfold Leads at hstatement
    split_ifs at herrors ⊢ with heof
    · exact h.done rfl
    · split at hstatement
      · next id s' heq =>
        rw [heq] at herrors ⊢
        exact ih (id :: body) ((h.append hstatement).done (by simp)) herrors
      · next e s' heq =>
        rw [heq] at herrors
        have hle := errors_le_statements hg fuel body (sync { s' with errors := s'.errors.push e })
        simp only [errors_sync, Array.size_push, herrors] at hle
        simp at hle

/-- The whole of a text is a span of it. -/
theorem on_whole (source : List Char) : Span.On ⟨0, byteLength source, 1, 1⟩ source := by
  refine ⟨[], source, List.nil_prefix, List.prefix_refl _, ?_⟩
  simp [Span.between, Position.origin]

/-- The tree of a program without errors, before its parents are linked, is one finite tree. -/
theorem exists_forest_of_program (hs : s.Ready)
    (hpassed : ∀ s', Frame s s' → s'.passed ≤ byteLength s.source) {t : Tree}
    (h : program s = .ok t) :
    ∃ (t₀ : Tree) (root : NodeId) (kids : Forest), t = t₀.linkParents ∧ t₀.root = some root ∧
      (Forest.node root kids .nil).preorder.Nodup ∧
      (Forest.node root kids .nil).Planted t₀ s.source 0 (byteLength s.source) := by
  have hg := Grammar.sound_upTo (maxDepth + s.weight + 2)
  simp only [program] at h
  split_ifs at h with herrors
  cases h
  have hgrown := grown_statements hg (s.tokens.size + 1) [] (Growth.refl s)
    (Array.isEmpty_iff.mp herrors)
  generalize statements (Grammar.upTo (maxDepth + s.weight + 2)) (s.tokens.size + 1) [] s = run at *
  obtain ⟨body, s'⟩ := run
  simp only at hgrown ⊢
  obtain ⟨f, hroots, -, hf⟩ := hgrown.sown hs
  have hf : f.Sown s.tree s'.tree s.source 0 (byteLength s.source) :=
    hf.weaken (Nat.zero_le _) (hpassed s' hgrown.frame)
  rw [hgrown.frame.source]
  have hids : (Node.program body).ids ⊆ f.preorder := by
    simpa [Node.ids, Node.fields, ← hroots] using f.roots_subset_preorder
  have hchildren : (Node.program body).children = f.roots := hroots.symm
  have hroot := hf.alloc hgrown.frame.tree hchildren hids (on_whole s.source)
  refine ⟨_, s'.tree.size, f, rfl, rfl, hroot.nodup, ?_⟩
  exact hroot.planted.congr fun i _ => Tree.keepsAt_of_eq rfl

/-- The tree of a text that parses is that of the program that its tokens spell. -/
theorem exists_program_of_parse {source : List Char} {t : Tree} (h : parse source = .ok t) :
    ∃ tokens : List SpannedToken, tokenize source = .ok tokens ∧
      program { source, tokens := tokens.toArray } = .ok t := by
  unfold parse at h
  split at h
  · cases h
  · next s hstart =>
    split at h
    · cases h
    · next tree hprogram =>
      cases h
      unfold Parse.start at hstart
      cases htokens : tokenize source with
      | error errors => simp [htokens, bind, Except.bind] at hstart
      | ok tokens =>
        simp only [htokens, bind, Except.bind, pure, Except.pure, Except.ok.injEq] at hstart
        subst hstart
        exact ⟨tokens, rfl, hprogram⟩

/-- The tree of a text that parses, before its parents are linked, is one finite tree. -/
theorem exists_forest_of_parse {source : List Char} {t : Tree} (h : parse source = .ok t) :
    ∃ (t₀ : Tree) (root : NodeId) (kids : Forest), t = t₀.linkParents ∧ t₀.root = some root ∧
      (Forest.node root kids .nil).preorder.Nodup ∧
      (Forest.node root kids .nil).Planted t₀ source 0 (byteLength source) := by
  obtain ⟨tokens, htokens, hprogram⟩ := exists_program_of_parse h
  have hplaced := tokenize_placed htokens
  exact exists_forest_of_program (State.ready_of_placed hplaced rfl rfl)
    (fun s' hframe => hframe.passed_le_of_placed hplaced rfl rfl) hprogram

end Parse
end ScriptLint
