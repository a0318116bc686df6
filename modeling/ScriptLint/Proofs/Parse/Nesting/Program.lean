import ScriptLint.Proofs.Parse.Integrity
import ScriptLint.Proofs.Parse.Nesting.Statement
import ScriptLint.Proofs.Parse.Nesting.Tower

namespace ScriptLint
namespace Parse

variable {g : Grammar} {b s : State} {k : Nat}

/-- Statements without an error fit. -/
theorem fitted_statements (hsound : g.Sound) (hg : g.Ample) (fuel : Nat) (body : List NodeId)
    (h : Fitted b s 0 body.reverse []) (herrors : (statements g fuel body s).2.errors = #[]) :
    Fitted b (statements g fuel body s).2 0 (statements g fuel body s).1 [] := by
  induction fuel generalizing body s with
  | zero => exact h
  | succ fuel ih =>
    have hstatement := h.run (nests_statement hg)
    unfold statements at herrors ⊢
    unfold Leads at hstatement
    split_ifs at herrors ⊢ with heof
    · exact h
    · split at hstatement
      · next id s' heq =>
        rw [heq] at herrors ⊢
        exact ih (id :: body) (by simpa using hstatement) herrors
      · next e s' heq =>
        rw [heq] at herrors
        have hle := errors_le_statements hsound fuel body
          (sync { s' with errors := s'.errors.push e })
        simp only [errors_sync, Array.size_push, herrors] at hle
        simp at hle

/-- The tree of a program without errors fits into the room that there is where it begins. -/
theorem fits_of_program (hs : s.Steady) {t : Tree} (h : program s = .ok t) :
    ∃ root, t.root = some root ∧ t.Fits s.source false (s.room 0) root := by
  have hsound := Grammar.sound_upTo (maxDepth + s.weight + 2)
  have hg := Grammar.ample_upTo (maxDepth + s.weight + 2)
  simp only [program] at h
  split_ifs at h with herrors
  cases h
  have hfitted := fitted_statements hsound hg (s.tokens.size + 1) [] (.refl s)
    (Array.isEmpty_iff.mp herrors)
  generalize statements (Grammar.upTo (maxDepth + s.weight + 2)) (s.tokens.size + 1) [] s = run at *
  obtain ⟨body, s'⟩ := run
  simp only at hfitted ⊢
  have hroot : ((s'.tree.alloc (.program body) (some ⟨0, byteLength s'.source, 1, 1⟩)).2.withRoot
      s'.tree.size).root = some s'.tree.size := rfl
  have hrelinked := Tree.relinked_linkParents hroot
  have hmade := hfitted.alloc (.program body) ⟨0, byteLength s'.source, 1, 1⟩
    (fun _ => .plain (by simp [Node.Plain, Node.infix?, Node.applied?, Node.isQuoted])) (le_refl 0)
    (by simp +contextual [Node.children])
  have hfits := hmade.free_fits hs s'.tree.size List.mem_cons_self
  refine ⟨s'.tree.size, hrelinked.root.trans hroot, .eases ?_ hrelinked.eases⟩
  exact hfits.congr (P := fun _ => True) trivial (fun _ _ _ _ => trivial) fun _ _ _ => rfl

end Parse

/-- The tree of a text that parses fits into the deepest nesting that there is. -/
theorem fits_of_parse {source : List Char} {t : Tree} (h : parse source = .ok t) :
    ∃ root, t.root = some root ∧ t.Fits source false Parse.maxDepth root := by
  obtain ⟨tokens, htokens, hprogram⟩ := Parse.exists_program_of_parse h
  have hplaced := tokenize_placed htokens
  exact Parse.fits_of_program ⟨Parse.State.ready_of_placed hplaced rfl rfl, Nat.zero_le _⟩ hprogram

/-- On a path down the tree of a text that parses there are no more brackets than the limit, not
counting patterns that are bound and one bracket for each class whose parent the path goes to. -/
theorem brackets_le_of_parse {source : List Char} {t : Tree} (h : parse source = .ok t)
    {path : List NodeId} (hroot : path.head? = t.root) (hpath : t.IsPath path) :
    t.brackets path ≤ Parse.maxDepth + t.uncounted false path := by
  obtain ⟨root, hsome, hfits⟩ := fits_of_parse h
  cases path with
  | nil => simp [hsome] at hroot
  | cons i rest =>
    have hi : i = root := by simpa [hsome] using hroot
    exact (hi ▸ hfits).brackets_le hpath

theorem brackets_le_of_parse_declaration : ∃ t,
    parse "let [a] = [(b)];".toList = .ok t ∧ t.IsPath [7, 6, 5, 4, 3, 2] ∧
      t.brackets [7, 6, 5, 4, 3, 2] = 2 ∧
      t.brackets [7, 6, 5, 4, 3, 2] ≤ Parse.maxDepth + t.uncounted false [7, 6, 5, 4, 3, 2] := by
  have hcheck : (parse "let [a] = [(b)];".toList).toOption.any (fun t =>
      decide ([7, 6, 5, 4, 3, 2].head? = t.root ∧ t.IsPath [7, 6, 5, 4, 3, 2] ∧
        t.brackets [7, 6, 5, 4, 3, 2] = 2)) = true := by
    decide +kernel
  obtain ⟨t, h, hcheck⟩ := exists_tree_of_any hcheck
  obtain ⟨hroot, hpath, hbrackets⟩ := of_decide_eq_true hcheck
  exact ⟨t, h, hpath, hbrackets, brackets_le_of_parse h hroot hpath⟩

/-- The limit does not hold of all brackets: 257 patterns that are bound stand inside each other,
one more than the limit, in a text that parses. -/
theorem not_brackets_le_maxDepth : ¬ ∀ (source : List Char) (t : Tree), parse source = .ok t →
    ∀ path : List NodeId, path.head? = t.root → t.IsPath path →
      t.brackets path ≤ Parse.maxDepth := by
  intro hlimit
  obtain ⟨t, root, h, hroot, path, hpath, -, hbrackets⟩ := parse_patternTower Parse.maxDepth
  have hle := hlimit _ t h (root :: path) hroot.symm hpath
  omega

end ScriptLint
