import ScriptLint.Proofs.Lint.LoopAccess
import ScriptLint.Proofs.Lint.OptionalAccess

namespace ScriptLint

namespace Rendering

variable {d : Document} {stop cursor : Nat} {substitutions : List Substitution} {s : Substitution}

end Rendering

namespace Document

variable {source : List Char} {t : Tree} {path : String} {method : ArrayMethod}
  {id init test update body array a b : NodeId} {counter : String} {l : ArrayLoop} {x : List Char}

/-- An access stands in the tree, and is one of the elements of the array. -/
theorem Counts.isElement (h : parse source = .ok t)
    (hcounts : (Document.mk path source t).Counts id init test update body l) (ha : a ∈ l.accesses) :
    t.Reachable a ∧ (Document.mk path source t).IsElement l.array l.counter a := by
  obtain ⟨-, -, use, -, hparent, helement⟩ := hcounts.exists_use ha
  exact ⟨(Tree.reachable_of_parent h hparent).2.1, helement⟩

end Document
end ScriptLint
