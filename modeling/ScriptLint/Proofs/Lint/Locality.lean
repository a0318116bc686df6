import ScriptLint.Proofs.Lint.FixSpan
import ScriptLint.Proofs.Lint.Runner

namespace ScriptLint

variable {source : List Char} {t : Tree} {f : Fix} {d : Document} {g : Diagnostic}

theorem Tree.RangedAt.slice_isSome {i : NodeId} {r : Span} (h : t.RangedAt source i r) :
    (slice? source r.start r.stop).isSome :=
  slice?_isSome_of_position? h.start_le_stop h.start_boundary h.stop_boundary

namespace Settings

variable {s : Settings} {path : String}

end Settings

end ScriptLint
