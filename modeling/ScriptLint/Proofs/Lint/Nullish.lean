import ScriptLint.Proofs.Lint.Negation
import ScriptLint.Proofs.Lint.Rebinding

namespace ScriptLint

open Position (origin)
open Parse (Phrase Place)

namespace Tree

variable {t t' : Tree} {left right id i' : NodeId}

end Tree

namespace Rules

end Rules

namespace Settings

variable {source : List Char} {t : Tree} {g : Diagnostic} {f : Fix}

end Settings

namespace Tree

end Tree

end ScriptLint
