import ScriptLint.Tree.Record
import ScriptLint.Main
import ScriptLint.Proofs.Parse.Speculation
import ScriptLint.Proofs.Parse.Conditional
import ScriptLint.Proofs.Token.Substitution
import ScriptLint.Proofs.Tree.Search
import ScriptLint.Proofs.Lint.Locality
import ScriptLint.Proofs.Lint.FixLoop
import ScriptLint.Proofs.Lint.GuardedLoop
import ScriptLint.Proofs.Lint.Legacy
import ScriptLint.Proofs.Tree.Ending
import ScriptLint.Proofs.Lint.Ending
import ScriptLint.Proofs.Lint.FixRound
import ScriptLint.Proofs.Lint.TemplateSum
import ScriptLint.Proofs.Lint.TemplateLiteral
import ScriptLint.Proofs.Parse.Climbing
import ScriptLint.Proofs.Lint.LoopParameter
import ScriptLint.Proofs.Lint.LoopAccess
import ScriptLint.Proofs.Lint.Negation
import ScriptLint.Proofs.Lint.LoopCallback
import ScriptLint.Proofs.Parse.Extent
import ScriptLint.Proofs.Tree.Scope
import ScriptLint.Proofs.Lint.Rebinding
import ScriptLint.Proofs.Token.Wording
import ScriptLint.Proofs.Lint.Dedent
import ScriptLint.Proofs.Lint.Nullish
import ScriptLint.Proofs.Lint.OptionalAccess
import ScriptLint.Proofs.Lint.ConcatChain
import ScriptLint.Proofs.Parse.Recovery
import ScriptLint.Proofs.Parse.Restriction
import ScriptLint.Proofs.Parse.ClosingAngle
import ScriptLint.Proofs.Token.Escape
import ScriptLint.Proofs.Lint.Position
import ScriptLint.Proofs.Parse.Retagging
import ScriptLint.Proofs.Command.SourceFiles
import ScriptLint.Proofs.Lint.StringBody
