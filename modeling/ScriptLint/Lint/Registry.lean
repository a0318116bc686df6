import ScriptLint.Lint.Rules.Correctness
import ScriptLint.Lint.Rules.Deprecated

namespace ScriptLint
namespace Rules

/-- The name under which the rules are published. -/
def pluginName : String := "sift"

/-- All rules, in the order in which they look at a node. -/
def all : List Rule :=
  [requireErrorHandling, preferPromiseRejectErrors, asyncFunctionNaming, preferTemplateLiteral,
   preferEarlyReturn, preferNullishCoalescing, preferOptionalChain, preferArrayIncludes,
   preferArrayEvery, preferArraySome, preferSpread, preferConstAssertion,
   legacyPreferNullishCoalescing, legacyPreferOptionalChain, legacyAsyncFunctionNaming]

def find? (name : String) : Option Rule := all.find? (·.name == name)

end Rules
end ScriptLint
