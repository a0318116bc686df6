import ScriptLint.Parse.Parser
import ScriptLint.Parse.Precedence

namespace ScriptLint

/-- Parsers for the constructs that can stand inside others. -/
structure Grammar where
  statement : Parser NodeId
  /-- An expression without a comma at its top. -/
  assignment : Parser NodeId
  /-- Operators of at least a level, and their operands. -/
  binary : Precedence → Parser NodeId
  unary : Parser NodeId
  /-- A primary expression with its accesses and calls. -/
  leftHandSide : Parser NodeId
  /-- An expression that begins with `new`. -/
  new : Parser NodeId
  type : Parser NodeId
  typeOperator : Parser NodeId
  /-- A name, array pattern or object pattern that is bound. -/
  bindingTarget : Parser NodeId

namespace Grammar

/-- The grammar of nothing: every construct is nested too deep. -/
def exhausted : Grammar :=
  let never : Parser NodeId := fun s =>
    (.error ⟨.limitExceeded "construct", s.currentSpan, none⟩, s)
  ⟨never, never, fun _ => never, never, never, never, never, never, never⟩

end Grammar
end ScriptLint
