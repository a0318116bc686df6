import ScriptLint.Proofs.Lint.ConditionText
import ScriptLint.Proofs.Lint.FixSpan
import ScriptLint.Proofs.Lint.GuardedLoop
import ScriptLint.Proofs.Lint.LoopExchange
import ScriptLint.Proofs.Lint.LoopParameter
import ScriptLint.Proofs.Parse.Calling

namespace ScriptLint

open Position (origin)
open Parse (Phrase Phrased)

/-- What the callback says of an element: what the guards say of it, or for `every` the opposite. -/
def ArrayMethod.answer {α β : Type} (method : ArrayMethod) (m : Interpretation α β) (b : β) : β :=
  match method with
  | .every => m.not b
  | .some => b

namespace Condition

variable {γ : Type}

end Condition

/-- Operands of which one is read alone leave room for it. -/
theorem Tree.Spans.lt_maxDepth {x : Exchange} {t : Tree} {room : Nat} {operator : LogicalOperator}
    {i : NodeId} {y : List Char} (h : t.Spans x room operator i y) : room < Parse.maxDepth := by
  induction h with
  | operand h => exact h.lt_maxDepth
  | join _ _ _ _ _ _ ih => exact ih

theorem Rendering.Affirms.lt_maxDepth {r : Rendering} {room : Nat} {e : Exchange} {i : NodeId}
    (h : r.Affirms room e i) : room < Parse.maxDepth := by
  obtain ⟨text, -, h⟩ := h
  split at h
  · exact h.lt_maxDepth
  · exact Tree.Spans.lt_maxDepth h
  · exact Tree.Spans.lt_maxDepth h
  · exact h.lt_maxDepth

namespace Document

variable {source : List Char} {t : Tree} {path : String} {method : ArrayMethod}
  {id init test update body a : NodeId} {l : ArrayLoop}

theorem Counts.isOperand (h : parse source = .ok t)
    (hcounts : (Document.mk path source t).Counts id init test update body l) (ha : a ∈ l.accesses) :
    (t.node a).isOperand = true := by
  obtain ⟨member, hnode, -⟩ := (hcounts.isElement h ha).2
  have hnode : t.node a = .memberExpression member := hnode
  rw [hnode]
  rfl

/-- The texts that a call is made of have their tokens where they stand. -/
theorem Counts.spelled (h : parse source = .ok t)
    (hcounts : (Document.mk path source t).Counts id init test update body l)
    {array text : List Char} {inner callback : List SpannedToken}
    (harray : ∀ more, Spells array inner ('.' :: more))
    (hbody : ∀ more, Spells text callback (')' :: more)) :
    Parse.CallText.Spelled ⟨array, inner, l.method.name, l.param, text, callback⟩ where
  array := harray
  dot more := by
    have hspells : ∀ method : ArrayMethod,
        Spells ['.'] [(.punct .dot, Parse.firstSpan)] (method.name.toList ++ more) := by
      rintro (_ | _) <;> exact spells_of_cut rfl
    exact hspells l.method
  method more := by
    have hspells : ∀ method : ArrayMethod, Spells method.name.toList
        [(.identifier method.name, .between origin (origin.after method.name.toList))]
        ('(' :: more) := by
      rintro (_ | _) <;> exact spells_of_cut rfl
    exact hspells l.method
  param more := by
    obtain ⟨hword, hkeyword⟩ := hcounts.isWord_param h
    have hcut := Lexeme.cut_of_isWord hword hkeyword
    have hclear : Lexeme.Clear l.param.toList (' ' :: more) :=
      (Lexeme.stops_cons (by decide) more).clear _
    exact spells_of_cut (by simpa using Lexeme.cut_append_tail hcut hclear)
  body := hbody

end Document
end ScriptLint
