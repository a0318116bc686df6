import ScriptLint.Parse.Module
import ScriptLint.Proofs.Parse.Primitive

namespace ScriptLint

/-- A binding that has no annotation yet: one comes after all that the binding holds. -/
structure Node.Bare (node : Node) : Prop where
  children : ∀ optional ascription,
    (Parse.annotated optional ascription node).children = node.children ++ ascription.toList
  ids : ∀ optional ascription,
    (Parse.annotated optional ascription node).ids ⊆ node.ids ++ ascription.toList

open Parse in
/-- Every construct of the grammar makes one node. -/
structure Grammar.Sound (g : Grammar) : Prop where
  statement : GrowsNode g.statement
  assignment : GrowsNode g.assignment
  binary : ∀ least, GrowsNode (g.binary least)
  unary : GrowsNode g.unary
  leftHandSide : GrowsNode g.leftHandSide
  new : GrowsNode g.new
  type : GrowsNode g.type
  typeOperator : GrowsNode g.typeOperator
  bindingTarget : ∀ s, Leads s s g.bindingTarget fun id s' =>
    Grown s s' false [id] ∧ (s'.tree.node id).Bare

namespace Parse

open ScriptLint.Parser

variable {g : Grammar}

theorem grows_identifier : GrowsNode identifier := by
  refine .of_leads fun s h => ?_
  unfold identifier
  refine .ask_bind (.ask_bind ?_)
  split
  · next name hcurrent =>
    refine .skip_bind (leads_leaf ?_ rfl rfl)
    simp [hcurrent, Token.isEof]
  · exact .unexpected h.frame

theorem grows_propertyIdentifier : GrowsNode propertyIdentifier := by
  refine .of_leads fun s h => ?_
  unfold propertyIdentifier
  refine .ask_bind (.ask_bind ?_)
  split
  · next name hcurrent =>
    refine .skip_bind (leads_leaf ?_ rfl rfl)
    simp [hcurrent, Token.isEof]
  · next word hcurrent =>
    refine .skip_bind (leads_leaf ?_ rfl rfl)
    simp [hcurrent, Token.isEof]
  · exact .unexpected h.frame

/-- A literal is the token that stands at the cursor. -/
theorem leads_literal {s : State} (heof : s.current.isEof = false) (value : LiteralValue) :
    Leads s s (literal value) fun id s' => Grown s s' false [id] := by
  unfold literal
  exact .ask_bind (.skip_bind (.ask_bind (leads_leaf heof rfl rfl)))

theorem leads_literal_span {s : State} (heof : s.current.isEof = false) (value : LiteralValue) :
    Leads s s (literal value) fun _ s' => s.Ready → s.currentSpan = s'.spanFrom s.currentSpan := by
  unfold literal
  refine .ask_bind (.skip_bind (.ask_bind ?_))
  exact fun hs => (spanFrom_advance hs heof).symm

theorem grows_stringLiteral : GrowsNode stringLiteral := by
  refine .of_leads fun s h => ?_
  unfold stringLiteral
  refine .ask_bind ?_
  split
  · next value hcurrent => exact leads_literal (by simp [hcurrent, Token.isEof]) _
  · exact .unexpected h.frame

theorem grows_propertyKey (hg : g.Sound) : Grows (propertyKey g) false fun key => [key.1] := by
  refine .of_leads fun s h => ?_
  unfold propertyKey
  refine .ask_bind ?_
  split
  · next hcurrent =>
    refine (h.run grows_skip).bind fun _ s' h => ?_
    refine (h.run (grows_withIn hg.assignment true)).bind fun key s' h => ?_
    exact (h.run (grows_expect _)).bind fun _ s' h => .pure (h.done rfl)
  · next value hcurrent =>
    exact (leads_literal (by simp [hcurrent, Token.isEof]) _).bind fun key s' h => .pure h
  · next value hcurrent =>
    exact (leads_literal (by simp [hcurrent, Token.isEof]) _).bind fun key s' h => .pure h
  · exact (h.run grows_propertyIdentifier).bind fun key s' h => .pure h

theorem grows_typeAscription (hg : g.Sound) : GrowsNode (typeAscription g) := by
  refine .of_leads fun s h => ?_
  unfold typeAscription
  refine .ask_bind ?_
  refine (h.run (grows_expect _)).bind fun _ s' h => ?_
  refine (h.run hg.type).bind fun type s' h => ?_
  exact h.finish rfl rfl (by simp)

theorem grows_typeAscription? (hg : g.Sound) : Grows (typeAscription? g) false Option.toList :=
  grows_optionally (asks_ask _).grows (grows_typeAscription hg)

end Parse
end ScriptLint
