import ScriptLint.Proofs.Parse.Template

namespace ScriptLint
namespace Parse

open ScriptLint.Parser

variable {g : Grammar} {b s : State} {m : Bool} {ids held : List NodeId}

theorem grows_spreadOrAssignment (hg : g.Sound) : GrowsNode (spreadOrAssignment g) := by
  refine .of_leads fun s h => ?_
  unfold spreadOrAssignment
  refine .ask_bind (.ite (fun _ => .ask_bind ?_) fun _ => h.run hg.assignment)
  refine (h.run grows_skip).bind fun _ s' h => ?_
  refine (h.run hg.assignment).bind fun argument s' h => ?_
  exact h.finish rfl rfl (by simp)

theorem grows_arguments (hg : g.Sound) : Grows (arguments g) true id := by
  have hinside : Grows (do
      let arguments ← commaSeparated .rightParen (spreadOrAssignment g)
      expect .rightParen
      return arguments) false id := by
    refine .of_leads fun s h => ?_
    refine (h.run (grows_commaSeparated _ (grows_spreadOrAssignment hg))).bind fun _ s' h => ?_
    exact (h.run (grows_expect _)).bind fun _ s' h => .pure (h.done (by simp))
  refine .of_leads fun s h => ?_
  unfold arguments
  refine (h.run (grows_expect _)).bind fun _ s' h => ?_
  exact h.run (grows_withIn hinside true)

theorem grows_parenthesized (hg : g.Sound) : GrowsNode (parenthesized g) := by
  refine .of_leads fun s h => ?_
  unfold parenthesized
  refine .ask_bind ?_
  refine (h.run (grows_expect _)).bind fun _ s' h => ?_
  refine (h.run (grows_withIn (grows_expression hg) true)).bind fun e s' h => ?_
  refine (h.run (grows_expect _)).bind fun _ s' h => ?_
  exact h.finish rfl rfl (by simp)

theorem grows_arrayLiteral (hg : g.Sound) : GrowsNode (arrayLiteral g) := by
  refine .of_leads fun s h => ?_
  unfold arrayLiteral
  refine .ask_bind ?_
  refine (h.run (grows_expect _)).bind fun _ s' h => ?_
  have helements := grows_elementsWithHoles (grows_spreadOrAssignment hg)
  refine (h.run (grows_withIn helements true)).bind fun elements s' h => ?_
  refine (h.run (grows_expect _)).bind fun _ s' h => ?_
  exact h.finish (by simp [Node.children]) rfl (by simp)

theorem grows_objectMember (hg : g.Sound) : GrowsNode (objectMember g) := by
  refine .of_leads fun s h => ?_
  unfold objectMember
  refine .ask_bind (.ask_bind (.ite (fun _ => h.run (grows_spreadOrAssignment hg)) fun _ => ?_))
  refine (h.run grows_memberHead).bind fun head s' h => ?_
  refine (h.run (grows_propertyKey hg)).bind ?_
  rintro ⟨key, computed⟩ s' h
  refine .ask_bind (.ask_bind (.ite (fun _ => ?_) fun _ => ?_))
  · refine (h.run (grows_methodFunction hg _ _)).bind fun value s' h => ?_
    exact h.finish rfl rfl (by simp)
  refine .ite (fun _ => .unexpected h.frame) fun _ => ?_
  refine (h.run (grows_eatIf _)).bind fun colon s' h => .ite (fun _ => ?_) fun _ => ?_
  · refine (h.run hg.assignment).bind fun value s' h => ?_
    exact h.finish rfl rfl (by simp)
  refine .asks_bind (asks_isIdentifier key) fun named _ =>
    .ite (fun _ => .unexpected h.frame) fun _ => ?_
  refine (h.run (grows_eatIf _)).bind fun equal s' h => ?_
  refine .ite (fun _ => ?_) fun _ => ?_
  · refine (h.run hg.assignment).bind fun right s' h => ?_
    have hids : (Node.assignmentPattern key right).ids ⊆ [key, right] := by
      simp [Node.ids, Node.fields, Node.pairFields]
    refine (h.finish_held rfl (by simpa using hids) (by simp)).bind fun value s' h => ?_
    have hvalue : Growth s s' true [value] [key] := h.weaken (by simp) (by simp)
    exact hvalue.finishShorthand rfl
  · have hvalue : Growth s s' false [key] [key] := h.weaken (by simp) (by simp)
    exact hvalue.finishShorthand rfl

theorem grows_objectLiteral (hg : g.Sound) : GrowsNode (objectLiteral g) := by
  refine .of_leads fun s h => ?_
  unfold objectLiteral
  refine .ask_bind ?_
  refine (h.run (grows_expect _)).bind fun _ s' h => ?_
  have hmembers := grows_commaSeparated .rightBrace (grows_objectMember hg)
  refine (h.run (grows_withIn hmembers true)).bind fun properties s' h => ?_
  refine (h.run (grows_expect _)).bind fun _ s' h => ?_
  exact h.finish (by simp [Node.children]) rfl (by simp)

theorem leads_word {node : Node} (heof : s.current.isEof = false) (hchildren : node.children = [])
    (hids : node.ids = []) :
    Leads s s (word node) fun id s' => Grown s s' false [id] := by
  unfold word
  exact .ask_bind (.skip_bind (leads_leaf heof hchildren hids))

theorem grows_primary (hg : g.Sound) : GrowsNode (primary g) := by
  refine .of_leads fun s h => ?_
  unfold primary
  refine .ask_bind (.ask_bind ?_)
  split
  · exact .ask_bind (.ite (fun _ => h.run (grows_functionExpression hg))
      fun _ => h.run grows_identifier)
  · next hcurrent => exact leads_word (by simp [hcurrent, Token.isEof]) rfl rfl
  · next hcurrent => exact leads_word (by simp [hcurrent, Token.isEof]) rfl rfl
  · next hcurrent => exact leads_literal (by simp [hcurrent, Token.isEof]) _
  · next hcurrent => exact leads_literal (by simp [hcurrent, Token.isEof]) _
  · next hcurrent => exact leads_literal (by simp [hcurrent, Token.isEof]) _
  · exact h.run (grows_functionExpression hg)
  · exact h.run (grows_classLike hg true)
  · next hcurrent => exact leads_word (by simp [hcurrent, Token.isEof]) rfl rfl
  · next hcurrent => exact leads_literal (by simp [hcurrent, Token.isEof]) _
  · next hcurrent => exact leads_literal (by simp [hcurrent, Token.isEof]) _
  · exact h.run (grows_template hg)
  · exact h.run (grows_parenthesized hg)
  · exact h.run (grows_arrayLiteral hg)
  · exact h.run (grows_objectLiteral hg)
  · exact .fail h.frame
  · exact .fail h.frame
  · exact .fail h.frame
  · exact .unexpected h.frame

theorem grows_index (hg : g.Sound) : GrowsNode (index g) := by
  refine .of_leads fun s h => ?_
  unfold index
  refine (h.run grows_skip).bind fun _ s' h => ?_
  refine (h.run (grows_withIn (grows_expression hg) true)).bind fun property s' h => ?_
  exact (h.run (grows_expect _)).bind fun _ s' h => .pure (h.done rfl)

/-- One access, call or template after an expression that began at `b`. -/
theorem leads_suffix? (hg : g.Sound) (calls : Bool) {object : NodeId} (h : Grown b s m [object]) :
    Leads b s (suffix? g calls b.currentSpan object) fun found s' =>
      Grown b s' false [(found.map Prod.fst).getD object] := by
  unfold suffix?
  refine .ask_bind ?_
  split
  · refine (h.run grows_skip).bind fun _ s' h => ?_
    refine (h.run grows_propertyIdentifier).bind fun property s' h => ?_
    exact (h.finish rfl rfl (by simp)).bind fun e s' h => .pure h
  · refine .ite (fun _ => ?_) fun _ => .pure (h.done rfl)
    refine (h.run grows_skip).bind fun _ s' h => .ask_bind ?_
    split
    · refine (h.run (grows_arguments hg)).bind fun arguments s' h => ?_
      exact (h.finish rfl rfl (by simp)).bind fun e s' h => .pure h
    · refine (h.run (grows_index hg)).bind fun property s' h => ?_
      exact (h.finish rfl rfl (by simp)).bind fun e s' h => .pure h
    · refine (h.run grows_propertyIdentifier).bind fun property s' h => ?_
      exact (h.finish rfl rfl (by simp)).bind fun e s' h => .pure h
  · refine (h.run (grows_index hg)).bind fun property s' h => ?_
    exact (h.finish rfl rfl (by simp)).bind fun e s' h => .pure h
  · refine .ite (fun _ => ?_) fun _ => .pure (h.done rfl)
    refine (h.run (grows_arguments hg)).bind fun arguments s' h => ?_
    exact (h.finish rfl rfl (by simp)).bind fun e s' h => .pure h
  · refine (h.run (grows_template hg)).bind fun quasi s' h => ?_
    exact (h.finish rfl rfl (by simp)).bind fun e s' h => .pure h
  · refine .ask_bind (.ite (fun _ => .pure (h.done rfl)) fun _ => ?_)
    refine (h.run grows_skip).bind fun _ s' h => ?_
    exact (h.finish rfl rfl (by simp)).bind fun e s' h => .pure h
  · exact .pure (h.done rfl)

theorem leads_suffixes (hg : g.Sound) (calls : Bool) {object : NodeId} (h : Grown b s m [object]) :
    Leads b s (suffixes g calls b.currentSpan object) fun id s' => Grown b s' false [id] := by
  unfold suffixes
  refine .loop_bind (fun value s' => Grown b s' false [value.1]) (h.done rfl)
    (fun _ _ h => h.frame) ?_ ?_
  · rintro ⟨object, inChain⟩ s' h
    refine (leads_suffix? hg calls h).bind fun found s' h => ?_
    split <;> exact .pure h
  · rintro ⟨e, inChain⟩ s' h
    exact .ite (fun _ => h.finish rfl rfl (by simp)) fun _ => .pure h

theorem grows_newExpression (hg : g.Sound) : GrowsNode (newExpression g) := by
  refine .of_leads fun s h => ?_
  unfold newExpression
  refine .ask_bind ?_
  refine (h.run (grows_expectKeyword _)).bind fun _ s' h => .ask_bind ?_
  refine .when_bind (P := fun s' => Grown s s' true []) (fun _ => .fail h.frame) (fun _ => h)
    fun s₁ h => .ask_bind (.ask_bind ?_)
  have hcallee := Growth.refl s₁
  refine .either_bind (P := fun callee s' => Grown s₁ s' false [callee])
    (fun _ => (hcallee.run hg.new).rebase h.frame)
    (fun _ => (hcallee.run (grows_primary hg)).rebase h.frame) fun callee s' hcallee => ?_
  refine ((leads_suffixes hg false hcallee).rebase h.frame).bind fun callee s' hcallee => .ask_bind ?_
  have h := h.append hcallee
  refine .either_bind (fun _ => h.run (grows_arguments hg)) (fun _ => .pure ?_)
    fun arguments s' h => h.finish rfl rfl (by simp)
  simpa using h

theorem grows_leftHandSide (hg : g.Sound) : GrowsNode (leftHandSide g) := by
  refine .of_leads fun s h => ?_
  unfold leftHandSide
  exact .ask_bind (.ask_bind (.either_bind (fun _ => h.run (grows_newExpression hg))
    (fun _ => h.run (grows_primary hg)) fun e s' h => leads_suffixes hg true h))

theorem grows_postfixExpression (hg : g.Sound) : GrowsNode (postfixExpression g) := by
  refine .of_leads fun s h => ?_
  unfold postfixExpression
  refine .ask_bind ?_
  refine (h.run (grows_leftHandSide hg)).bind fun argument s' h => .ask_bind ?_
  split
  · refine .ask_bind (.ite (fun _ => .pure h) fun _ => ?_)
    refine (h.run grows_skip).bind fun _ s' h => ?_
    exact h.finish rfl rfl (by simp)
  · exact .pure h

theorem grows_unaryOperand (hg : g.Sound) : GrowsNode (unaryOperand g) := by
  refine .of_leads fun s h => ?_
  unfold unaryOperand
  refine .ask_bind (.ask_bind ?_)
  split
  · refine (h.run grows_skip).bind fun _ s' h => ?_
    refine (h.run hg.unary).bind fun argument s' h => ?_
    exact h.finish rfl rfl (by simp)
  · refine (h.run grows_skip).bind fun _ s' h => ?_
    refine (h.run hg.unary).bind fun argument s' h => ?_
    exact h.finish rfl rfl (by simp)
  · refine (h.run (grows_eatIf _)).bind fun awaits s' h => .ite (fun _ => ?_) fun _ => ?_
    · refine (h.run hg.unary).bind fun argument s' h => ?_
      exact h.finish rfl rfl (by simp)
    · exact .ite (fun _ => .fail h.frame) fun _ => h.run (grows_postfixExpression hg)

theorem grows_unary (hg : g.Sound) : GrowsNode (unary g) := grows_nested (grows_unaryOperand hg)

/-- One operator after an operand that began at `b`, with what stands after it. -/
theorem leads_infixTail? (hg : g.Sound) (least : Precedence) {left : NodeId}
    (h : Grown b s m [left]) :
    Leads b s (infixTail? g least b.currentSpan left) fun found s' =>
      Grown b s' false [found.getD left] := by
  unfold infixTail?
  refine .ask_bind (.ask_bind (.ite (fun _ => ?_) fun _ => .ask_bind (.ask_bind ?_)))
  · refine (h.run grows_skip).bind fun _ s' h => ?_
    refine (h.run hg.type).bind fun type s' h => ?_
    exact (h.finish rfl rfl (by simp)).bind fun e s' h => .pure h
  · split
    · next operator _ =>
      refine .ite (fun _ => .pure (h.done rfl)) fun _ => ?_
      refine (h.run grows_skip).bind fun _ s' h => ?_
      refine (h.run (hg.binary _)).bind fun right s' h => ?_
      cases operator with
      | binary => exact (h.finish rfl rfl (by simp)).bind fun e s' h => .pure h
      | logical => exact (h.finish rfl rfl (by simp)).bind fun e s' h => .pure h
    · exact .pure (h.done rfl)

theorem grows_binary (hg : g.Sound) (least : Precedence) : GrowsNode (binary g least) := by
  refine .of_leads fun s h => ?_
  unfold binary
  refine .ask_bind ?_
  refine (h.run (grows_unary hg)).bind fun first s' h => ?_
  refine .loop (fun left s' => Grown s s' false [left]) h (fun _ _ h => h.frame) fun left s' h => ?_
  refine (leads_infixTail? hg least h).bind fun found s' h => ?_
  split <;> exact .pure h

theorem grows_conditional (hg : g.Sound) : GrowsNode (conditional g) := by
  refine .of_leads fun s h => ?_
  unfold conditional
  refine .ask_bind ?_
  refine (h.run (grows_binary hg _)).bind fun test s' h => ?_
  refine (h.run (grows_eatIf _)).bind fun eaten s' h => .ite (fun _ => ?_) fun _ => .pure h
  refine (h.run (grows_withIn hg.assignment true)).bind fun consequent s' h => ?_
  refine (h.run (grows_expect _)).bind fun _ s' h => ?_
  refine (h.run hg.assignment).bind fun alternate s' h => ?_
  exact h.finish rfl rfl (by simp)

theorem leads_yieldExpression (hg : g.Sound) (heof : s.current.isEof = false) :
    Leads s s (yieldExpression g) fun id s' => Grown s s' false [id] := by
  have h := Growth.refl s
  unfold yieldExpression
  refine .ask_bind ((h.take heof).bind fun _ s' h => ?_)
  refine (h.run (grows_eatIf _)).bind fun delegate s' h => .ask_bind (.ask_bind ?_)
  refine .either_bind (P := fun (argument : Option NodeId) s' => Grown s s' true argument.toList)
    (fun _ => .pure h) (fun _ => .map (h.run hg.assignment)) fun argument s' h => ?_
  exact h.finish rfl rfl (by simp)

theorem grows_arrowFunction (hg : g.Sound) : GrowsNode (arrowFunction g) := by
  refine .of_leads fun s h => ?_
  unfold arrowFunction
  refine .ask_bind (.ask_bind (.ask_bind ?_))
  refine .when_bind (P := fun s' => Grown s s' false []) (fun _ => h.run grows_skip) (fun _ => h)
    fun s' h => ?_
  refine (h.run grows_skipTypeParameters).bind fun _ s' h => .ask_bind ?_
  refine .either_bind (P := fun params s' => Grown s s' false params) (fun _ => ?_) (fun _ => ?_)
    fun params s' h => ?_
  · exact .map (h.run grows_identifier)
  · exact (h.run (grows_formalParameters hg)).mono fun params s' h => h.done rfl
  refine (h.run (grows_typeAscription? hg)).bind fun returnType s' h => ?_
  refine (h.run (grows_expect _)).bind fun _ s' h => .ask_bind (.ite (fun _ => ?_) fun _ => ?_)
  · refine (h.run (grows_block hg)).bind fun body s' h => ?_
    exact h.finish (by simp [Node.children]) rfl (by simp)
  · refine (h.run hg.assignment).bind fun body s' h => ?_
    exact h.finish (by simp [Node.children]) rfl (by simp)

theorem grows_plainAssignment (hg : g.Sound) : GrowsNode (plainAssignment g) := by
  refine .of_leads fun s h => ?_
  unfold plainAssignment
  refine .ask_bind (.ite (fun hyield => ?_) fun _ => .ask_bind ?_)
  · refine leads_yieldExpression hg ?_
    cases hcurrent : s.current <;> simp_all [Token.isKeyword, Token.isEof]
  refine (h.run (grows_conditional hg)).bind fun left s' h => .ask_bind ?_
  split
  · exact .pure h
  · refine (h.run grows_skip).bind fun _ s' h => ?_
    refine .when_bind (P := fun s' => Grown s s' false [left]) (fun _ => leads_toPattern h) (fun _ => h)
      fun s' h => ?_
    refine (h.run hg.assignment).bind fun right s' h => ?_
    exact h.finish rfl rfl (by simp)

theorem grows_assignment (hg : g.Sound) : GrowsNode (assignment g) := by
  refine grows_nested (.of_leads fun s h => .ask_bind ?_)
  split
  · exact h.run (grows_arrowFunction hg)
  · refine (h.run (grows_attempt (grows_arrowFunction hg))).bind fun found s' h => ?_
    split
    · exact .pure h
    · exact h.run (grows_plainAssignment hg)
  · exact h.run (grows_plainAssignment hg)

end Parse
end ScriptLint
