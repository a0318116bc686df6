import ScriptLint.Proofs.Parse.Nesting.Pattern

namespace ScriptLint
namespace Parse

open ScriptLint.Parser

variable {g : Grammar} {s : State} {k : Nat}

attribute [local simp] Node.Encloses Node.cost Node.isBracket Node.children Node.bindings
  Node.Plain Node.infix? Node.applied? Node.isQuoted or_imp

theorem nests_typeArguments (hg : g.Ample) : Nests (typeArguments g) 0 id fun _ => [] := by
  refine .of_leads fun s h => ?_
  unfold typeArguments
  refine (h.pass (grows_expect _)).bind fun _ s' h => ?_
  refine (h.run (nests_separatedBy _ hg.type)).bind fun arguments s' h => ?_
  exact (h.pass grows_closingAngle).bind fun _ s' h => .pure h

theorem nests_entityName : NestsNode entityName 0 := by
  refine .of_leads fun s h => ?_
  unfold entityName
  refine .ask_bind ?_
  refine (h.run nests_identifier).bind fun first s' h => ?_
  refine .loop (fun left s' => Fitted s s' 0 [left] []) h (fun _ _ h => h.frame) fun left s' h => ?_
  refine (h.pass (grows_eatIf _)).bind fun eaten s' h => .ite (fun _ => ?_) fun _ => .pure h
  refine (h.run nests_propertyIdentifier).bind fun right s' h => ?_
  exact (h.finish (by simp +contextual)).bind fun _ s' h => .pure h

theorem nests_typeReference (hg : g.Ample) : NestsNode (typeReference g) 0 := by
  refine .of_leads fun s h => ?_
  unfold typeReference
  refine .ask_bind ?_
  refine (h.run nests_entityName).bind fun name s' h => .ask_bind (.ask_bind ?_)
  refine .either_bind (fun _ => h.run (nests_typeArguments hg)) (fun _ => .pure ?_)
    fun arguments s' h => h.finish (by simp +contextual)
  simpa using h

/-- A reference to a type of which the word stands here. -/
theorem leads_fitted_wordReference {name : String} (hword : s.current.word? = some name) :
    Leads s s (wordReference name) fun id s' => Fitted s s' 0 [id] [] := by
  have hadvance : Fitted s s.advance 0 [] [] := .of_frame (.advance s)
  have hname : s.Steady →
      s.advance.tree.Written s.source (.identifier { name }) s.currentSpan := by
    refine fun hs => ⟨?_, by simp, by simp, by simp⟩
    rintro _ ⟨⟩
    exact hs.ready.wordAt hword
  unfold wordReference
  refine .ask_bind (.skip_bind (.alloc_bind ?_))
  have hword := hadvance.alloc (.identifier { name }) s.currentSpan hname le_rfl
    (by simp [Node.children])
  have htype := hword.alloc (.typeReference s.advance.tree.size []) s.currentSpan (fun _ => .plain (by simp))
    le_rfl
    (by simp [Node.children])
  exact htype.sub (by simp) (by simp)

theorem leads_fitted_literalType {value : LiteralValue}
    (hvalue : ∀ text, value = .string text → s.current = .string text) :
    Leads s s (literalType value) fun id s' => Fitted s s' 0 [id] [] := by
  unfold literalType
  refine .ask_bind ((leads_fitted_literal hvalue).bind fun value s' h => ?_)
  have htype := h.alloc (.literalType value) s.currentSpan (fun _ => .plain (by simp))
    le_rfl
    (by simp [Node.children])
  exact htype.sub (by simp) (by simp)

theorem nests_wordType (word : TypeWord) : NestsNode (wordType word) 0 := by
  refine .of_leads fun s h => ?_
  unfold wordType
  exact .ask_bind (.skip_bind (leads_fitted_leaf rfl rfl (by simp) (by simp)))

theorem nests_functionType (hg : g.Ample) : NestsNode (functionType g) 0 := by
  refine .of_leads fun s h => ?_
  unfold functionType
  refine .ask_bind ?_
  refine (h.pass grows_skipTypeParameters).bind fun _ s' h => ?_
  refine (h.run (nests_formalParameters hg)).bind fun params s' h => ?_
  refine (h.pass (grows_expect _)).bind fun _ s' h => ?_
  exact (h.run hg.type).bind fun returnType s' h => h.finish (by simp +contextual)

theorem nests_tupleType (hg : g.Ample) : NestsNode (tupleType g) 1 := by
  have helement : NestsNode (do
      let _ ← eat .dotDotDot
      if ← atTupleLabel then
        skip
        let _ ← eat .question
        expect .colon
      g.type) 0 := by
    refine .of_leads fun s h => ?_
    refine (h.pass (grows_eatIf _)).bind fun _ s' h => .ask_bind ?_
    refine .ite (fun _ => ?_) fun _ => h.run hg.type
    refine (h.pass grows_skip).bind fun _ s' h => ?_
    refine (h.pass (grows_eatIf _)).bind fun _ s' h => ?_
    refine (h.pass (grows_expect _)).bind fun _ s' h => ?_
    exact h.run hg.type
  intro s
  have h := Fitted.refl (k := 0) s
  unfold tupleType
  refine .ask_bind ?_
  refine (h.pass (grows_expect _)).bind fun _ s' h => ?_
  refine (h.run (nests_commaSeparated _ helement)).bind fun elements s' h => ?_
  exact (h.pass (grows_expect _)).bind fun _ s' h => h.finish (by simp +contextual)

theorem nests_typeMember (hg : g.Ample) : NestsNode (typeMember g) 0 := by
  refine .of_leads fun s h => ?_
  unfold typeMember
  refine .ask_bind (.ask_bind ?_)
  refine .when_bind (P := fun s' => Fitted s s' 0 [] []) (fun _ => h.pass grows_skip) (fun _ => h)
    fun s' h => .ask_bind (.ite (fun _ => ?_) fun _ => ?_)
  · refine (h.pass grows_skip).bind fun _ s' h => ?_
    refine (h.run nests_identifier).bind fun key s' h => ?_
    refine (h.pass (grows_expect _)).bind fun _ s' h => ?_
    refine (h.run hg.type).bind fun _ s' h => ?_
    refine (h.pass (grows_expect _)).bind fun _ s' h => ?_
    exact (h.run (nests_typeAscription hg)).bind
      fun ascription s' h => h.finish (by simp +contextual)
  · refine (h.run (nests_propertyKey hg)).bind ?_
    rintro ⟨key, computed⟩ s' h
    refine (h.pass (grows_eatIf _)).bind fun optional s' h => .ask_bind (.ask_bind ?_)
    refine .ite (fun _ => ?_) fun _ => ?_
    · refine (h.pass grows_skipTypeParameters).bind fun _ s' h => ?_
      refine (h.run (nests_formalParameters hg)).bind fun params s' h => ?_
      exact (h.run (nests_typeAscription? hg)).bind
        fun returnType s' h => h.finish (by simp +contextual)
    · exact (h.run (nests_typeAscription? hg)).bind
        fun ascription s' h => h.finish (by simp +contextual)

theorem nests_typeMembers (hg : g.Ample) : Nests (typeMembers g) 0 id fun _ => [] := by
  have hmember : NestsNode (do
      let member ← typeMember g
      if ← eat .semicolon then return member
      if ← eat .comma then return member
      if !(← check .rightBrace) && !(← newlineBefore) then unexpected [.punct .semicolon]
      else return member) 0 := by
    refine .of_leads fun s h => ?_
    refine (h.run (nests_typeMember hg)).bind fun member s' h => ?_
    refine (h.pass (grows_eatIf _)).bind fun _ s' h => .ite (fun _ => .pure h) fun _ => ?_
    refine (h.pass (grows_eatIf _)).bind fun _ s' h => .ite (fun _ => .pure h) fun _ => ?_
    exact .ask_bind (.ask_bind (.ite (fun _ => .unexpected h.frame) fun _ => .pure h))
  refine .of_leads fun s h => ?_
  unfold typeMembers
  refine (h.pass (grows_expect _)).bind fun _ s' h => ?_
  refine (h.run (nests_itemsUntil _ hmember)).bind fun members s' h => ?_
  exact (h.pass (grows_expect _)).bind fun _ s' h => .pure (h.sub (by simp) (by simp))

theorem nests_negativeLiteralType (value : Binary64) : NestsNode (negativeLiteralType value) 0 := by
  refine .of_leads fun s h => ?_
  unfold negativeLiteralType
  refine .ask_bind ((h.pass grows_skip).bind fun _ s' h => ?_)
  refine (h.pass grows_skip).bind fun _ s' h => .ask_bind (.ask_bind (.alloc_bind ?_))
  have hvalue := h.alloc (.literal (.number (negated value))
    ((s'.spanFrom s.currentSpan).slice s'.source)) (s'.spanFrom s.currentSpan)
    (fun _ => .plain (by simp)) le_rfl
    (by simp [Node.children])
  have htype := hvalue.alloc (.literalType s'.tree.size) (s'.spanFrom s.currentSpan)
    (fun _ => .plain (by simp)) le_rfl
    (by simp [Node.children])
  exact htype.sub (by simp) (by simp)

theorem nests_primaryType (hg : g.Ample) : NestsNode (primaryType g) 1 := by
  intro s
  have h := Fitted.refl (k := 0) s
  have hone : ∀ {p : Parser NodeId}, NestsNode p 0 →
      Leads s s p fun id s' => Fitted s s' 1 [id] [] := fun hp => hp.weaken (Nat.zero_le _) s
  have hliteral : ∀ {value : LiteralValue}, (∀ text, value = .string text → s.current = .string text) →
      Leads s s (literalType value) fun id s' => Fitted s s' 1 [id] [] := fun hvalue =>
    (leads_fitted_literalType hvalue).mono fun _ _ h => h.weaken (Nat.zero_le _) (by simp) (by simp)
  have hword : ∀ word, s.current = .keyword word →
      Leads s s (wordReference word.spelling) fun id s' => Fitted s s' 1 [id] [] := by
    intro word hcurrent
    refine (leads_fitted_wordReference (by rw [hcurrent]; rfl)).mono fun _ _ h => ?_
    exact h.weaken (Nat.zero_le _) (by simp) (by simp)
  unfold primaryType
  refine .ask_bind (.ask_bind ?_)
  split
  · refine .ask_bind ?_
    split
    · exact hone (nests_wordType _)
    · refine (h.run (nests_typeReference hg)).bind fun reference s' h => .ask_bind (.ask_bind ?_)
      refine .ite (fun _ => ?_) fun _ => .pure (h.weaken (Nat.zero_le _) (by simp) (by simp))
      refine (h.pass grows_skip).bind fun _ s' h => ?_
      exact (h.run hg.type).mono fun _ _ h => h.weaken (Nat.zero_le _) (by simp) (by simp)
  · exact hone (nests_wordType _)
  · exact hone (nests_wordType _)
  · next hcurrent => exact hword _ hcurrent
  · next hcurrent => exact hword _ hcurrent
  · refine (h.pass grows_skip).bind fun _ s' h => ?_
    exact (h.run nests_entityName).bind fun name s' h => h.finish (by simp +contextual)
  · exact hliteral (by simp)
  · exact hliteral (by simp)
  · next value hcurrent => exact hliteral (by simp [hcurrent])
  · exact hliteral (by simp)
  · refine .ask_bind ?_
    split
    · exact hone (nests_negativeLiteralType _)
    · exact .unexpected h.frame
  · exact (h.run (nests_typeMembers hg)).bind fun members s' h => h.finish (by simp +contextual)
  · exact nests_tupleType hg s
  · refine .ask_bind (.ite (fun _ => hone (nests_functionType hg)) fun _ => ?_)
    refine (h.pass grows_skip).bind fun _ s' h => ?_
    refine (h.run hg.type).bind fun inner s' h => ?_
    refine (h.pass (grows_expect _)).bind fun _ s' h => .pure ?_
    exact h.weaken (Nat.zero_le _) (by simp) (by simp)
  · exact hone (nests_functionType hg)
  · refine (h.pass grows_skip).bind fun _ s' h => ?_
    exact (h.run (nests_functionType hg)).mono fun _ _ h =>
      h.weaken (Nat.zero_le _) (by simp) (by simp)
  · exact .unexpected h.frame

theorem nests_postfixType (hg : g.Ample) : NestsNode (postfixType g) 1 := by
  refine .of_leads fun s h => ?_
  unfold postfixType
  refine .ask_bind ?_
  refine (h.run (nests_primaryType hg)).bind fun first s' h => ?_
  refine .loop (fun type s' => Fitted s s' 1 [type] []) h (fun _ _ h => h.frame) fun type s' h => ?_
  refine .ask_bind (.ask_bind (.ite (fun _ => ?_) fun _ => .pure h))
  refine (h.pass grows_skip).bind fun _ s' h => ?_
  refine (h.pass (grows_eatIf _)).bind fun eaten s' h => .ite (fun _ => ?_) fun _ => ?_
  · exact (h.finish (by simp +contextual)).bind fun _ s' h => .pure h
  · refine (h.run (hg.type.weaken (by omega))).bind fun index s' h => ?_
    refine (h.pass (grows_expect _)).bind fun _ s' h => ?_
    exact (h.finish (by simp +contextual)).bind fun _ s' h => .pure h

theorem nests_typeOperator (hg : g.Ample) : NestsNode (typeOperator g) 1 := by
  refine .of_leads fun s h => ?_
  unfold typeOperator
  refine .ask_bind (.ask_bind ?_)
  split
  · refine .ask_bind (.ite (fun _ => ?_) fun _ => h.run (nests_postfixType hg))
    refine (h.pass grows_skip).bind fun _ s' h => ?_
    exact (h.run hg.typeOperator).bind fun type s' h => h.finish (by simp +contextual)
  · exact h.run (nests_postfixType hg)

/-- One operand is what it is, and several are the children of a node. -/
theorem nests_joinedTypes {mark : Punct} {operand : Parser NodeId} {join : List NodeId → Node}
    (hoperand : NestsNode operand k) (hcost : ∀ types, (join types).cost false = 0)
    (hchildren : ∀ types, (join types).children = types)
    (hplain : ∀ types, (join types).Plain) :
    NestsNode (joinedTypes mark operand join) k := by
  refine .of_leads fun s h => ?_
  unfold joinedTypes
  refine .ask_bind ?_
  refine (h.pass (grows_eatIf _)).bind fun _ s' h => ?_
  refine (h.run (nests_separatedBy _ hoperand)).bind fun types s' h => ?_
  split
  · exact .pure h
  · exact h.finish ⟨by rw [hcost]; rfl, by simp [hchildren, -Node.children], hplain _⟩

theorem nests_intersectionType (hg : g.Ample) : NestsNode (intersectionType g) 1 :=
  nests_joinedTypes (nests_typeOperator hg) (fun _ => rfl) (fun _ => rfl) (by simp)

theorem nests_type (hg : g.Ample) : NestsNode (type g) 0 :=
  nests_nested (nests_joinedTypes (nests_intersectionType hg) (fun _ => rfl) (fun _ => rfl) (by simp))

end Parse
end ScriptLint
