import ScriptLint.Proofs.Parse.Pattern

namespace ScriptLint
namespace Parse

open ScriptLint.Parser

variable {g : Grammar} {b s : State} {m : Bool} {ids held : List NodeId}

theorem grows_closingAngle : GrowsNone closingAngle false := by
  refine .of_leads fun s h => ?_
  unfold closingAngle
  refine .ask_bind (.ite (fun _ => h.run grows_skip) fun _ => ?_)
  split
  · next rest hcut => exact .of_frame (.splitCurrent s hcut)
  · exact .unexpected h.frame

theorem grows_skipTypeParameters : GrowsNone skipTypeParameters false := by
  refine .of_leads fun s h => ?_
  unfold skipTypeParameters
  refine (h.run (grows_eatIf _)).bind fun eaten s' h => .ite (fun _ => ?_) fun _ => .pure h
  refine .loop_bind (fun _ s' => Grown s s' false []) h (fun _ _ h => h.frame)
    (fun depth s' h => ?_) fun _ s' h => .pure h
  refine .ite (fun _ => .pure h) fun _ => .ask_bind (.ite (fun _ => .unexpected h.frame) fun _ => ?_)
  refine .ite (fun _ => ?_) fun _ => .ite (fun _ => ?_) fun _ => ?_
  · exact (h.run grows_skip).bind fun _ s' h => .pure h
  · exact (h.run grows_closingAngle).bind fun _ s' h => .pure h
  · exact (h.run grows_skip).bind fun _ s' h => .pure h

theorem grows_typeArguments (hg : g.Sound) : Grows (typeArguments g) true id := by
  refine .of_leads fun s h => ?_
  unfold typeArguments
  refine (h.run (grows_expect _)).bind fun _ s' h => ?_
  refine (h.run (grows_separatedBy _ hg.type)).bind fun arguments s' h => ?_
  exact (h.run grows_closingAngle).bind fun _ s' h => .pure (by simpa using h)

theorem grows_entityName : GrowsNode entityName := by
  refine .of_leads fun s h => ?_
  unfold entityName
  refine .ask_bind ?_
  refine (h.run grows_identifier).bind fun first s' h => ?_
  refine .loop (fun left s' => Grown s s' false [left]) h (fun _ _ h => h.frame) fun left s' h => ?_
  refine (h.run (grows_eatIf _)).bind fun eaten s' h => .ite (fun _ => ?_) fun _ => .pure h
  refine (h.run grows_propertyIdentifier).bind fun right s' h => ?_
  exact (h.finish rfl rfl (by simp)).bind fun _ s' h => .pure h

theorem grows_typeReference (hg : g.Sound) : GrowsNode (typeReference g) := by
  refine .of_leads fun s h => ?_
  unfold typeReference
  refine .ask_bind ?_
  refine (h.run grows_entityName).bind fun name s' h => .ask_bind (.ask_bind ?_)
  refine .either_bind (fun _ => h.run (grows_typeArguments hg)) (fun _ => .pure ?_)
    fun arguments s' h => h.finish rfl rfl (by simp)
  simpa using h.weaken (by simp) (by simp)

/-- A node of one token around another one of the same token. -/
theorem leads_wordReference (heof : s.current.isEof = false) (name : String) :
    Leads s s (wordReference name) fun id s' => Grown s s' false [id] := by
  have hspan := fun hs => (spanFrom_advance hs heof).symm
  have hname := (grown_advance heof).alloc (.identifier { name }) hspan rfl (by simp [Node.ids, Node.fields])
    (.inl rfl)
  unfold wordReference
  refine .ask_bind (.skip_bind (.alloc_bind ?_))
  exact (hname.alloc (.typeReference s.advance.tree.size []) hspan rfl (by simp [Node.ids, Node.fields])
    (.inl rfl)).done rfl

theorem leads_literalType (heof : s.current.isEof = false) (value : LiteralValue) :
    Leads s s (literalType value) fun id s' => Grown s s' false [id] := by
  unfold literalType
  refine .ask_bind (((leads_literal heof value).and (leads_literal_span heof value)).bind ?_)
  rintro value s' ⟨h, hspan⟩
  exact (h.alloc (.literalType value) hspan rfl (by simp [Node.ids, Node.fields]) (by simp)).done rfl

theorem leads_wordType (heof : s.current.isEof = false) (word : TypeWord) :
    Leads s s (wordType word) fun id s' => Grown s s' false [id] := by
  unfold wordType
  exact .ask_bind (.skip_bind (leads_leaf heof rfl rfl))

theorem grows_functionType (hg : g.Sound) : GrowsNode (functionType g) := by
  refine .of_leads fun s h => ?_
  unfold functionType
  refine .ask_bind ?_
  refine (h.run grows_skipTypeParameters).bind fun _ s' h => ?_
  refine (h.run (grows_formalParameters hg)).bind fun params s' h => ?_
  refine (h.run (grows_expect _)).bind fun _ s' h => ?_
  refine (h.run hg.type).bind fun returnType s' h => ?_
  exact h.finish (by simp [Node.children]) rfl (by simp)

theorem grows_tupleType (hg : g.Sound) : GrowsNode (tupleType g) := by
  have helement : GrowsNode (do
      let _ ← eat .dotDotDot
      if ← atTupleLabel then
        skip
        let _ ← eat .question
        expect .colon
      g.type) := by
    refine .of_leads fun s h => ?_
    refine (h.run (grows_eatIf _)).bind fun _ s' h => .ask_bind ?_
    refine .ite (fun _ => ?_) fun _ => h.run hg.type
    refine (h.run grows_skip).bind fun _ s' h => ?_
    refine (h.run (grows_eatIf _)).bind fun _ s' h => ?_
    refine (h.run (grows_expect _)).bind fun _ s' h => ?_
    exact (h.run hg.type).mono fun type s' h => h.done rfl
  refine .of_leads fun s h => ?_
  unfold tupleType
  refine .ask_bind ?_
  refine (h.run (grows_expect _)).bind fun _ s' h => ?_
  refine (h.run (grows_commaSeparated _ helement)).bind fun elements s' h => ?_
  refine (h.run (grows_expect _)).bind fun _ s' h => ?_
  exact h.finish (by simp [Node.children]) rfl (by simp)

theorem grows_typeMember (hg : g.Sound) : GrowsNode (typeMember g) := by
  refine .of_leads fun s h => ?_
  unfold typeMember
  refine .ask_bind (.ask_bind ?_)
  refine .when_bind (P := fun s' => Grown s s' false []) (fun _ => h.run grows_skip) (fun _ => h)
    fun s' h => .ask_bind (.ite (fun _ => ?_) fun _ => ?_)
  · refine (h.run grows_skip).bind fun _ s' h => ?_
    refine (h.run grows_identifier).bind fun key s' h => ?_
    refine (h.run (grows_expect _)).bind fun _ s' h => ?_
    refine (h.drop hg.type).bind fun _ s' h => ?_
    refine (h.run (grows_expect _)).bind fun _ s' h => ?_
    refine (h.run (grows_typeAscription hg)).bind fun ascription s' h => ?_
    exact h.finish rfl rfl (by simp)
  · refine (h.run (grows_propertyKey hg)).bind ?_
    rintro ⟨key, computed⟩ s' h
    refine (h.run (grows_eatIf _)).bind fun optional s' h => .ask_bind (.ask_bind ?_)
    refine .ite (fun _ => ?_) fun _ => ?_
    · refine (h.run grows_skipTypeParameters).bind fun _ s' h => ?_
      refine (h.run (grows_formalParameters hg)).bind fun params s' h => ?_
      refine (h.run (grows_typeAscription? hg)).bind fun returnType s' h => ?_
      exact h.finish (by simp [Node.children]) rfl (by simp)
    · refine (h.run (grows_typeAscription? hg)).bind fun ascription s' h => ?_
      exact h.finish (by simp [Node.children]) rfl (by simp)

theorem grows_typeMembers (hg : g.Sound) : Grows (typeMembers g) true id := by
  have hmember : GrowsNode (do
      let member ← typeMember g
      if ← eat .semicolon then return member
      if ← eat .comma then return member
      if !(← check .rightBrace) && !(← newlineBefore) then unexpected [.punct .semicolon]
      else return member) := by
    refine .of_leads fun s h => ?_
    refine (h.run (grows_typeMember hg)).bind fun member s' h => ?_
    refine (h.run (grows_eatIf _)).bind fun _ s' h => .ite (fun _ => .pure h) fun _ => ?_
    refine (h.run (grows_eatIf _)).bind fun _ s' h => .ite (fun _ => .pure h) fun _ => ?_
    exact .ask_bind (.ask_bind (.ite (fun _ => .unexpected h.frame) fun _ => .pure h))
  refine .of_leads fun s h => ?_
  unfold typeMembers
  refine (h.run (grows_expect _)).bind fun _ s' h => ?_
  refine (h.run (grows_itemsUntil _ hmember)).bind fun members s' h => ?_
  exact (h.run (grows_expect _)).bind fun _ s' h => .pure (by simpa using h)

theorem leads_negativeLiteralType (heof : s.current.isEof = false) (value : Binary64) :
    Leads s s (negativeLiteralType value) fun id s' => Grown s s' false [id] := by
  have h := Growth.refl s
  unfold negativeLiteralType
  refine .ask_bind ((h.take heof).bind fun _ s' h => ?_)
  refine (h.run grows_skip).bind fun _ s' h => .ask_bind (.ask_bind (.alloc_bind ?_))
  have hvalue := h.alloc (.literal (.number (negated value))
    ((s'.spanFrom s.currentSpan).slice s'.source)) (fun _ => rfl) rfl (by simp [Node.ids, Node.fields]) (by simp)
  exact (hvalue.alloc (.literalType s'.tree.size) (fun _ => rfl) rfl (by simp [Node.ids, Node.fields])
    (by simp)).done rfl

theorem grows_primaryType (hg : g.Sound) : GrowsNode (primaryType g) := by
  refine .of_leads fun s h => ?_
  unfold primaryType
  refine .ask_bind (.ask_bind ?_)
  split
  · next name hcurrent =>
    refine .ask_bind ?_
    split
    · exact leads_wordType (by simp [hcurrent, Token.isEof]) _
    · refine (h.run (grows_typeReference hg)).bind fun reference s' h => .ask_bind (.ask_bind ?_)
      refine .ite (fun _ => ?_) fun _ => .pure h
      refine ((Growth.of_frame h.frame).run grows_skip).bind fun _ s' h => ?_
      exact h.run hg.type
  · next hcurrent => exact leads_wordType (by simp [hcurrent, Token.isEof]) _
  · next hcurrent => exact leads_wordType (by simp [hcurrent, Token.isEof]) _
  · next hcurrent => exact leads_wordReference (by simp [hcurrent, Token.isEof]) _
  · next hcurrent => exact leads_wordReference (by simp [hcurrent, Token.isEof]) _
  · refine (h.run grows_skip).bind fun _ s' h => ?_
    refine (h.run grows_entityName).bind fun name s' h => ?_
    exact h.finish rfl rfl (by simp)
  · next hcurrent => exact leads_literalType (by simp [hcurrent, Token.isEof]) _
  · next hcurrent => exact leads_literalType (by simp [hcurrent, Token.isEof]) _
  · next hcurrent => exact leads_literalType (by simp [hcurrent, Token.isEof]) _
  · next hcurrent => exact leads_literalType (by simp [hcurrent, Token.isEof]) _
  · next hcurrent =>
    refine .ask_bind ?_
    split
    · exact leads_negativeLiteralType (by simp [hcurrent, Token.isEof]) _
    · exact .unexpected h.frame
  · refine (h.run (grows_typeMembers hg)).bind fun members s' h => ?_
    exact h.finish rfl rfl (by simp)
  · exact h.run (grows_tupleType hg)
  · refine .ask_bind (.ite (fun _ => h.run (grows_functionType hg)) fun _ => ?_)
    refine (h.run grows_skip).bind fun _ s' h => ?_
    refine (h.run hg.type).bind fun inner s' h => ?_
    exact (h.run (grows_expect _)).bind fun _ s' h => .pure (h.done rfl)
  · exact h.run (grows_functionType hg)
  · refine (h.run grows_skip).bind fun _ s' h => ?_
    exact h.run (grows_functionType hg)
  · exact .unexpected h.frame

theorem grows_postfixType (hg : g.Sound) : GrowsNode (postfixType g) := by
  refine .of_leads fun s h => ?_
  unfold postfixType
  refine .ask_bind ?_
  refine (h.run (grows_primaryType hg)).bind fun first s' h => ?_
  refine .loop (fun type s' => Grown s s' false [type]) h (fun _ _ h => h.frame) fun type s' h => ?_
  refine .ask_bind (.ask_bind (.ite (fun _ => ?_) fun _ => .pure h))
  refine (h.run grows_skip).bind fun _ s' h => ?_
  refine (h.run (grows_eatIf _)).bind fun eaten s' h => .ite (fun _ => ?_) fun _ => ?_
  · exact (h.finish rfl rfl (by simp)).bind fun _ s' h => .pure h
  · refine (h.run hg.type).bind fun index s' h => ?_
    refine (h.run (grows_expect _)).bind fun _ s' h => ?_
    exact (h.finish rfl rfl (by simp)).bind fun _ s' h => .pure h

theorem grows_typeOperator (hg : g.Sound) : GrowsNode (typeOperator g) := by
  refine .of_leads fun s h => ?_
  unfold typeOperator
  refine .ask_bind (.ask_bind ?_)
  split
  · refine .ask_bind (.ite (fun _ => ?_) fun _ => h.run (grows_postfixType hg))
    refine (h.run grows_skip).bind fun _ s' h => ?_
    refine (h.run hg.typeOperator).bind fun type s' h => ?_
    exact h.finish rfl rfl (by simp)
  · exact h.run (grows_postfixType hg)

/-- One operand is what it is, and several are the children of a node. -/
theorem grows_joinedTypes {mark : Punct} {operand : Parser NodeId} {join : List NodeId → Node}
    (hoperand : GrowsNode operand) (hchildren : ∀ types, (join types).children = types)
    (hshares : ∀ types, (join types).sharesFields = false) :
    GrowsNode (joinedTypes mark operand join) := by
  refine .of_leads fun s h => ?_
  unfold joinedTypes
  refine .ask_bind ?_
  refine (h.run (grows_eatIf _)).bind fun _ s' h => ?_
  refine (h.run (grows_separatedBy _ hoperand)).bind fun types s' h => ?_
  split
  · exact .pure (h.done rfl)
  · exact h.finish (hchildren _) (hshares _) (by simp)

theorem grows_intersectionType (hg : g.Sound) : GrowsNode (intersectionType g) :=
  grows_joinedTypes (grows_typeOperator hg) (fun _ => rfl) fun _ => rfl

theorem grows_type (hg : g.Sound) : GrowsNode (type g) :=
  grows_nested (grows_joinedTypes (grows_intersectionType hg) (fun _ => rfl) fun _ => rfl)

end Parse
end ScriptLint
