import ScriptLint.Proofs.Parse.TypeExpr

namespace ScriptLint
namespace Parse

open ScriptLint.Parser

variable {g : Grammar} {b s : State} {m : Bool} {ids held : List NodeId}

theorem grows_block (hg : g.Sound) : GrowsNode (block g) := by
  refine .of_leads fun s h => ?_
  unfold block
  refine .ask_bind ?_
  refine (h.run (grows_expect _)).bind fun _ s' h => ?_
  refine (h.run (grows_itemsUntil _ hg.statement)).bind fun body s' h => ?_
  refine (h.run (grows_expect _)).bind fun _ s' h => ?_
  exact h.finish (by simp [Node.children]) rfl (by simp)

/-- The nodes of a signature, in source order. -/
def Signature.nodes (s : Signature) : List NodeId := s.params ++ s.returnType.toList

theorem grows_signature (hg : g.Sound) : Grows (signature g) true Signature.nodes := by
  refine .of_leads fun s h => ?_
  unfold signature
  refine (h.run grows_skipTypeParameters).bind fun _ s' h => ?_
  refine (h.run (grows_formalParameters hg)).bind fun params s' h => ?_
  exact (h.run (grows_typeAscription? hg)).bind fun returnType s' h => .pure h

theorem grows_methodFunction (hg : g.Sound) (isAsync generator : Bool) :
    GrowsNode (methodFunction g isAsync generator) := by
  refine .of_leads fun s h => ?_
  unfold methodFunction
  refine .ask_bind ?_
  refine (h.run (grows_signature hg)).bind fun signature s' h => ?_
  refine (h.run (grows_block hg)).bind fun body s' h => ?_
  exact h.finish rfl rfl (by simp)

/-- The nodes before the body of a function, in source order. -/
def FunctionHead.nodes (h : FunctionHead) : List NodeId :=
  h.id.toList ++ h.params ++ h.returnType.toList

theorem grows_functionHead (hg : g.Sound) : Grows (functionHead g) true FunctionHead.nodes := by
  refine .of_leads fun s h => ?_
  unfold functionHead
  refine (h.run (grows_eatIf _)).bind fun isAsync s' h => ?_
  refine (h.run (grows_expectKeyword _)).bind fun _ s' h => ?_
  refine (h.run (grows_eatIf _)).bind fun generator s' h => ?_
  refine (h.run (grows_optionally (asks_ask _).grows grows_identifier)).bind fun id s' h => ?_
  refine (h.run (grows_signature hg)).bind fun signature s' h => .pure ?_
  simpa [FunctionHead.nodes, Signature.nodes] using h

theorem grows_functionExpression (hg : g.Sound) : GrowsNode (functionExpression g) := by
  refine .of_leads fun s h => ?_
  unfold functionExpression
  refine .ask_bind ?_
  refine (h.run (grows_functionHead hg)).bind fun head s' h => ?_
  refine (h.run (grows_block hg)).bind fun body s' h => ?_
  exact h.finish rfl rfl (by simp)

theorem grows_functionDeclaration (hg : g.Sound) : GrowsNode (functionDeclaration g) := by
  refine .of_leads fun s h => ?_
  unfold functionDeclaration
  refine .ask_bind ?_
  refine (h.run (grows_functionHead hg)).bind fun head s' h => .ask_bind ?_
  refine .ite (fun _ => ?_) fun _ => ?_
  · refine (h.run (grows_block hg)).bind fun body s' h => ?_
    exact h.finish rfl rfl (by simp)
  · refine (h.run grows_consumeSemicolon).bind fun _ s' h => ?_
    exact h.finish (by simp [Node.children, FunctionHead.nodes]) rfl (by simp)

theorem asks_atMemberModifier : Asks atMemberModifier := by
  unfold atMemberModifier
  refine (asks_ask _).bind fun t => ?_
  split
  · split
    · exact asks_ask _
    · exact asks_pure _
  · exact asks_pure _

theorem asks_accessorWord? : Asks accessorWord? := by
  unfold accessorWord?
  refine (asks_ask _).bind fun next => ?_
  split
  · refine (asks_ask _).bind fun isGet => ?_
    split
    · exact asks_pure _
    · refine (asks_ask _).bind fun isSet => ?_
      split <;> exact asks_pure _
  · exact asks_pure _

theorem grows_memberHead : GrowsNone memberHead false := by
  refine .of_leads fun s h => ?_
  unfold memberHead
  refine .asks_bind asks_accessorWord? fun accessor _ => .ite (fun _ => ?_) fun _ => ?_
  · refine (h.run grows_skip).bind fun _ s' h => ?_
    exact (h.run (grows_eatIf _)).bind fun _ s' h => .pure h
  · refine .ask_bind (.ask_bind (.ite (fun _ => ?_) fun _ => ?_))
    · refine (h.run grows_skip).bind fun _ s' h => ?_
      exact (h.run (grows_eatIf _)).bind fun _ s' h => .pure h
    · exact (h.run (grows_eatIf _)).bind fun _ s' h => .pure h

theorem asks_isConstructorKey (key : NodeId) (computed : Bool) :
    Asks (isConstructorKey key computed) := by
  unfold isConstructorKey
  refine (asks_ask _).bind fun node => ?_
  split <;> exact asks_pure _

theorem grows_classMember (hg : g.Sound) : GrowsNode (classMember g) := by
  refine .of_leads fun s h => ?_
  unfold classMember
  refine .ask_bind ?_
  refine .loop_bind (fun _ s' => Grown s s' false []) h (fun _ _ h => h.frame)
    (fun isStatic s' h => ?_) fun isStatic s' h => ?_
  · refine .asks_bind asks_atMemberModifier fun atModifier _ => .ite (fun _ => ?_) fun _ => .pure h
    exact .ask_bind ((h.run grows_skip).bind fun _ s' h => .pure h)
  refine .ask_bind (.ask_bind ?_)
  refine .when_bind (P := fun s' => Grown s s' false []) (fun _ => .fail h.frame) (fun _ => h)
    fun s' h => ?_
  refine (h.run grows_memberHead).bind fun head s' h => ?_
  refine (h.run (grows_propertyKey hg)).bind ?_
  rintro ⟨key, computed⟩ s' h
  refine (h.run (grows_eatIf _)).bind fun optional s' h => ?_
  refine .when_bind (P := fun s' => Grown s s' false [key]) (fun _ => h.run (grows_eatIf _))
    (fun _ => h) fun s₁ h => .ask_bind (.ask_bind (.ite (fun _ => .ask_bind ?_) fun _ => ?_))
  · refine ((h.run (grows_signature hg)).and ((grows_signature hg s₁).rebase h.frame)).bind ?_
    rintro signature s' ⟨hall, hvalue⟩
    refine .ask_bind (.ite (fun _ => ?_) fun _ => ?_)
    · refine ((hvalue.run (grows_block hg)).rebase h.frame).bind fun body s' hvalue => ?_
      refine ((hvalue.finish rfl rfl (by simp)).rebase h.frame).bind fun value s' hvalue => ?_
      refine .asks_bind (asks_isConstructorKey key computed) fun isConstructor _ => ?_
      exact (h.append hvalue).finish rfl rfl (by simp)
    · refine (hall.run grows_consumeSemicolon).bind fun _ s' h => ?_
      exact h.finish (by simp [Node.children, Signature.nodes]) rfl (by simp)
  · refine (h.run (grows_typeAscription? hg)).bind fun ascription s' h => ?_
    refine (h.run (grows_optionally (grows_eatIf _) (grows_withIn hg.assignment true))).bind
      fun value s' h => ?_
    refine (h.run grows_consumeSemicolon).bind fun _ s' h => ?_
    exact h.finish (by simp [Node.children]) rfl (by simp)

theorem grows_classBody (hg : g.Sound) : GrowsNode (classBody g) := by
  have hmember : Grows (do
      if ← eat .semicolon then return none
      else return some (← classMember g)) false Option.toList := by
    refine .of_leads fun s h => ?_
    refine (h.run (grows_eatIf _)).bind fun _ s' h => .ite (fun _ => .pure h) fun _ => ?_
    exact (h.run (grows_classMember hg)).bind fun member s' h => .pure h
  refine .of_leads fun s h => ?_
  unfold classBody
  refine .ask_bind ?_
  refine (h.run (grows_expect _)).bind fun _ s' h => ?_
  refine (h.run (grows_itemsUntil _ hmember)).bind fun members s' h => ?_
  refine (h.run (grows_expect _)).bind fun _ s' h => ?_
  exact h.finish (by simp [Node.children, List.filterMap_eq_flatMap_toList]) rfl (by simp)

theorem grows_superClass (hg : g.Sound) : GrowsNode (superClass g) := by
  refine .of_leads fun s h => ?_
  unfold superClass
  refine (h.run hg.leftHandSide).bind fun parent s' h => .ask_bind ?_
  exact .when_bind (P := fun s' => Grown s s' false [parent])
    (fun _ => h.drop (grows_typeArguments hg)) (fun _ => h) fun s' h => .pure h

theorem grows_classLike (hg : g.Sound) (expression : Bool) : GrowsNode (classLike g expression) := by
  refine .of_leads fun s h => ?_
  unfold classLike
  refine .ask_bind ?_
  refine (h.run (grows_expectKeyword _)).bind fun _ s' h => ?_
  refine (h.run (grows_optionally (asks_ask _).grows grows_identifier)).bind fun id s' h => ?_
  refine (h.run grows_skipTypeParameters).bind fun _ s' h => ?_
  refine (h.run (grows_optionally (grows_eatIf _) (grows_superClass hg))).bind fun parent s' h => ?_
  refine (h.run (grows_eatIf _)).bind fun _ s' h => ?_
  refine .when_bind (P := fun s' => Grown s s' true (id.toList ++ parent.toList)) (fun _ => ?_)
    (fun _ => ?_) fun s' h => ?_
  · exact (h.drop (grows_separatedBy _ hg.type)).mono fun _ s' h => by simpa using h
  · simpa using h
  · refine (h.run (grows_classBody hg)).bind fun body s' h => ?_
    cases expression with
    | true => exact h.finish rfl rfl (by simp)
    | false => exact h.finish rfl rfl (by simp)

end Parse
end ScriptLint
