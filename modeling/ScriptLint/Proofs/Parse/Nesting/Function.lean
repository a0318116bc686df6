import ScriptLint.Proofs.Parse.Nesting.TypeExpr

namespace ScriptLint
namespace Parse

open ScriptLint.Parser

variable {g : Grammar} {b s : State} {k : Nat} {free bound : List NodeId}

attribute [local simp] Node.Encloses Node.cost Node.isBracket Node.children Node.bindings
  Node.Plain Node.infix? Node.applied? Node.isQuoted or_imp

theorem nests_block (hg : g.Ample) : NestsNode (block g) 1 := by
  intro s
  have h := Fitted.refl (k := 0) s
  unfold block
  refine .ask_bind ?_
  refine (h.pass (grows_expect _)).bind fun _ s' h => ?_
  refine (h.run (nests_itemsUntil _ hg.statement)).bind fun body s' h => ?_
  exact (h.pass (grows_expect _)).bind fun _ s' h => h.finish (by simp +contextual)

theorem nests_signature (hg : g.Ample) :
    Nests (signature g) 0 (fun s => s.returnType.toList) fun s => s.params := by
  refine .of_leads fun s h => ?_
  unfold signature
  refine (h.pass grows_skipTypeParameters).bind fun _ s' h => ?_
  refine (h.run (nests_formalParameters hg)).bind fun params s' h => ?_
  exact (h.run (nests_typeAscription? hg)).bind fun returnType s' h => .pure (by simpa using h)

theorem nests_methodFunction (hg : g.Ample) (isAsync generator : Bool) :
    NestsNode (methodFunction g isAsync generator) 1 := by
  refine .of_leads fun s h => ?_
  unfold methodFunction
  refine .ask_bind ?_
  refine (h.run_zero (nests_signature hg)).bind fun signature s' h => ?_
  exact (h.run (nests_block hg)).bind fun body s' h => h.finish (by simp +contextual)

theorem nests_functionHead (hg : g.Ample) :
    Nests (functionHead g) 0 (fun h => h.id.toList ++ h.returnType.toList) fun h => h.params := by
  refine .of_leads fun s h => ?_
  unfold functionHead
  refine (h.pass (grows_eatIf _)).bind fun isAsync s' h => ?_
  refine (h.pass (grows_expectKeyword _)).bind fun _ s' h => ?_
  refine (h.pass (grows_eatIf _)).bind fun generator s' h => ?_
  refine (h.run (nests_optionally (asks_ask _).grows nests_identifier)).bind fun id s' h => ?_
  exact (h.run (nests_signature hg)).bind fun signature s' h => .pure h

theorem nests_functionExpression (hg : g.Ample) : NestsNode (functionExpression g) 1 := by
  refine .of_leads fun s h => ?_
  unfold functionExpression
  refine .ask_bind ?_
  refine (h.run_zero (nests_functionHead hg)).bind fun head s' h => ?_
  refine (h.run (nests_block hg)).bind fun body s' h => h.finish ⟨le_rfl, ?_, by simp⟩
  simp +contextual [Node.children, Node.bindings, FunctionHead.withBody, or_imp]

theorem nests_functionDeclaration (hg : g.Ample) : NestsNode (functionDeclaration g) 1 := by
  refine .of_leads fun s h => ?_
  unfold functionDeclaration
  refine .ask_bind ?_
  refine (h.run_zero (nests_functionHead hg)).bind fun head s' h => .ask_bind ?_
  refine .ite (fun _ => ?_) fun _ => ?_
  · refine (h.run (nests_block hg)).bind fun body s' h => h.finish ⟨le_rfl, ?_, by simp⟩
    simp +contextual [Node.children, Node.bindings, FunctionHead.withBody, or_imp]
  · exact (h.pass grows_consumeSemicolon).bind fun _ s' h => h.finish (by simp +contextual)

theorem nests_classMember (hg : g.Ample) : NestsNode (classMember g) 1 := by
  refine .of_leads fun s h => ?_
  unfold classMember
  refine .ask_bind ?_
  refine .loop_bind (fun _ s' => Fitted s s' 1 [] []) h (fun _ _ h => h.frame)
    (fun isStatic s' h => ?_) fun isStatic s' h => ?_
  · refine .asks_bind asks_atMemberModifier fun atModifier _ => .ite (fun _ => ?_) fun _ => .pure h
    exact .ask_bind ((h.pass grows_skip).bind fun _ s' h => .pure h)
  refine .ask_bind (.ask_bind ?_)
  refine .when_bind (P := fun s' => Fitted s s' 1 [] []) (fun _ => .fail h.frame) (fun _ => h)
    fun s' h => ?_
  refine (h.pass grows_memberHead).bind fun head s' h => ?_
  refine (h.run_zero (nests_propertyKey hg)).bind ?_
  rintro ⟨key, computed⟩ s' h
  refine (h.pass (grows_eatIf _)).bind fun optional s' h => ?_
  refine .when_bind (P := fun s' => Fitted s s' 1 [key] []) (fun _ => h.pass (grows_eatIf _))
    (fun _ => h) fun s₁ h => .ask_bind (.ask_bind (.ite (fun _ => .ask_bind ?_) fun _ => ?_))
  · refine (h.run_zero (nests_signature hg)).bind fun signature s' h => ?_
    refine .ask_bind (.ite (fun _ => ?_) fun _ => ?_)
    · refine (h.run (nests_block hg)).bind fun body s' h => ?_
      refine (h.finish_beside (by simp +contextual)).bind fun value s' h => ?_
      refine .asks_bind (asks_isConstructorKey key computed) fun isConstructor _ => ?_
      exact h.finish (by simp +contextual)
    · exact (h.pass grows_consumeSemicolon).bind fun _ s' h => h.finish (by simp +contextual)
  · refine (h.run_zero (nests_typeAscription? hg)).bind fun ascription s' h => ?_
    refine (h.run_zero (nests_optionally (grows_eatIf _) (nests_withIn hg.assignment true))).bind
      fun value s' h => ?_
    exact (h.pass grows_consumeSemicolon).bind fun _ s' h => h.finish (by simp +contextual)

theorem nests_classBody (hg : g.Ample) : NestsNode (classBody g) 1 := by
  have hmember : Nests (do
      if ← eat .semicolon then return none
      else return some (← classMember g)) 1 Option.toList fun _ => [] := by
    refine .of_leads fun s h => ?_
    refine (h.pass (grows_eatIf _)).bind fun _ s' h => .ite (fun _ => .pure h) fun _ => ?_
    exact (h.run (nests_classMember hg)).bind fun member s' h => .pure h
  refine .of_leads fun s h => ?_
  unfold classBody
  refine .ask_bind ?_
  refine (h.pass (grows_expect _)).bind fun _ s' h => ?_
  refine (h.run (nests_itemsUntil _ hmember)).bind fun members s' h => ?_
  refine (h.pass (grows_expect _)).bind fun _ s' h => h.finish ⟨le_rfl, ?_, by simp⟩
  simp [Node.children, List.filterMap_eq_flatMap_toList]

theorem nests_superClass (hg : g.Ample) : NestsNode (superClass g) 2 := by
  refine .of_leads fun s h => ?_
  unfold superClass
  refine (h.run hg.leftHandSide).bind fun parent s' h => .ask_bind ?_
  exact .when_bind (P := fun s' => Fitted s s' 2 [parent] [])
    (fun _ => h.drop (nests_typeArguments hg)) (fun _ => h) fun s' h => .pure h

/-- Ends a class declaration. What it extends may take up one more than the rest. -/
theorem Fitted.finish_classDeclaration {start : Span} {id parent : Option NodeId} {body : NodeId}
    (h : Fitted b s k (id.toList ++ [body]) []) (hparent : Fitted b s (k + 1) parent.toList []) :
    Leads b s (Parser.finish start (.classDeclaration { id, superClass := parent, body }))
      fun id s' => Fitted b s' k [id] [] := by
  have hmem : ∀ c ∈ (Node.classDeclaration { id, superClass := parent, body }).children,
      c ∈ id.toList ++ [body] ∨ c ∈ parent.toList := by
    simp +contextual [Node.children, or_imp]
  refine ⟨h.frame.withTree (h.frame.tree.alloc fun c hc => ?_), fun i hi => ?_, fun hb i hi => ?_,
    by simp⟩
  · rcases hmem c hc with hc | hc
    · exact h.fresh c (List.mem_append_left _ hc)
    · exact hparent.fresh c (List.mem_append_left _ hc)
  · rw [List.mem_singleton.mp hi]
    exact h.frame.tree.size_le
  · rw [List.mem_singleton.mp hi]
    refine .alloc (by simp) (by simp) (by simp) (by simp) (Nat.zero_le _) fun c hc => ?_
    rcases hmem c hc with hc | hc
    · exact (h.free_fits hb c hc).mono (by simp) (Nat.le_add_right _ _)
    · refine (hparent.free_fits hb c hc).mono (by simp) ?_
      have hcredit : (Node.classDeclaration { id, superClass := parent, body }).credit c = 1 :=
        if_pos (Option.mem_toList.mp hc)
      rw [hcredit]
      exact (hb.room_add k 1).le

/-- A class fits like a block if it is declared, and as one of its operands if it is an
expression. -/
theorem nests_classLike (hg : g.Ample) (expression : Bool) :
    NestsNode (classLike g expression) (1 + expression.toNat) := by
  intro s
  have h := Fitted.refl (k := 1) s
  unfold classLike
  refine .ask_bind ?_
  refine (h.pass (grows_expectKeyword _)).bind fun _ s' h => ?_
  refine (h.run_zero (nests_optionally (asks_ask _).grows nests_identifier)).bind fun id s' h => ?_
  refine (h.pass grows_skipTypeParameters).bind fun _ s' h => ?_
  have hsuper := nests_optionally (grows_eatIf (·.isKeyword .extendsWord)) (nests_superClass hg)
  have hnone : Fitted s s' 2 [] [] := .of_frame h.frame
  refine ((h.drop hsuper).and (hnone.run hsuper)).bind ?_
  rintro parent s' ⟨h, hparent⟩
  refine ((h.pass (grows_eatIf _)).and (hparent.pass (grows_eatIf _))).bind ?_
  rintro _ s' ⟨h, hparent⟩
  refine .when_bind (P := fun s' => Fitted s s' 1 id.toList [] ∧ Fitted s s' 2 parent.toList [])
    (fun _ => ?_) (fun _ => ⟨h, hparent⟩) ?_
  · exact (h.drop (nests_separatedBy _ hg.type)).and (hparent.drop (nests_separatedBy _ hg.type))
  rintro s' ⟨h, hparent⟩
  refine ((h.run (nests_classBody hg)).and (hparent.drop (nests_classBody hg))).bind ?_
  rintro body s' ⟨h, hparent⟩
  cases expression with
  | true =>
    have hrest : Fitted s s' 2 (id.toList ++ [body]) [] :=
      h.weaken (Nat.le_succ 1) (List.Subset.refl _) (by simp)
    exact (hrest.merge hparent).finish (by simp +contextual)
  | false => exact Fitted.finish_classDeclaration h hparent

end Parse
end ScriptLint
