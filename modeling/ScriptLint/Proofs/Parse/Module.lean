import ScriptLint.Proofs.Parse.Statement
import ScriptLint.Parse.Program

namespace ScriptLint
namespace Parse

open ScriptLint.Parser

variable {g : Grammar} {b s : State} {m : Bool} {ids held : List NodeId}

theorem grows_moduleName : GrowsNode moduleName := by
  refine .of_leads fun s h => ?_
  unfold moduleName
  refine .ask_bind ?_
  split
  · exact h.run grows_stringLiteral
  · exact h.run grows_propertyIdentifier

theorem grows_skipThrough (close : Nat) : GrowsNone (skipThrough close) false := by
  refine .of_leads fun s h => ?_
  unfold skipThrough
  refine .loop (fun _ s' => Grown s s' false []) h (fun _ _ h => h.frame) fun _ s' h => ?_
  refine .ask_bind (.ite (fun _ => ?_) fun _ => .pure h)
  exact (h.run grows_skip).bind fun _ s' h => .pure h

theorem grows_skipImportAttributes : GrowsNone skipImportAttributes false := by
  refine .of_leads fun s h => ?_
  unfold skipImportAttributes
  refine .ask_bind (.ite (fun _ => ?_) fun _ => .pure h)
  refine (h.run grows_skip).bind fun _ s' h => .ask_bind ?_
  split
  · exact h.run (grows_skipThrough _)
  · exact .unexpected h.frame

theorem grows_skipTypeWord : GrowsNone skipTypeWord false := by
  refine .of_leads fun s h => ?_
  unfold skipTypeWord
  refine .ask_bind (.ite (fun _ => .ask_bind ?_) fun _ => .pure h)
  split
  · exact h.run grows_skip
  · exact h.run grows_skip
  · exact .ite (fun _ => h.run grows_skip) fun _ => .pure h
  · exact .pure h

/-- What is imported under its own name is one node, and else two. -/
theorem grows_importSpecifier : GrowsNode importSpecifier := by
  refine .of_leads fun s h => ?_
  unfold importSpecifier
  refine .ask_bind (.ask_bind ?_)
  refine .when_bind (P := fun s' => Grown s s' false []) (fun _ => h.run grows_skip) (fun _ => h)
    fun s₁ hskip => .ask_bind ?_
  refine .mono (.rebase (.bind ((Growth.refl s₁).run grows_moduleName) fun imported s' h => ?_)
    hskip.frame) fun id s' h => hskip.append h
  refine (h.run (grows_eatIf _)).bind fun renamed s' h => ?_
  refine .either_bind (P := fun localName s' => Grown s₁ s' false (Node.distinct imported localName))
    (fun _ => ?_) (fun _ => .pure ?_) fun localName s' h => ?_
  · exact (h.run grows_identifier).mono fun localName s' h => (h.done rfl).distinct
  · simpa [Node.distinct] using h
  · exact h.finish rfl rfl (.inr (by unfold Node.distinct; split <;> simp))

theorem grows_importDefault : Grows importDefault false id := by
  refine .of_leads fun s h => ?_
  unfold importDefault
  refine .ask_bind (.ite (fun _ => .ask_bind ?_) fun _ => .pure h)
  refine (h.run grows_identifier).bind fun localName s' h => ?_
  refine (h.finish rfl rfl (by simp)).bind fun specifier s' h => ?_
  exact (h.run (grows_eatIf _)).bind fun _ s' h => .pure h

theorem grows_importNames : Grows importNames false id := by
  refine .of_leads fun s h => ?_
  unfold importNames
  refine .ask_bind (.ite (fun _ => .ask_bind ?_) fun _ => ?_)
  · refine (h.run grows_skip).bind fun _ s' h => ?_
    refine (h.run (grows_expectName _)).bind fun _ s' h => ?_
    refine (h.run grows_identifier).bind fun localName s' h => ?_
    exact (h.finish rfl rfl (by simp)).bind fun specifier s' h => .pure h
  · refine (h.run (grows_eatIf _)).bind fun _ s' h => .ite (fun _ => ?_) fun _ => .pure h
    refine (h.run (grows_commaSeparated _ grows_importSpecifier)).bind fun specifiers s' h => ?_
    exact (h.run (grows_expect _)).bind fun _ s' h => .pure (h.done (by simp))

theorem grows_importClause : Grows importClause false id := by
  refine .of_leads fun s h => ?_
  unfold importClause
  refine .ask_bind ?_
  split
  · exact .pure h
  · refine (h.run grows_importDefault).bind fun default s' h => ?_
    refine (h.run grows_importNames).bind fun names s' h => ?_
    exact (h.run (grows_expectName _)).bind fun _ s' h => .pure (h.done (by simp))

theorem grows_importDeclaration : GrowsNode importDeclaration := by
  refine .of_leads fun s h => ?_
  unfold importDeclaration
  refine .ask_bind ?_
  refine (h.run (grows_expectKeyword _)).bind fun _ s' h => ?_
  refine (h.run grows_skipTypeWord).bind fun _ s' h => ?_
  refine (h.run grows_importClause).bind fun specifiers s' h => ?_
  refine (h.run grows_stringLiteral).bind fun source s' h => ?_
  refine (h.run grows_skipImportAttributes).bind fun _ s' h => ?_
  refine (h.run grows_consumeSemicolon).bind fun _ s' h => ?_
  exact h.finish (by simp [Node.children]) rfl (by simp)

theorem grows_exportSpecifier : GrowsNode exportSpecifier := by
  refine .of_leads fun s h => ?_
  unfold exportSpecifier
  refine .ask_bind ?_
  refine (h.run grows_moduleName).bind fun localName s' h => ?_
  refine (h.run (grows_eatIf _)).bind fun renamed s' h => ?_
  refine .either_bind (P := fun exported s' => Grown s s' false (Node.distinct localName exported))
    (fun _ => ?_) (fun _ => .pure ?_) fun exported s' h => ?_
  · exact (h.run grows_moduleName).mono fun exported s' h => (h.done rfl).distinct
  · simpa [Node.distinct] using h
  · exact h.finish rfl rfl (.inr (by unfold Node.distinct; split <;> simp))

theorem grows_defaultDeclaration (hg : g.Sound) : GrowsNode (defaultDeclaration g) := by
  refine .of_leads fun s h => ?_
  unfold defaultDeclaration
  refine .ask_bind ?_
  split
  · exact h.run (grows_functionDeclaration hg)
  · exact h.run (grows_classLike hg false)
  · refine .ask_bind (.ite (fun _ => h.run (grows_functionDeclaration hg)) fun _ => ?_)
    refine (h.run hg.assignment).bind fun e s' h => ?_
    exact (h.run grows_consumeSemicolon).bind fun _ s' h => .pure h

/-- The rest of an export that began at `b`. -/
theorem leads_exportAll (h : Grown b s true []) :
    Leads b s (exportAll b.currentSpan) fun id s' => Grown b s' false [id] := by
  unfold exportAll
  refine (h.run (grows_optionally (grows_eatIf _) grows_moduleName)).bind fun exported s' h => ?_
  refine (h.run (grows_expectName _)).bind fun _ s' h => ?_
  refine (h.run grows_stringLiteral).bind fun source s' h => ?_
  refine (h.run grows_consumeSemicolon).bind fun _ s' h => ?_
  exact h.finish (by simp [Node.children]) rfl (by simp)

theorem leads_exportNames (h : Grown b s true []) :
    Leads b s (exportNames b.currentSpan) fun id s' => Grown b s' false [id] := by
  unfold exportNames
  refine (h.run (grows_commaSeparated _ grows_exportSpecifier)).bind fun specifiers s' h => ?_
  refine (h.run (grows_expect _)).bind fun _ s' h => ?_
  refine (h.run (grows_optionally (grows_eatIf _) grows_stringLiteral)).bind fun source s' h => ?_
  refine (h.run grows_consumeSemicolon).bind fun _ s' h => ?_
  exact h.finish (by simp [Node.children]) rfl (by simp)

theorem grows_exportDeclaration (hg : g.Sound) : GrowsNode (exportDeclaration g) := by
  refine .of_leads fun s h => ?_
  unfold exportDeclaration
  refine .ask_bind ?_
  refine (h.run (grows_expectKeyword _)).bind fun _ s' h => ?_
  refine (h.run (grows_eatIf _)).bind fun _ s' h => .ite (fun _ => ?_) fun _ => ?_
  · refine (h.run (grows_defaultDeclaration hg)).bind fun declaration s' h => ?_
    exact h.finish rfl rfl (by simp)
  refine (h.run (grows_eatIf _)).bind fun _ s' h => .ite (fun _ => leads_exportAll h) fun _ => ?_
  refine .ask_bind (.ask_bind (.when_bind (P := fun s' => Grown s s' true [])
    (fun _ => h.run grows_skip) (fun _ => h) fun s' h => ?_))
  refine (h.run (grows_eatIf _)).bind fun _ s' h => .ite (fun _ => leads_exportNames h) fun _ => ?_
  refine (h.run hg.statement).bind fun declaration s' h => ?_
  exact h.finish rfl rfl (by simp)

theorem grows_namedStatement (hg : g.Sound) (name : String) : GrowsNode (namedStatement g name) := by
  refine .of_leads fun s h => ?_
  unfold namedStatement
  refine .ask_bind (.ask_bind ?_)
  refine .ite (fun _ => h.run (grows_functionDeclaration hg)) fun _ => ?_
  refine .ite (fun _ => h.run (grows_typeAlias hg)) fun _ => ?_
  refine .ite (fun _ => h.run (grows_interfaceDeclaration hg)) fun _ => .ite (fun _ => ?_) fun _ => ?_
  · refine (h.run grows_skip).bind fun _ s' h => ?_
    exact h.run hg.statement
  · exact .ite (fun _ => h.run (grows_labeledStatement hg))
      fun _ => h.run (grows_expressionStatement hg)

theorem grows_statement (hg : g.Sound) : GrowsNode (statement g) := by
  refine grows_nested (.of_leads fun s h => .ask_bind ?_)
  split
  · exact h.run (grows_block hg)
  · next hcurrent => exact leads_word (by simp [hcurrent, Token.isEof]) rfl rfl
  · exact h.run (grows_variableStatement hg)
  · exact h.run (grows_variableStatement hg)
  · exact h.run (grows_variableStatement hg)
  · exact h.run (grows_functionDeclaration hg)
  · exact h.run (grows_classLike hg false)
  · exact h.run (grows_ifStatement hg)
  · exact h.run (grows_forStatement hg)
  · exact h.run (grows_whileStatement hg)
  · exact h.run (grows_doWhileStatement hg)
  · exact h.run (grows_returnStatement hg)
  · next hcurrent =>
    exact leads_jumpStatement (by simp [hcurrent, Token.isEof]) (fun _ => rfl) fun _ => rfl
  · next hcurrent =>
    exact leads_jumpStatement (by simp [hcurrent, Token.isEof]) (fun _ => rfl) fun _ => rfl
  · exact h.run (grows_throwStatement hg)
  · exact h.run (grows_tryStatement hg)
  · exact h.run (grows_switchStatement hg)
  · next hcurrent => exact leads_debuggerStatement (by simp [hcurrent, Token.isEof])
  · exact .ask_bind (.ite (fun _ => h.run grows_importDeclaration)
      fun _ => h.run (grows_expressionStatement hg))
  · exact h.run (grows_exportDeclaration hg)
  · exact h.run (grows_namedStatement hg _)
  · exact h.run (grows_expressionStatement hg)

end Parse

namespace Grammar

open Parse

theorem sound_exhausted : exhausted.Sound := by
  have hnever : ∀ e : State → ParseError, GrowsNode fun s => (.error (e s), s) :=
    fun _ s => Frame.refl s
  exact ⟨hnever _, hnever _, fun _ => hnever _, hnever _, hnever _, hnever _, hnever _, hnever _,
    fun s => Frame.refl s⟩

theorem Sound.above {g : Grammar} (hg : g.Sound) : g.above.Sound where
  statement := grows_statement hg
  assignment := grows_assignment hg
  binary := grows_binary hg
  unary := grows_unary hg
  leftHandSide := grows_leftHandSide hg
  new := grows_newExpression hg
  type := grows_type hg
  typeOperator := grows_typeOperator hg
  bindingTarget _ := leads_bindingTarget hg

/-- The grammar is sound however many levels it has. -/
theorem sound_upTo (n : Nat) : (upTo n).Sound := by
  induction n with
  | zero => exact sound_exhausted
  | succ n ih => exact ih.above

end Grammar
end ScriptLint
