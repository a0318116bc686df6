import ScriptLint.Proofs.Parse.Module
import ScriptLint.Proofs.Parse.Nesting.Expression

namespace ScriptLint
namespace Parse

open ScriptLint.Parser

variable {g : Grammar} {b s : State} {k : Nat} {free bound : List NodeId}

attribute [local simp] Node.Encloses Node.cost Node.isBracket Node.children Node.bindings
  Node.Plain Node.infix? Node.applied? Node.isQuoted or_imp

theorem nests_parenExpression (hg : g.Ample) : NestsNode (parenExpression g) 0 := by
  refine .of_leads fun s h => ?_
  unfold parenExpression
  refine (h.pass (grows_expect _)).bind fun _ s' h => ?_
  refine (h.run (nests_withIn (nests_expression hg) true)).bind fun e s' h => ?_
  exact (h.pass (grows_expect _)).bind fun _ s' h => .pure h

theorem nests_expressionStatement (hg : g.Ample) : NestsNode (expressionStatement g) 0 := by
  refine .of_leads fun s h => ?_
  unfold expressionStatement
  refine .ask_bind ?_
  refine (h.run (nests_expression hg)).bind fun e s' h => ?_
  exact (h.pass grows_consumeSemicolon).bind fun _ s' h => h.finish (by simp +contextual)

theorem nests_variableDeclarator (hg : g.Ample) : NestsNode (variableDeclarator g) 0 := by
  refine .of_leads fun s h => ?_
  unfold variableDeclarator
  refine .ask_bind ?_
  refine (h.run (nests_annotatedBinding hg)).bind fun id s' h => ?_
  refine (h.run (nests_optionally (grows_eatIf _) hg.assignment)).bind fun init s' h => ?_
  exact h.finish (by simp +contextual)

theorem nests_variableDeclarations (hg : g.Ample) :
    Nests (variableDeclarations g) 0 Prod.snd fun _ => [] := by
  refine .of_leads fun s h => ?_
  unfold variableDeclarations
  refine (h.pass grows_advance).bind fun t s' h => ?_
  exact (h.run (nests_separatedBy _ (nests_variableDeclarator hg))).bind fun _ s' h => .pure h

theorem nests_variableStatement (hg : g.Ample) : NestsNode (variableStatement g) 0 := by
  refine .of_leads fun s h => ?_
  unfold variableStatement
  refine .ask_bind ((h.run (nests_variableDeclarations hg)).bind ?_)
  rintro ⟨kind, declarations⟩ s' h
  exact (h.pass grows_consumeSemicolon).bind fun _ s' h => h.finish (by simp +contextual)

theorem nests_variableHead (hg : g.Ample) : NestsNode (variableHead g) 0 := by
  refine .of_leads fun s h => ?_
  unfold variableHead
  refine .ask_bind ((h.run (nests_variableDeclarations hg)).bind ?_)
  rintro ⟨kind, declarations⟩ s' h
  exact h.finish (by simp +contextual)

theorem nests_ifStatement (hg : g.Ample) : NestsNode (ifStatement g) 0 := by
  refine .of_leads fun s h => ?_
  unfold ifStatement
  refine .ask_bind ?_
  refine (h.pass (grows_expectKeyword _)).bind fun _ s' h => ?_
  refine (h.run (nests_parenExpression hg)).bind fun test s' h => ?_
  refine (h.run hg.statement).bind fun consequent s' h => ?_
  refine (h.run (nests_optionally (grows_eatIf _) hg.statement)).bind fun alternate s' h => ?_
  exact h.finish (by simp +contextual)

theorem nests_forInit (hg : g.Ample) : Nests (forInit g) 0 Option.toList fun _ => [] := by
  refine .of_leads fun s h => ?_
  unfold forInit
  refine .ask_bind ?_
  split
  · exact .pure h
  · exact .map (h.run (nests_withIn (nests_variableHead hg) false))
  · exact .map (h.run (nests_withIn (nests_variableHead hg) false))
  · exact .map (h.run (nests_withIn (nests_variableHead hg) false))
  · exact .map (h.run (nests_withIn (nests_expression hg) false))

/-- The rest of a loop that began at `b`, after what stands first in its head. -/
theorem leads_fitted_forEach (hg : g.Ample) {start : Span} (isAwait isOf : Bool) {left : NodeId}
    (h : Fitted b s 0 [left] []) :
    Leads b s (forEach g start isAwait isOf left) fun id s' => Fitted b s' 0 [id] [] := by
  unfold forEach
  refine (h.pass grows_skip).bind fun _ s' h => ?_
  refine h.toPattern.bind fun _ s' h => ?_
  have hright : NestsNode (if isOf then g.assignment else expression g) 0 := by
    cases isOf with
    | true => exact hg.assignment
    | false => exact nests_expression hg
  refine (h.run (nests_withIn hright true)).bind fun right s' h => ?_
  refine (h.pass (grows_expect _)).bind fun _ s' h => ?_
  refine (h.run hg.statement).bind fun body s' h => ?_
  cases isOf with
  | true => exact h.finish (by simp +contextual)
  | false => exact h.finish (by simp +contextual)

theorem leads_fitted_forTestUpdate (hg : g.Ample) {start : Span} {init : Option NodeId}
    (h : Fitted b s 0 init.toList []) :
    Leads b s (forTestUpdate g start init) fun id s' => Fitted b s' 0 [id] [] := by
  unfold forTestUpdate
  have hexpression := nests_withIn (nests_expression hg) true
  refine (h.pass (grows_expect _)).bind fun _ s' h => .ask_bind ?_
  refine .either_bind
    (P := fun (test : Option NodeId) s' => Fitted b s' 0 (init.toList ++ test.toList) [])
    (fun _ => .pure (by simpa using h)) (fun _ => .map (h.run hexpression)) fun test s' h => ?_
  refine (h.pass (grows_expect _)).bind fun _ s' h => .ask_bind ?_
  refine .either_bind (P := fun (update : Option NodeId) s' =>
      Fitted b s' 0 (init.toList ++ test.toList ++ update.toList) [])
    (fun _ => .pure (by simpa using h)) (fun _ => .map (h.run hexpression)) fun update s' h => ?_
  refine (h.pass (grows_expect _)).bind fun _ s' h => ?_
  exact (h.run hg.statement).bind fun body s' h => h.finish (by simp +contextual)

theorem nests_forStatement (hg : g.Ample) : NestsNode (forStatement g) 0 := by
  refine .of_leads fun s h => ?_
  unfold forStatement
  refine .ask_bind ?_
  refine (h.pass (grows_expectKeyword _)).bind fun _ s' h => ?_
  refine (h.pass (grows_eatIf _)).bind fun isAwait s' h => ?_
  refine (h.pass (grows_expect _)).bind fun _ s' h => ?_
  refine (h.run (nests_forInit hg)).bind fun init s' h => .ask_bind (.ask_bind ?_)
  split
  · refine .ite (fun _ => ?_) fun _ => ?_
    · exact leads_fitted_forEach hg isAwait _ h
    · exact leads_fitted_forTestUpdate hg h
  · exact leads_fitted_forTestUpdate hg h

theorem nests_whileStatement (hg : g.Ample) : NestsNode (whileStatement g) 0 := by
  refine .of_leads fun s h => ?_
  unfold whileStatement
  refine .ask_bind ?_
  refine (h.pass (grows_expectKeyword _)).bind fun _ s' h => ?_
  refine (h.run (nests_parenExpression hg)).bind fun test s' h => ?_
  exact (h.run hg.statement).bind fun body s' h => h.finish (by simp +contextual)

theorem nests_doWhileStatement (hg : g.Ample) : NestsNode (doWhileStatement g) 0 := by
  refine .of_leads fun s h => ?_
  unfold doWhileStatement
  refine .ask_bind ?_
  refine (h.pass (grows_expectKeyword _)).bind fun _ s' h => ?_
  refine (h.run hg.statement).bind fun body s' h => ?_
  refine (h.pass (grows_expectKeyword _)).bind fun _ s' h => ?_
  refine (h.run (nests_parenExpression hg)).bind fun test s' h => ?_
  exact (h.pass (grows_eatIf _)).bind fun _ s' h => h.finish (by simp +contextual)

theorem nests_returnStatement (hg : g.Ample) : NestsNode (returnStatement g) 0 := by
  refine .of_leads fun s h => ?_
  unfold returnStatement
  refine .ask_bind ?_
  refine (h.pass (grows_expectKeyword _)).bind fun _ s' h => .ask_bind ?_
  refine .either_bind (P := fun (argument : Option NodeId) s' => Fitted s s' 0 argument.toList [])
    (fun _ => .pure h) (fun _ => .map (h.run (nests_expression hg))) fun argument s' h => ?_
  exact (h.pass grows_consumeSemicolon).bind fun _ s' h => h.finish (by simp +contextual)

/-- A jump is a node around its label. -/
theorem nests_jumpStatement {make : Option NodeId → Node}
    (hchildren : ∀ label, (make label).children = label.toList)
    (hcost : ∀ label, (make label).cost false = 0)
    (hplain : ∀ label, (make label).Plain) :
    NestsNode (jumpStatement make) 0 := by
  refine .of_leads fun s h => ?_
  unfold jumpStatement
  refine .ask_bind ((h.pass grows_skip).bind fun _ s' h => .ask_bind (.ask_bind ?_))
  refine .either_bind (P := fun (label : Option NodeId) s' => Fitted s s' 0 label.toList [])
    (fun _ => .map (h.run nests_identifier)) (fun _ => .pure h) fun label s' h => ?_
  refine (h.pass grows_consumeSemicolon).bind fun _ s' h => ?_
  exact h.finish ⟨by rw [hcost], by simp [hchildren, -Node.children], hplain label⟩

theorem nests_throwStatement (hg : g.Ample) : NestsNode (throwStatement g) 0 := by
  refine .of_leads fun s h => ?_
  unfold throwStatement
  refine .ask_bind ?_
  refine (h.pass (grows_expectKeyword _)).bind fun _ s' h => ?_
  refine (h.run (nests_expression hg)).bind fun argument s' h => ?_
  exact (h.pass grows_consumeSemicolon).bind fun _ s' h => h.finish (by simp +contextual)

theorem nests_catchParameter (hg : g.Ample) : NestsBinding (catchParameter g) := by
  refine .of_leads fun s h => ?_
  unfold catchParameter
  refine (h.run (nests_annotatedBinding hg)).bind fun param s' h => ?_
  exact (h.pass (grows_expect _)).bind fun _ s' h => .pure h

theorem nests_catchClause (hg : g.Ample) : NestsNode (catchClause g) 1 := by
  refine .of_leads fun s h => ?_
  unfold catchClause
  refine .ask_bind ?_
  refine (h.pass grows_skip).bind fun _ s' h => ?_
  refine .bind (P := fun (param : Option NodeId) s' => Fitted s s' 1 [] param.toList) ?_
    fun param s' h => ?_
  · refine (h.pass (grows_eatIf _)).bind fun _ s' h => .ite (fun _ => ?_) fun _ => .pure h
    exact (h.run_zero (nests_catchParameter hg)).bind fun param s' h => .pure h
  · exact (h.run (nests_block hg)).bind fun body s' h => h.finish (by simp +contextual)

theorem nests_tryStatement (hg : g.Ample) : NestsNode (tryStatement g) 1 := by
  refine .of_leads fun s h => ?_
  unfold tryStatement
  refine .ask_bind ?_
  refine (h.pass (grows_expectKeyword _)).bind fun _ s' h => ?_
  refine (h.run (nests_block hg)).bind fun body s' h => ?_
  refine (h.run (nests_optionally (asks_ask _).grows (nests_catchClause hg))).bind
    fun handler s' h => ?_
  refine (h.run (nests_optionally (grows_eatIf _) (nests_block hg))).bind fun finalizer s' h => ?_
  exact .ite (fun _ => .ask_bind (.fail h.frame)) fun _ => h.finish (by simp +contextual)

/-- The statements of a `case`, after its test. -/
theorem leads_fitted_caseBody (hg : g.Ample) {start : Span} {test : Option NodeId}
    (h : Fitted b s 0 test.toList []) :
    Leads b s (do
      expect .colon
      let consequent ← loop [] fun statements => do
        if ← atCaseEnd then return .stop statements
        else return .next ((← g.statement) :: statements)
      finish start (.switchCase test consequent.reverse)) fun id s' => Fitted b s' 0 [id] [] := by
  refine (h.pass (grows_expect _)).bind fun _ s' h => ?_
  refine .loop_bind (fun statements s' => Fitted b s' 0 (test.toList ++ statements.reverse) [])
    (by simpa using h) (fun _ _ h => h.frame) (fun statements s' h => ?_)
    fun consequent s' h => h.finish (by simp +contextual)
  refine .ask_bind (.ite (fun _ => .pure h) fun _ => ?_)
  refine (h.run hg.statement).bind fun statement s' h => .pure ?_
  simpa [Leads.Turn] using h

theorem nests_switchCase (hg : g.Ample) : NestsNode (switchCase g) 0 := by
  refine .of_leads fun s h => ?_
  unfold switchCase
  refine .ask_bind ?_
  refine (h.pass (grows_eatIf _)).bind fun isCase s' h => .ite (fun _ => ?_) fun _ => ?_
  · exact .bind (P := fun (test : Option NodeId) s' => Fitted s s' 0 test.toList [])
      (.map (h.run (nests_expression hg))) fun test s' h => leads_fitted_caseBody hg h
  · refine (h.pass (grows_expectKeyword _)).bind fun _ s' h => ?_
    exact .bind (P := fun (test : Option NodeId) s' => Fitted s s' 0 test.toList [])
      (.pure h) fun test s' h => leads_fitted_caseBody hg h

theorem nests_switchStatement (hg : g.Ample) : NestsNode (switchStatement g) 0 := by
  refine .of_leads fun s h => ?_
  unfold switchStatement
  refine .ask_bind ?_
  refine (h.pass (grows_expectKeyword _)).bind fun _ s' h => ?_
  refine (h.run (nests_parenExpression hg)).bind fun discriminant s' h => ?_
  refine (h.pass (grows_expect _)).bind fun _ s' h => ?_
  refine (h.run (nests_itemsUntil _ (nests_switchCase hg))).bind fun cases s' h => ?_
  exact (h.pass (grows_expect _)).bind fun _ s' h => h.finish (by simp +contextual)

theorem nests_labeledStatement (hg : g.Ample) : NestsNode (labeledStatement g) 0 := by
  refine .of_leads fun s h => ?_
  unfold labeledStatement
  refine .ask_bind ?_
  refine (h.run nests_identifier).bind fun label s' h => ?_
  refine (h.pass (grows_expect _)).bind fun _ s' h => ?_
  exact (h.run hg.statement).bind fun body s' h => h.finish (by simp +contextual)

theorem nests_debuggerStatement : NestsNode debuggerStatement 0 := by
  refine .of_leads fun s h => ?_
  unfold debuggerStatement
  refine .ask_bind ((h.pass grows_skip).bind fun _ s' h => ?_)
  exact (h.pass grows_consumeSemicolon).bind fun _ s' h => h.finish (by simp +contextual)

theorem nests_typeAlias (hg : g.Ample) : NestsNode (typeAlias g) 0 := by
  refine .of_leads fun s h => ?_
  unfold typeAlias
  refine .ask_bind ?_
  refine (h.pass (grows_expectName _)).bind fun _ s' h => ?_
  refine (h.run nests_identifier).bind fun id s' h => ?_
  refine (h.pass grows_skipTypeParameters).bind fun _ s' h => ?_
  refine (h.pass (grows_expect _)).bind fun _ s' h => ?_
  refine (h.run hg.type).bind fun type s' h => ?_
  exact (h.pass grows_consumeSemicolon).bind fun _ s' h => h.finish (by simp +contextual)

theorem nests_interfaceDeclaration (hg : g.Ample) : NestsNode (interfaceDeclaration g) 0 := by
  refine .of_leads fun s h => ?_
  unfold interfaceDeclaration
  refine .ask_bind ?_
  refine (h.pass (grows_expectName _)).bind fun _ s' h => ?_
  refine (h.run nests_identifier).bind fun id s' h => ?_
  refine (h.pass grows_skipTypeParameters).bind fun _ s' h => ?_
  refine (h.pass (grows_eatIf _)).bind fun extending s' h => ?_
  refine .either_bind (fun _ => h.run (nests_separatedBy _ hg.type)) (fun _ => .pure ?_)
    fun parents s' h => ?_
  · simpa using h
  · exact (h.run (nests_typeMembers hg)).bind fun body s' h => h.finish (by simp +contextual)

theorem nests_moduleName : NestsNode moduleName 0 := by
  refine .of_leads fun s h => ?_
  unfold moduleName
  refine .ask_bind ?_
  split
  · exact h.run nests_stringLiteral
  · exact h.run nests_propertyIdentifier

theorem nests_importSpecifier : NestsNode importSpecifier 0 := by
  refine .of_leads fun s h => ?_
  unfold importSpecifier
  refine .ask_bind (.ask_bind ?_)
  refine .when_bind (P := fun s' => Fitted s s' 0 [] []) (fun _ => h.pass grows_skip) (fun _ => h)
    fun s₁ h => .ask_bind ?_
  refine (h.run nests_moduleName).bind fun imported s' h => ?_
  refine (h.pass (grows_eatIf _)).bind fun renamed s' h => ?_
  refine .either_bind (P := fun localName s' => Fitted s s' 0 [imported, localName] [])
    (fun _ => h.run nests_identifier) (fun _ => .pure (h.sub (by simp) (by simp)))
    fun localName s' h => h.finish ⟨le_rfl, fun c hc => ?_, by simp⟩
  simpa using Node.mem_distinct.mp hc

theorem nests_importDefault : Nests importDefault 0 id fun _ => [] := by
  refine .of_leads fun s h => ?_
  unfold importDefault
  refine .ask_bind (.ite (fun _ => .ask_bind ?_) fun _ => .pure h)
  refine (h.run nests_identifier).bind fun localName s' h => ?_
  refine (h.finish ⟨le_rfl, by simp +contextual, by simp⟩).bind fun specifier s' h => ?_
  exact (h.pass (grows_eatIf _)).bind fun _ s' h => .pure h

theorem nests_importNames : Nests importNames 0 id fun _ => [] := by
  refine .of_leads fun s h => ?_
  unfold importNames
  refine .ask_bind (.ite (fun _ => .ask_bind ?_) fun _ => ?_)
  · refine (h.pass grows_skip).bind fun _ s' h => ?_
    refine (h.pass (grows_expectName _)).bind fun _ s' h => ?_
    refine (h.run nests_identifier).bind fun localName s' h => ?_
    exact (h.finish (by simp +contextual)).bind fun specifier s' h => .pure h
  · refine (h.pass (grows_eatIf _)).bind fun _ s' h => .ite (fun _ => ?_) fun _ => .pure h
    refine (h.run (nests_commaSeparated _ nests_importSpecifier)).bind fun specifiers s' h => ?_
    exact (h.pass (grows_expect _)).bind fun _ s' h => .pure (h.sub (by simp) (by simp))

theorem nests_importClause : Nests importClause 0 id fun _ => [] := by
  refine .of_leads fun s h => ?_
  unfold importClause
  refine .ask_bind ?_
  split
  · exact .pure h
  · refine (h.run nests_importDefault).bind fun default s' h => ?_
    refine (h.run nests_importNames).bind fun names s' h => ?_
    exact (h.pass (grows_expectName _)).bind fun _ s' h => .pure (h.sub (by simp) (by simp))

theorem nests_importDeclaration : NestsNode importDeclaration 0 := by
  refine .of_leads fun s h => ?_
  unfold importDeclaration
  refine .ask_bind ?_
  refine (h.pass (grows_expectKeyword _)).bind fun _ s' h => ?_
  refine (h.pass grows_skipTypeWord).bind fun _ s' h => ?_
  refine (h.run nests_importClause).bind fun specifiers s' h => ?_
  refine (h.run nests_stringLiteral).bind fun source s' h => ?_
  refine (h.pass grows_skipImportAttributes).bind fun _ s' h => ?_
  exact (h.pass grows_consumeSemicolon).bind fun _ s' h => h.finish (by simp +contextual)

theorem nests_exportSpecifier : NestsNode exportSpecifier 0 := by
  refine .of_leads fun s h => ?_
  unfold exportSpecifier
  refine .ask_bind ?_
  refine (h.run nests_moduleName).bind fun localName s' h => ?_
  refine (h.pass (grows_eatIf _)).bind fun renamed s' h => ?_
  refine .either_bind (P := fun exported s' => Fitted s s' 0 [localName, exported] [])
    (fun _ => h.run nests_moduleName) (fun _ => .pure (h.sub (by simp) (by simp)))
    fun exported s' h => h.finish ⟨le_rfl, fun c hc => ?_, by simp⟩
  simpa using Node.mem_distinct.mp hc

theorem nests_defaultDeclaration (hg : g.Ample) : NestsNode (defaultDeclaration g) 1 := by
  refine .of_leads fun s h => ?_
  unfold defaultDeclaration
  refine .ask_bind ?_
  split
  · exact h.run (nests_functionDeclaration hg)
  · exact h.run (nests_classLike hg false)
  · refine .ask_bind (.ite (fun _ => h.run (nests_functionDeclaration hg)) fun _ => ?_)
    refine (h.run_zero hg.assignment).bind fun e s' h => ?_
    exact (h.pass grows_consumeSemicolon).bind fun _ s' h => .pure h

/-- The rest of an export that began at `b`. -/
theorem leads_fitted_exportAll {start : Span} (h : Fitted b s k [] []) :
    Leads b s (exportAll start) fun id s' => Fitted b s' k [id] [] := by
  unfold exportAll
  refine (h.run_zero (nests_optionally (grows_eatIf _) nests_moduleName)).bind
    fun exported s' h => ?_
  refine (h.pass (grows_expectName _)).bind fun _ s' h => ?_
  refine (h.run_zero nests_stringLiteral).bind fun source s' h => ?_
  exact (h.pass grows_consumeSemicolon).bind fun _ s' h => h.finish (by simp +contextual)

theorem leads_fitted_exportNames {start : Span} (h : Fitted b s k [] []) :
    Leads b s (exportNames start) fun id s' => Fitted b s' k [id] [] := by
  unfold exportNames
  refine (h.run_zero (nests_commaSeparated _ nests_exportSpecifier)).bind fun specifiers s' h => ?_
  refine (h.pass (grows_expect _)).bind fun _ s' h => ?_
  refine (h.run_zero (nests_optionally (grows_eatIf _) nests_stringLiteral)).bind
    fun source s' h => ?_
  exact (h.pass grows_consumeSemicolon).bind fun _ s' h => h.finish (by simp +contextual)

theorem nests_exportDeclaration (hg : g.Ample) : NestsNode (exportDeclaration g) 1 := by
  refine .of_leads fun s h => ?_
  unfold exportDeclaration
  refine .ask_bind ?_
  refine (h.pass (grows_expectKeyword _)).bind fun _ s' h => ?_
  refine (h.pass (grows_eatIf _)).bind fun _ s' h => .ite (fun _ => ?_) fun _ => ?_
  · exact (h.run (nests_defaultDeclaration hg)).bind
      fun declaration s' h => h.finish (by simp +contextual)
  refine (h.pass (grows_eatIf _)).bind fun _ s' h =>
    .ite (fun _ => leads_fitted_exportAll h) fun _ => ?_
  refine .ask_bind (.ask_bind (.when_bind (P := fun s' => Fitted s s' 1 [] [])
    (fun _ => h.pass grows_skip) (fun _ => h) fun s' h => ?_))
  refine (h.pass (grows_eatIf _)).bind fun _ s' h =>
    .ite (fun _ => leads_fitted_exportNames h) fun _ => ?_
  exact (h.run_zero hg.statement).bind fun declaration s' h => h.finish (by simp +contextual)

theorem nests_namedStatement (hg : g.Ample) (name : String) :
    NestsNode (namedStatement g name) 1 := by
  refine .of_leads fun s h => ?_
  unfold namedStatement
  refine .ask_bind (.ask_bind ?_)
  refine .ite (fun _ => h.run (nests_functionDeclaration hg)) fun _ => ?_
  refine .ite (fun _ => h.run_zero (nests_typeAlias hg)) fun _ => ?_
  refine .ite (fun _ => h.run_zero (nests_interfaceDeclaration hg)) fun _ =>
    .ite (fun _ => ?_) fun _ => ?_
  · exact (h.pass grows_skip).bind fun _ s' h => h.run_zero hg.statement
  · exact .ite (fun _ => h.run_zero (nests_labeledStatement hg))
      fun _ => h.run_zero (nests_expressionStatement hg)

theorem nests_statement (hg : g.Ample) : NestsNode (statement g) 0 := by
  refine nests_nested (.of_leads fun s h => .ask_bind ?_)
  split
  · exact h.run (nests_block hg)
  · exact leads_fitted_word rfl rfl (by simp) rfl
  · exact h.run_zero (nests_variableStatement hg)
  · exact h.run_zero (nests_variableStatement hg)
  · exact h.run_zero (nests_variableStatement hg)
  · exact h.run (nests_functionDeclaration hg)
  · exact h.run (nests_classLike hg false)
  · exact h.run_zero (nests_ifStatement hg)
  · exact h.run_zero (nests_forStatement hg)
  · exact h.run_zero (nests_whileStatement hg)
  · exact h.run_zero (nests_doWhileStatement hg)
  · exact h.run_zero (nests_returnStatement hg)
  · exact h.run_zero (nests_jumpStatement (fun _ => rfl) (fun _ => rfl) (by simp))
  · exact h.run_zero (nests_jumpStatement (fun _ => rfl) (fun _ => rfl) (by simp))
  · exact h.run_zero (nests_throwStatement hg)
  · exact h.run (nests_tryStatement hg)
  · exact h.run_zero (nests_switchStatement hg)
  · exact h.run_zero nests_debuggerStatement
  · exact .ask_bind (.ite (fun _ => h.run_zero nests_importDeclaration)
      fun _ => h.run_zero (nests_expressionStatement hg))
  · exact h.run (nests_exportDeclaration hg)
  · exact h.run (nests_namedStatement hg _)
  · exact h.run_zero (nests_expressionStatement hg)

end Parse

namespace Grammar

open Parse

theorem ample_exhausted : exhausted.Ample := by
  have hnever : ∀ (e : State → ParseError) (k : Nat), NestsNode (fun s => (.error (e s), s)) k :=
    fun _ _ s => Frame.refl s
  exact ⟨sound_exhausted, fun _ s => Frame.refl s, hnever _ _, hnever _ _, fun _ => hnever _ _,
    hnever _ _, hnever _ _, hnever _ _, fun s => Frame.refl s, hnever _ _, hnever _ _,
    fun s => Frame.refl s⟩

theorem Ample.above {g : Grammar} (hg : g.Ample) : g.above.Ample where
  sound := hg.sound.above
  operand := operand_binary hg.sound
  statement := nests_statement hg
  assignment := nests_assignment hg
  binary := nests_binary hg
  unary := nests_unary hg
  leftHandSide := nests_leftHandSide hg
  new := nests_newExpression hg
  construction := covering_newExpression hg.sound
  type := nests_type hg
  typeOperator := nests_typeOperator hg
  bindingTarget _ := leads_pending_bindingTarget hg

/-- What the grammar makes fits however many levels it has. -/
theorem ample_upTo (n : Nat) : (upTo n).Ample := by
  induction n with
  | zero => exact ample_exhausted
  | succ n ih => exact ih.above

end Grammar
end ScriptLint
