import ScriptLint.Proofs.Parse.Expression

namespace ScriptLint
namespace Parse

open ScriptLint.Parser

variable {g : Grammar} {b s : State} {m : Bool} {ids held : List NodeId}

theorem grows_parenExpression (hg : g.Sound) : GrowsNode (parenExpression g) := by
  refine .of_leads fun s h => ?_
  unfold parenExpression
  refine (h.run (grows_expect _)).bind fun _ s' h => ?_
  refine (h.run (grows_withIn (grows_expression hg) true)).bind fun e s' h => ?_
  exact (h.run (grows_expect _)).bind fun _ s' h => .pure (h.done rfl)

theorem grows_expressionStatement (hg : g.Sound) : GrowsNode (expressionStatement g) := by
  refine .of_leads fun s h => ?_
  unfold expressionStatement
  refine .ask_bind ?_
  refine (h.run (grows_expression hg)).bind fun e s' h => ?_
  refine (h.run grows_consumeSemicolon).bind fun _ s' h => ?_
  exact h.finish rfl rfl (by simp)

theorem grows_variableDeclarator (hg : g.Sound) : GrowsNode (variableDeclarator g) := by
  refine .of_leads fun s h => ?_
  unfold variableDeclarator
  refine .ask_bind ?_
  refine (h.run (grows_annotatedBinding hg)).bind fun id s' h => ?_
  refine (h.run (grows_optionally (grows_eatIf _) hg.assignment)).bind fun init s' h => ?_
  exact h.finish rfl rfl (by simp)

theorem grows_variableDeclarations (hg : g.Sound) :
    Grows (variableDeclarations g) true Prod.snd := by
  refine .of_leads fun s h => ?_
  unfold variableDeclarations
  refine (h.run grows_advance).bind fun t s' h => ?_
  exact (h.run (grows_separatedBy _ (grows_variableDeclarator hg))).bind fun _ s' h => .pure h

theorem grows_variableStatement (hg : g.Sound) : GrowsNode (variableStatement g) := by
  refine .of_leads fun s h => ?_
  unfold variableStatement
  refine .ask_bind ((h.run (grows_variableDeclarations hg)).bind ?_)
  rintro ⟨kind, declarations⟩ s' h
  refine (h.run grows_consumeSemicolon).bind fun _ s' h => ?_
  exact h.finish (by simp [Node.children]) rfl (by simp)

theorem grows_variableHead (hg : g.Sound) : GrowsNode (variableHead g) := by
  refine .of_leads fun s h => ?_
  unfold variableHead
  refine .ask_bind ((h.run (grows_variableDeclarations hg)).bind ?_)
  rintro ⟨kind, declarations⟩ s' h
  exact h.finish rfl rfl (by simp)

theorem grows_ifStatement (hg : g.Sound) : GrowsNode (ifStatement g) := by
  refine .of_leads fun s h => ?_
  unfold ifStatement
  refine .ask_bind ?_
  refine (h.run (grows_expectKeyword _)).bind fun _ s' h => ?_
  refine (h.run (grows_parenExpression hg)).bind fun test s' h => ?_
  refine (h.run hg.statement).bind fun consequent s' h => ?_
  refine (h.run (grows_optionally (grows_eatIf _) hg.statement)).bind fun alternate s' h => ?_
  exact h.finish rfl rfl (by simp)

theorem grows_forInit (hg : g.Sound) : Grows (forInit g) false Option.toList := by
  refine .of_leads fun s h => ?_
  unfold forInit
  refine .ask_bind ?_
  split
  · exact .pure h
  · exact .map (h.run (grows_withIn (grows_variableHead hg) false))
  · exact .map (h.run (grows_withIn (grows_variableHead hg) false))
  · exact .map (h.run (grows_withIn (grows_variableHead hg) false))
  · exact .map (h.run (grows_withIn (grows_expression hg) false))

/-- The rest of a loop that began at `b`, after what stands first in its head. -/
theorem leads_forEach (hg : g.Sound) (isAwait isOf : Bool) {left : NodeId}
    (h : Grown b s m [left]) :
    Leads b s (forEach g b.currentSpan isAwait isOf left) fun id s' => Grown b s' false [id] := by
  unfold forEach
  refine (h.run grows_skip).bind fun _ s' h => ?_
  refine (leads_toPattern h).bind fun _ s' h => ?_
  have hright : GrowsNode (if isOf then g.assignment else expression g) := by
    cases isOf with
    | true => exact hg.assignment
    | false => exact grows_expression hg
  refine (h.run (grows_withIn hright true)).bind fun right s' h => ?_
  refine (h.run (grows_expect _)).bind fun _ s' h => ?_
  refine (h.run hg.statement).bind fun body s' h => ?_
  cases isOf with
  | true => exact h.finish rfl rfl (by simp)
  | false => exact h.finish rfl rfl (by simp)

theorem leads_forTestUpdate (hg : g.Sound) {init : Option NodeId} (h : Grown b s m init.toList) :
    Leads b s (forTestUpdate g b.currentSpan init) fun id s' => Grown b s' false [id] := by
  unfold forTestUpdate
  have hexpression := grows_withIn (grows_expression hg) true
  refine (h.run (grows_expect _)).bind fun _ s' h => .ask_bind ?_
  refine .either_bind
    (P := fun (test : Option NodeId) s' => Grown b s' false (init.toList ++ test.toList))
    (fun _ => .pure (h.done rfl)) (fun _ => .map ((h.run hexpression).mono fun _ s' h => h.done ?_))
    fun test s' h => ?_
  · simp
  refine (h.run (grows_expect _)).bind fun _ s' h => .ask_bind ?_
  refine .either_bind (P := fun (update : Option NodeId) s' =>
      Grown b s' false (init.toList ++ test.toList ++ update.toList))
    (fun _ => .pure (h.done rfl)) (fun _ => .map ((h.run hexpression).mono fun _ s' h => h.done ?_))
    fun update s' h => ?_
  · simp
  refine (h.run (grows_expect _)).bind fun _ s' h => ?_
  refine (h.run hg.statement).bind fun body s' h => ?_
  exact h.finish (by simp [Node.children]) rfl (by simp)

theorem grows_forStatement (hg : g.Sound) : GrowsNode (forStatement g) := by
  refine .of_leads fun s h => ?_
  unfold forStatement
  refine .ask_bind ?_
  refine (h.run (grows_expectKeyword _)).bind fun _ s' h => ?_
  refine (h.run (grows_eatIf _)).bind fun isAwait s' h => ?_
  refine (h.run (grows_expect _)).bind fun _ s' h => ?_
  refine (h.run (grows_forInit hg)).bind fun init s' h => .ask_bind (.ask_bind ?_)
  split
  · refine .ite (fun _ => ?_) fun _ => ?_
    · exact leads_forEach hg isAwait _ (h.done rfl)
    · exact leads_forTestUpdate hg (h.done rfl)
  · exact leads_forTestUpdate hg (h.done rfl)

theorem grows_whileStatement (hg : g.Sound) : GrowsNode (whileStatement g) := by
  refine .of_leads fun s h => ?_
  unfold whileStatement
  refine .ask_bind ?_
  refine (h.run (grows_expectKeyword _)).bind fun _ s' h => ?_
  refine (h.run (grows_parenExpression hg)).bind fun test s' h => ?_
  refine (h.run hg.statement).bind fun body s' h => ?_
  exact h.finish rfl rfl (by simp)

theorem grows_doWhileStatement (hg : g.Sound) : GrowsNode (doWhileStatement g) := by
  refine .of_leads fun s h => ?_
  unfold doWhileStatement
  refine .ask_bind ?_
  refine (h.run (grows_expectKeyword _)).bind fun _ s' h => ?_
  refine (h.run hg.statement).bind fun body s' h => ?_
  refine (h.run (grows_expectKeyword _)).bind fun _ s' h => ?_
  refine (h.run (grows_parenExpression hg)).bind fun test s' h => ?_
  refine (h.run (grows_eatIf _)).bind fun _ s' h => ?_
  exact h.finish rfl rfl (by simp)

theorem grows_returnStatement (hg : g.Sound) : GrowsNode (returnStatement g) := by
  refine .of_leads fun s h => ?_
  unfold returnStatement
  refine .ask_bind ?_
  refine (h.run (grows_expectKeyword _)).bind fun _ s' h => .ask_bind ?_
  refine .either_bind (P := fun (argument : Option NodeId) s' => Grown s s' true argument.toList)
    (fun _ => .pure h) (fun _ => .map (h.run (grows_expression hg))) fun argument s' h => ?_
  refine (h.run grows_consumeSemicolon).bind fun _ s' h => ?_
  exact h.finish (by simp [Node.children]) rfl (by simp)

/-- A jump is a node of its word and its label. -/
theorem leads_jumpStatement (heof : s.current.isEof = false) {make : Option NodeId → Node}
    (hchildren : ∀ label, (make label).children = label.toList)
    (hshares : ∀ label, (make label).sharesFields = false) :
    Leads s s (jumpStatement make) fun id s' => Grown s s' false [id] := by
  have h := Growth.refl s
  unfold jumpStatement
  refine .ask_bind ((h.take heof).bind fun _ s' h => .ask_bind (.ask_bind ?_))
  refine .either_bind (P := fun (label : Option NodeId) s' => Grown s s' true label.toList)
    (fun _ => .map (h.run grows_identifier)) (fun _ => .pure h) fun label s' h => ?_
  refine (h.run grows_consumeSemicolon).bind fun _ s' h => ?_
  exact h.finish (by simp [hchildren]) (hshares label) (by simp)

theorem grows_throwStatement (hg : g.Sound) : GrowsNode (throwStatement g) := by
  refine .of_leads fun s h => ?_
  unfold throwStatement
  refine .ask_bind ?_
  refine (h.run (grows_expectKeyword _)).bind fun _ s' h => ?_
  refine (h.run (grows_expression hg)).bind fun argument s' h => ?_
  refine (h.run grows_consumeSemicolon).bind fun _ s' h => ?_
  exact h.finish rfl rfl (by simp)

theorem grows_catchParameter (hg : g.Sound) : GrowsNode (catchParameter g) := by
  refine .of_leads fun s h => ?_
  unfold catchParameter
  refine (h.run (grows_annotatedBinding hg)).bind fun param s' h => ?_
  exact (h.run (grows_expect _)).bind fun _ s' h => .pure (h.done rfl)

theorem grows_catchClause (hg : g.Sound) : GrowsNode (catchClause g) := by
  refine .of_leads fun s h => ?_
  unfold catchClause
  refine .ask_bind ?_
  refine (h.run grows_skip).bind fun _ s' h => ?_
  refine (h.run (grows_optionally (grows_eatIf _) (grows_catchParameter hg))).bind fun param s' h => ?_
  refine (h.run (grows_block hg)).bind fun body s' h => ?_
  exact h.finish (by simp [Node.children]) rfl (by simp)

theorem grows_tryStatement (hg : g.Sound) : GrowsNode (tryStatement g) := by
  refine .of_leads fun s h => ?_
  unfold tryStatement
  refine .ask_bind ?_
  refine (h.run (grows_expectKeyword _)).bind fun _ s' h => ?_
  refine (h.run (grows_block hg)).bind fun body s' h => ?_
  refine (h.run (grows_optionally (asks_ask _).grows (grows_catchClause hg))).bind
    fun handler s' h => ?_
  refine (h.run (grows_optionally (grows_eatIf _) (grows_block hg))).bind fun finalizer s' h => ?_
  refine .ite (fun _ => .ask_bind (.fail h.frame)) fun _ => ?_
  exact h.finish (by simp [Node.children]) rfl (by simp)

/-- The statements of a `case` that began at `b`, after its test. -/
theorem leads_caseBody (hg : g.Sound) {test : Option NodeId} (h : Grown b s m test.toList) :
    Leads b s (do
      expect .colon
      let consequent ← loop [] fun statements => do
        if ← atCaseEnd then return .stop statements
        else return .next ((← g.statement) :: statements)
      finish b.currentSpan (.switchCase test consequent.reverse)) fun id s' =>
        Grown b s' false [id] := by
  refine (h.run (grows_expect _)).bind fun _ s' h => ?_
  refine .loop_bind (fun statements s' => Grown b s' true (test.toList ++ statements.reverse))
    (h.weaken (by simp) (by simp)) (fun _ _ h => h.frame) (fun statements s' h => ?_)
    fun consequent s' h => h.finish rfl rfl (by simp)
  refine .ask_bind (.ite (fun _ => .pure h) fun _ => ?_)
  refine (h.run hg.statement).bind fun statement s' h => .pure ?_
  simpa [Leads.Turn] using h

theorem grows_switchCase (hg : g.Sound) : GrowsNode (switchCase g) := by
  refine .of_leads fun s h => ?_
  unfold switchCase
  refine .ask_bind ?_
  refine (h.run (grows_eatIf _)).bind fun isCase s' h => .ite (fun _ => ?_) fun _ => ?_
  · exact .bind (P := fun (test : Option NodeId) s' => Grown s s' false test.toList)
      (.map (h.run (grows_expression hg))) fun test s' h => leads_caseBody hg h
  · refine (h.run (grows_expectKeyword _)).bind fun _ s' h => ?_
    exact .bind (P := fun (test : Option NodeId) s' => Grown s s' false test.toList)
      (.pure (h.done rfl)) fun test s' h => leads_caseBody hg h

theorem grows_switchStatement (hg : g.Sound) : GrowsNode (switchStatement g) := by
  refine .of_leads fun s h => ?_
  unfold switchStatement
  refine .ask_bind ?_
  refine (h.run (grows_expectKeyword _)).bind fun _ s' h => ?_
  refine (h.run (grows_parenExpression hg)).bind fun discriminant s' h => ?_
  refine (h.run (grows_expect _)).bind fun _ s' h => ?_
  refine (h.run (grows_itemsUntil _ (grows_switchCase hg))).bind fun cases s' h => ?_
  refine (h.run (grows_expect _)).bind fun _ s' h => ?_
  exact h.finish (by simp [Node.children]) rfl (by simp)

theorem grows_labeledStatement (hg : g.Sound) : GrowsNode (labeledStatement g) := by
  refine .of_leads fun s h => ?_
  unfold labeledStatement
  refine .ask_bind ?_
  refine (h.run grows_identifier).bind fun label s' h => ?_
  refine (h.run (grows_expect _)).bind fun _ s' h => ?_
  refine (h.run hg.statement).bind fun body s' h => ?_
  exact h.finish rfl rfl (by simp)

theorem leads_debuggerStatement (heof : s.current.isEof = false) :
    Leads s s debuggerStatement fun id s' => Grown s s' false [id] := by
  have h := Growth.refl s
  unfold debuggerStatement
  refine .ask_bind ((h.take heof).bind fun _ s' h => ?_)
  refine (h.run grows_consumeSemicolon).bind fun _ s' h => ?_
  exact h.finish rfl rfl (by simp)

theorem grows_typeAlias (hg : g.Sound) : GrowsNode (typeAlias g) := by
  refine .of_leads fun s h => ?_
  unfold typeAlias
  refine .ask_bind ?_
  refine (h.run (grows_expectName _)).bind fun _ s' h => ?_
  refine (h.run grows_identifier).bind fun id s' h => ?_
  refine (h.run grows_skipTypeParameters).bind fun _ s' h => ?_
  refine (h.run (grows_expect _)).bind fun _ s' h => ?_
  refine (h.run hg.type).bind fun type s' h => ?_
  refine (h.run grows_consumeSemicolon).bind fun _ s' h => ?_
  exact h.finish rfl rfl (by simp)

theorem grows_interfaceDeclaration (hg : g.Sound) : GrowsNode (interfaceDeclaration g) := by
  refine .of_leads fun s h => ?_
  unfold interfaceDeclaration
  refine .ask_bind ?_
  refine (h.run (grows_expectName _)).bind fun _ s' h => ?_
  refine (h.run grows_identifier).bind fun id s' h => ?_
  refine (h.run grows_skipTypeParameters).bind fun _ s' h => ?_
  refine (h.run (grows_eatIf _)).bind fun extending s' h => ?_
  refine .either_bind (fun _ => h.run (grows_separatedBy _ hg.type)) (fun _ => .pure ?_)
    fun parents s' h => ?_
  · simpa using h
  · refine (h.run (grows_typeMembers hg)).bind fun body s' h => ?_
    exact h.finish (by simp [Node.children]) rfl (by simp)

end Parse
end ScriptLint
