import ScriptLint.Proofs.Parse.Composed.Expression
import ScriptLint.Proofs.Parse.Program

namespace ScriptLint
namespace Parse

open ScriptLint.Parser

variable {g : Grammar} {c : Site}

theorem composed_parenExpression : Composed g true c (parenExpression g) fun _ => true := by
  refine .bind (.expect _) fun _ => .seq (.within true composed_expression) fun e => ?_
  exact .seq (.expect _) fun _ => .pure _ rfl

theorem composed_expressionStatement : Composed g true c (expressionStatement g) fun _ => true := by
  refine .note fun start => .bind composed_expression fun e => ?_
  exact .seq .consumeSemicolon fun _ => .finish _ _ ⟨rfl, rfl, rfl⟩

theorem composed_variableDeclarator (hg : g.Sound) (hmoved : c.moved = true) :
    Composed g true c (variableDeclarator g) fun _ => true := by
  refine .note fun start => .bind (composed_annotatedBinding hg hmoved) fun id => ?_
  refine .seq (.optionally (.eat _) (.counted .assignment)) fun init => ?_
  exact .finish _ _ ⟨rfl, rfl, rfl⟩

theorem composed_variableDeclarations (hg : g.Sound) (h : ∀ s, c.known s → s.current ≠ .eof) :
    Composed g true c (variableDeclarations g) fun _ => true := by
  refine .bind (.advance true fun _ => h) fun word => ?_
  refine .seq (.separatedBy _ ?_ ?_) fun declarations => .pure _ rfl
  · exact composed_variableDeclarator hg rfl
  · exact composed_variableDeclarator hg rfl

theorem composed_variableStatement (hg : g.Sound) (h : ∀ s, c.known s → s.current ≠ .eof) :
    Composed g true c (variableStatement g) fun _ => true := by
  refine .note fun start => .bind (composed_variableDeclarations hg fun s hs => h s hs) ?_
  rintro ⟨kind, declarations⟩
  exact .seq .consumeSemicolon fun _ => .finish _ _ ⟨rfl, rfl, rfl⟩

theorem composed_variableHead (hg : g.Sound) (h : ∀ s, c.known s → s.current ≠ .eof) :
    Composed g true c (variableHead g) fun _ => true := by
  refine .note fun start => .bind (composed_variableDeclarations hg fun s hs => h s hs) ?_
  rintro ⟨kind, declarations⟩
  exact .finish _ _ ⟨rfl, rfl, rfl⟩

theorem composed_ifStatement : Composed g true c (ifStatement g) fun _ => true := by
  refine .note fun start => .bind (.expectKeyword _) fun _ =>
    .seq composed_parenExpression fun test => ?_
  refine .seq (.counted .statement) fun consequent => ?_
  refine .seq (.optionally (.eatKeyword _) (.counted .statement)) fun alternate => ?_
  exact .finish _ _ ⟨rfl, rfl, rfl⟩

/-- What the head of a `for` begins with, where `in` is no operator. -/
theorem composed_forInit (hg : g.Sound) : Composed g true c (forInit g) fun _ => false := by
  have hhead : ∀ t : Token, t.isEof = false → Composed g true (c.knowing fun s => s.current = t)
      (some <$> withIn false (variableHead g)) fun _ => false := by
    intro t ht
    have hvariables : Composed g true ⟨c.moved, fun s => s.current = t, c.noted⟩ (variableHead g)
        fun _ => true := by
      refine composed_variableHead hg fun s hs heq => ?_
      rw [← hs, heq] at ht
      cases ht
    refine .still (.map (.withIn false ?_ ?_ (fun s hs => ?_) hvariables))
    · rfl
    · rfl
    · exact hs.2
  refine .current fun t => ?_
  split
  · exact .pure _ rfl
  · exact hhead _ rfl
  · exact hhead _ rfl
  · exact hhead _ rfl
  · exact .still (.map (.within false composed_expression))

theorem composed_forEach (start : Span) (isAwait isOf : Bool) (left : NodeId) :
    Composed g true c (forEach g start isAwait isOf left) fun _ => true := by
  refine .seq .skip_any fun _ => .seq (.toPattern left) fun _ => ?_
  refine .bind (.within true (.ite (fun _ => .counted .assignment) fun _ => composed_expression))
    fun right => ?_
  refine .seq (.expect _) fun _ => .seq (.counted .statement) fun body => .finish _ _ ?_
  split <;> exact ⟨rfl, rfl, rfl⟩

theorem composed_forTestUpdate (start : Span) (init : Option NodeId) :
    Composed g true c (forTestUpdate g start init) fun _ => true := by
  have hpart : ∀ c : Site, Composed g true c (some <$> withIn true (expression g)) fun _ => true :=
    fun _ => .map (.within true composed_expression)
  refine .bind (.expect _) fun _ => .ask (fun _ _ => rfl) fun _ => ?_
  refine .either (fun _ => ⟨fun _ => false, .pure _ rfl⟩) (fun _ => ⟨_, hpart _⟩) fun test _ => ?_
  refine .seq (.expect _) fun _ => .ask (fun _ _ => rfl) fun _ => ?_
  refine .either (fun _ => ⟨fun _ => false, .pure _ rfl⟩) (fun _ => ⟨_, hpart _⟩) fun update _ => ?_
  refine .seq (.expect _) fun _ => .seq (.counted .statement) fun body => ?_
  exact .finish _ _ ⟨rfl, rfl, rfl⟩

theorem composed_forStatement (hg : g.Sound) :
    Composed g true c (forStatement g) fun _ => true := by
  refine .note fun start => .bind (.expectKeyword _) fun _ => .seq (.eatKeyword _) fun isAwait => ?_
  refine .seq (.expect _) fun _ => .seq (composed_forInit hg) fun init => ?_
  refine .ask (fun _ _ => rfl) fun isOf => .ask (fun _ _ => rfl) fun isIn => ?_
  cases init with
  | none => exact .last (composed_forTestUpdate _ _)
  | some left =>
    refine .ite (fun _ => ?_) fun _ => .last (composed_forTestUpdate _ _)
    exact .last (composed_forEach _ _ _ _)

theorem composed_whileStatement : Composed g true c (whileStatement g) fun _ => true := by
  refine .note fun start => .bind (.expectKeyword _) fun _ =>
    .seq composed_parenExpression fun test => ?_
  exact .seq (.counted .statement) fun body => .finish _ _ ⟨rfl, rfl, rfl⟩

theorem composed_doWhileStatement : Composed g true c (doWhileStatement g) fun _ => true := by
  refine .note fun start => .bind (.expectKeyword _) fun _ =>
    .seq (.counted .statement) fun body => ?_
  refine .seq (.expectKeyword _) fun _ => .seq composed_parenExpression fun test => ?_
  exact .seq (.eat _) fun _ => .finish _ _ ⟨rfl, rfl, rfl⟩

theorem composed_returnStatement : Composed g true c (returnStatement g) fun _ => true := by
  refine .note fun start => .bind (.expectKeyword _) fun _ => .ask (fun _ _ => rfl) fun ends => ?_
  refine .either (fun _ => ⟨fun _ => false, .pure _ rfl⟩) (fun _ => ⟨_, .map composed_expression⟩)
    fun argument _ => ?_
  exact .seq .consumeSemicolon fun _ => .finish _ _ ⟨rfl, rfl, rfl⟩

theorem composed_jumpStatement {make : Option NodeId → Node} (hmake : ∀ label, (make label).Untyped)
    (h : ∀ s, c.known s → s.current ≠ .eof) :
    Composed g true c (jumpStatement make) fun _ => true := by
  refine .note fun start => .bind (.skip fun s hs => h s hs) fun _ => ?_
  refine .ask (fun _ _ => rfl) fun named => .ask (fun _ _ => rfl) fun newline => ?_
  refine .either (fun _ => ⟨_, .map composed_identifier⟩) (fun _ => ⟨fun _ => false, .pure _ rfl⟩)
    fun label _ => ?_
  exact .seq .consumeSemicolon fun _ => .finish _ _ (hmake label)

theorem composed_throwStatement : Composed g true c (throwStatement g) fun _ => true := by
  refine .note fun start => .bind (.expectKeyword _) fun _ =>
    .seq composed_expression fun argument => ?_
  exact .seq .consumeSemicolon fun _ => .finish _ _ ⟨rfl, rfl, rfl⟩

theorem composed_catchClause (hg : g.Sound) (h : ∀ s, c.known s → s.current ≠ .eof) :
    Composed g true c (catchClause g) fun _ => true := by
  have hparameter : ∀ c : Site, c.moved = true →
      Composed g true c (catchParameter g) fun _ => true := by
    intro c hmoved
    refine .bind (composed_annotatedBinding hg hmoved) fun param => ?_
    exact .seq (.expect _) fun _ => .pure _ rfl
  refine .note fun start => .bind (.skip fun s hs => h s hs) fun _ => ?_
  refine .seq (.optionally (.eat _) (hparameter _ rfl)) fun param => ?_
  exact .seq (composed_block (.inl rfl)) fun body => .finish _ _ ⟨rfl, rfl, rfl⟩

theorem composed_tryStatement (hg : g.Sound) :
    Composed g true c (tryStatement g) fun _ => true := by
  refine .note fun start => .bind (.expectKeyword _) fun _ =>
    .seq (composed_block (.inl rfl)) fun body => ?_
  refine .seq (.optionally_ask (fun _ _ => rfl) (composed_catchClause hg fun s hs heq => ?_))
    fun handler => ?_
  · have hword := hs.2
    simp [heq, Token.isKeyword] at hword
  refine .seq (.optionally (.eatKeyword _) (composed_block (.inl rfl))) fun finalizer =>
    .ite (fun _ => ?_) fun _ => ?_
  · exact .note fun span => .fail _ List.mem_cons_self (by simp [ParseError.Exhausted])
  · exact .finish _ _ ⟨rfl, rfl, rfl⟩

theorem composed_switchCase : Composed g true c (switchCase g) fun _ => true := by
  have hbody : ∀ (c : Site) (start : Span) (test : Option NodeId), Composed g true c (do
      expect .colon
      let consequent ← loop [] fun statements => do
        if ← atCaseEnd then return .stop statements
        else return .next ((← g.statement) :: statements)
      finish start (.switchCase test consequent.reverse)) fun _ => true := by
    intro c start test
    refine .bind (.expect _) fun _ => .seq (.loop [] fun statements => ?_) fun consequent => ?_
    · exact .test (fun _ _ => rfl) (.pure _ rfl) (.bind (.counted .statement) fun e => .pure _ rfl)
    · exact .finish _ _ ⟨rfl, rfl, rfl⟩
  refine .note fun start => .seq (.eatKeyword _) fun eaten => .ite (fun _ => ?_) fun _ => ?_
  · exact .seq (.map composed_expression) fun test => hbody _ _ _
  · exact .seq (.expectKeyword _) fun _ => hbody _ _ _

theorem composed_switchStatement : Composed g true c (switchStatement g) fun _ => true := by
  refine .note fun start => .bind (.expectKeyword _) fun _ =>
    .seq composed_parenExpression fun e => ?_
  refine .seq (.expect _) fun _ => .seq (.itemsUntil _ composed_switchCase) fun cases => ?_
  exact .seq (.expect _) fun _ => .finish _ _ ⟨rfl, rfl, rfl⟩

theorem composed_labeledStatement : Composed g true c (labeledStatement g) fun _ => true := by
  refine .note fun start => .bind composed_identifier fun label => .seq (.expect _) fun _ => ?_
  exact .seq (.counted .statement) fun body => .finish _ _ ⟨rfl, rfl, rfl⟩

theorem composed_debuggerStatement (h : ∀ s, c.known s → s.current ≠ .eof) :
    Composed g true c debuggerStatement fun _ => true := by
  refine .note fun start => .bind (.skip fun s hs => h s hs) fun _ => ?_
  exact .seq .consumeSemicolon fun _ => .finish _ _ ⟨rfl, rfl, rfl⟩

theorem composed_typeAlias : Composed g true c (typeAlias g) fun _ => true := by
  refine .note fun start => .bind (.expectName _) fun _ => .seq composed_identifier fun id => ?_
  refine .seq composed_skipTypeParameters fun _ => .seq (.expect _) fun _ => ?_
  refine .seq (.counted .type) fun type => .seq .consumeSemicolon fun _ => ?_
  exact .finish _ _ ⟨rfl, rfl, rfl⟩

theorem composed_interfaceDeclaration (hg : g.Sound) :
    Composed g true c (interfaceDeclaration g) fun _ => true := by
  refine .note fun start => .bind (.expectName _) fun _ => .seq composed_identifier fun id => ?_
  refine .seq composed_skipTypeParameters fun _ => .seq (.eatKeyword _) fun eaten => ?_
  refine .either (fun _ => ⟨_, .separatedBy _ (.counted .type) (.counted .type)⟩)
    (fun _ => ⟨fun _ => false, .pure _ rfl⟩) fun parents _ => ?_
  exact .seq (composed_typeMembers hg) fun body => .finish _ _ ⟨rfl, rfl, rfl⟩

theorem composed_moduleName : Composed g true c moduleName fun _ => true := by
  refine .current fun t => ?_
  split
  · exact composed_stringLiteral
  · exact composed_propertyIdentifier

theorem composed_skipTypeWord : Composed g true c skipTypeWord fun _ => false := by
  refine .test (fun _ _ => rfl) (.ask (fun _ _ => rfl) fun next => ?_) (.pure _ rfl)
  split
  · exact .skip_any
  · exact .skip_any
  · exact .ite (fun _ => .skip_any) fun _ => .pure _ rfl
  · exact .pure _ rfl

theorem composed_importSpecifier : Composed g true c importSpecifier fun _ => true := by
  refine .ask (fun _ _ => rfl) fun type => .ask (fun _ _ => rfl) fun next => ?_
  refine .when (fun _ => .skip_any) fun _ => .note fun start =>
    .bind composed_moduleName fun imported => ?_
  refine .seq (.eatName _) fun renamed => ?_
  refine .either (fun _ => ⟨_, composed_identifier⟩) (fun _ => ⟨fun _ => false, .pure _ rfl⟩) ?_
  exact fun localName _ => .finish _ _ ⟨rfl, rfl, rfl⟩

theorem composed_importDefault : Composed g true c importDefault fun _ => false := by
  refine .test (fun _ _ => rfl) (.note fun start => ?_) (.pure _ rfl)
  refine .seq composed_identifier fun localName =>
    .seq (.finish _ _ ⟨rfl, rfl, rfl⟩) fun specifier => ?_
  exact .seq (.eat _) fun _ => .pure _ rfl

theorem composed_importNames : Composed g true c importNames fun _ => false := by
  refine .test (fun _ _ => rfl) (.note fun start => .seq .skip_any fun _ => ?_) ?_
  · refine .seq (.expectName _) fun _ => .seq composed_identifier fun localName => ?_
    exact .seq (.finish _ _ ⟨rfl, rfl, rfl⟩) fun specifier => .pure _ rfl
  · refine .seq (.eat _) fun eaten => .ite (fun _ => ?_) fun _ => .pure _ rfl
    refine .seq (.commaSeparated _ composed_importSpecifier) fun specifiers => ?_
    exact .seq (.expect _) fun _ => .pure _ rfl

theorem composed_importClause : Composed g true c importClause fun _ => false := by
  refine .current fun t => ?_
  split
  · exact .pure _ rfl
  · refine .seq composed_importDefault fun default => .seq composed_importNames fun names => ?_
    exact .seq (.expectName _) fun _ => .pure _ rfl

theorem composed_importDeclaration : Composed g true c importDeclaration fun _ => true := by
  refine .note fun start => .bind (.expectKeyword _) fun _ => .seq composed_skipTypeWord fun _ => ?_
  refine .seq composed_importClause fun specifiers => .seq composed_stringLiteral fun source => ?_
  refine .seq .skipImportAttributes fun _ => .seq .consumeSemicolon fun _ => ?_
  exact .finish _ _ ⟨rfl, rfl, rfl⟩

theorem composed_exportSpecifier : Composed g true c exportSpecifier fun _ => true := by
  refine .note fun start => .bind composed_moduleName fun localName =>
    .seq (.eatName _) fun renamed => ?_
  refine .either (fun _ => ⟨_, composed_moduleName⟩) (fun _ => ⟨fun _ => false, .pure _ rfl⟩) ?_
  exact fun exported _ => .finish _ _ ⟨rfl, rfl, rfl⟩

theorem composed_defaultDeclaration (hg : g.Sound) :
    Composed g true c (defaultDeclaration g) fun _ => true := by
  refine .current fun t => ?_
  split
  · exact composed_functionDeclaration hg
  · exact composed_classLike hg false
  · refine .test (fun _ _ => rfl) (composed_functionDeclaration hg) ?_
    exact .bind (.counted .assignment) fun e => .seq .consumeSemicolon fun _ => .pure _ rfl

theorem composed_exportAll (start : Span) : Composed g true c (exportAll start) fun _ => true := by
  refine .seq (.optionally (.eatName _) composed_moduleName) fun exported => ?_
  refine .bind (.expectName _) fun _ => .seq composed_stringLiteral fun source => ?_
  exact .seq .consumeSemicolon fun _ => .finish _ _ ⟨rfl, rfl, rfl⟩

theorem composed_exportNames (start : Span) :
    Composed g true c (exportNames start) fun _ => true := by
  refine .seq (.commaSeparated _ composed_exportSpecifier) fun specifiers =>
    .bind (.expect _) fun _ => ?_
  refine .seq (.optionally (.eatName _) composed_stringLiteral) fun source => ?_
  exact .seq .consumeSemicolon fun _ => .finish _ _ ⟨rfl, rfl, rfl⟩

theorem composed_exportDeclaration (hg : g.Sound) :
    Composed g true c (exportDeclaration g) fun _ => true := by
  refine .note fun start => .bind (.expectKeyword _) fun _ =>
    .seq (.eatKeyword _) fun isDefault => ?_
  refine .ite (fun _ => ?_) fun _ => .seq (.eat _) fun all => .ite (fun _ => ?_) fun _ => ?_
  · exact .seq (composed_defaultDeclaration hg) fun declaration => .finish _ _ ⟨rfl, rfl, rfl⟩
  · exact .last (composed_exportAll _)
  · refine .ask (fun _ _ => rfl) fun type => .ask (fun _ _ => rfl) fun next => ?_
    refine .when (fun _ => .skip_any) fun _ => .seq (.eat _) fun names =>
      .ite (fun _ => ?_) fun _ => ?_
    · exact .last (composed_exportNames _)
    · exact .seq (.counted .statement) fun declaration => .finish _ _ ⟨rfl, rfl, rfl⟩

theorem composed_namedStatement (hg : g.Sound) (name : String) :
    Composed g true c (namedStatement g name) fun _ => true := by
  refine .ask (fun _ _ => rfl) fun sameLine => .ask (fun _ _ => rfl) fun next => ?_
  refine .ite (fun _ => composed_functionDeclaration hg) fun _ => ?_
  refine .ite (fun _ => composed_typeAlias) fun _ => ?_
  refine .ite (fun _ => composed_interfaceDeclaration hg) fun _ => ?_
  refine .ite (fun _ => .seq .skip_any fun _ => .counted .statement) fun _ => ?_
  exact .ite (fun _ => composed_labeledStatement) fun _ => composed_expressionStatement

/-- A statement, one level further in. -/
theorem exists_statement_eq (hg : g.Sound) :
    ∃ body, statement g = nested body ∧ Composed g true c body fun _ => true := by
  refine ⟨_, rfl, .current fun t => ?_⟩
  split
  · exact composed_block (.inl rfl)
  · exact composed_word ⟨rfl, rfl, rfl⟩ (Site.ne_eof rfl)
  · exact composed_variableStatement hg (Site.ne_eof rfl)
  · exact composed_variableStatement hg (Site.ne_eof rfl)
  · exact composed_variableStatement hg (Site.ne_eof rfl)
  · exact composed_functionDeclaration hg
  · exact composed_classLike hg false
  · exact composed_ifStatement
  · exact composed_forStatement hg
  · exact composed_whileStatement
  · exact composed_doWhileStatement
  · exact composed_returnStatement
  · exact composed_jumpStatement (fun _ => ⟨rfl, rfl, rfl⟩) (Site.ne_eof rfl)
  · exact composed_jumpStatement (fun _ => ⟨rfl, rfl, rfl⟩) (Site.ne_eof rfl)
  · exact composed_throwStatement
  · exact composed_tryStatement hg
  · exact composed_switchStatement
  · exact composed_debuggerStatement (Site.ne_eof rfl)
  · refine .ask (fun _ _ => rfl) fun next => ?_
    exact .ite (fun _ => composed_importDeclaration) fun _ => composed_expressionStatement
  · exact composed_exportDeclaration hg
  · exact composed_namedStatement hg _
  · exact composed_expressionStatement

/-- A construct that is counted is nested in what contains it. -/
theorem exists_nested_of_counted (hg : g.Sound) {r : Bool} {p : Parser NodeId}
    (h : g.above.Counted r p) :
    ∃ body, p = nested body ∧ Composed g r .opening body fun _ => true := by
  cases h with
  | statement => exact exists_statement_eq hg
  | assignment => exact exists_assignment_eq hg
  | unary => exact ⟨_, rfl, composed_unaryOperand hg⟩
  | type => exact ⟨_, rfl, composed_unionType hg⟩

theorem composed_of_uncounted (hg : g.Sound) {r : Bool} {p : Parser NodeId}
    (h : g.above.Uncounted r p) :
    Composed g r .opening p fun _ => true := by
  cases h with
  | binary least => exact composed_binary hg least
  | leftHandSide => exact composed_leftHandSide hg
  | new => exact composed_newExpression hg
  | typeOperator => exact composed_typeOperator hg
  | bindingTarget => exact composed_bindingTarget hg

end Parse
end ScriptLint
