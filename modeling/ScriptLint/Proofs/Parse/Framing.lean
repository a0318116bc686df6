import ScriptLint.Proofs.Parse.Program

namespace ScriptLint
namespace Parse

open ScriptLint.Parser

variable {α β σ : Type} {g : Grammar} {s : State} {m : Bool}

/-- A parser that leaves alone what was there before it, whether it fails or not. -/
def Keeps (p : Parser α) : Prop := ∀ s, Kept s (p s).2

namespace Keeps

variable {p : Parser α} {f : α → Parser β}

theorem pure (a : α) : Keeps (pure a : Parser α) := .refl

theorem ask (f : State → α) : Keeps (ask f) := .refl

theorem skip : Keeps skip := fun s => (Frame.advance s).kept

theorem bind (hp : Keeps p) (hf : ∀ a, Keeps (f a)) : Keeps (p >>= f) := by
  intro s
  change Kept s (Parser.bind p f s).2
  have hkept := hp s
  unfold Parser.bind
  split
  · next a s' heq =>
    rw [heq] at hkept
    exact hkept.trans (hf a s')
  · next e s' heq =>
    rw [heq] at hkept
    exact hkept

theorem map (hp : Keeps p) (f : α → β) : Keeps (f <$> p) := hp.bind fun a => pure (f a)

theorem alloc (node : Node) (span : Span) : Keeps (alloc node span) := fun s =>
  { Kept.refl s with tree := (Tree.Continues.refl s.tree).alloc node (some span) }

theorem finish (start : Span) (node : Node) : Keeps (finish start node) := fun s =>
  alloc node (s.spanFrom start) s

theorem ite {c : Prop} [Decidable c] {q : Parser α} (hp : Keeps p) (hq : Keeps q) :
    Keeps (if c then p else q) := by
  split
  · exact hp
  · exact hq

theorem loop {body : σ → Parser (Loop σ)} (hbody : ∀ value, Keeps (body value)) (init : σ) :
    Keeps (loop init body) := by
  have hturns : ∀ fuel value, Keeps (loopUpTo body fuel value) := by
    intro fuel
    induction fuel with
    | zero => exact fun _ => .refl
    | succ fuel ih =>
      intro value
      refine (hbody value).bind fun turn => ?_
      cases turn with
      | stop value => exact pure value
      | next value => exact ih value
  exact fun s => hturns _ init s

end Keeps

theorem keeps_of_leads {p : Parser α} {Q : State → α → State → Prop}
    (hp : ∀ s, Leads s s p (Q s)) (hQ : ∀ s a s', Q s a s' → Frame s s') : Keeps p := by
  intro s
  have hrun := hp s
  unfold Leads at hrun
  split at hrun
  · next heq =>
    rw [heq]
    exact (hQ _ _ _ hrun).kept
  · next heq =>
    rw [heq]
    exact hrun.kept

theorem Grows.keeps {p : Parser α} {out : α → List NodeId} (hp : Grows p m out) : Keeps p :=
  keeps_of_leads hp fun _ _ _ h => h.frame

theorem keeps_of_leads_bare {p : Parser NodeId}
    (hp : ∀ s, Leads s s p fun id s' => Grown s s' false [id] ∧ (s'.tree.node id).Bare) :
    Keeps p :=
  keeps_of_leads hp fun _ _ _ h => h.1.frame

theorem keeps_literal (value : LiteralValue) : Keeps (literal value) :=
  (Keeps.ask _).bind fun _ => Keeps.skip.bind fun _ => (Keeps.ask _).bind fun _ => .alloc _ _

theorem keeps_literalType (value : LiteralValue) : Keeps (literalType value) :=
  (Keeps.ask _).bind fun _ => (keeps_literal value).bind fun _ => .alloc _ _

theorem keeps_yieldExpression (hg : g.Sound) : Keeps (yieldExpression g) := by
  unfold yieldExpression
  refine (Keeps.ask _).bind fun start => Keeps.skip.bind fun _ => ?_
  refine (grows_eatIf _).keeps.bind fun delegate => ?_
  refine (Keeps.ask _).bind fun newline => (Keeps.ask _).bind fun t => ?_
  have hfinish : ∀ argument, Keeps (finish start (.yieldExpression argument delegate)) :=
    fun _ => .finish _ _
  exact .ite ((Keeps.pure _).bind hfinish) ((hg.assignment.keeps.map some).bind hfinish)

theorem keeps_jumpStatement (make : Option NodeId → Node) : Keeps (jumpStatement make) := by
  unfold jumpStatement
  refine (Keeps.ask _).bind fun start => Keeps.skip.bind fun _ => ?_
  refine (Keeps.ask _).bind fun _ => (Keeps.ask _).bind fun _ => ?_
  have hfinish : ∀ label, Keeps (consumeSemicolon >>= fun _ => finish start (make label)) :=
    fun _ => grows_consumeSemicolon.keeps.bind fun _ => .finish _ _
  exact .ite ((grows_identifier.keeps.map some).bind hfinish) ((Keeps.pure _).bind hfinish)

theorem keeps_suffix? (hg : g.Sound) (calls : Bool) (start : Span) (object : NodeId) :
    Keeps (suffix? g calls start object) := by
  have hfinish : ∀ (node : Node) (optional : Bool), Keeps (do
      let e ← finish start node
      return some (e, optional)) :=
    fun _ _ => (Keeps.finish _ _).bind fun _ => .pure _
  have hindex := fun (node : NodeId → Node) (optional : Bool) =>
    (grows_index hg).keeps.bind fun p => hfinish (node p) optional
  have harguments := fun (node : List NodeId → Node) (optional : Bool) =>
    (grows_arguments hg).keeps.bind fun as => hfinish (node as) optional
  have hproperty := fun (node : NodeId → Node) (optional : Bool) =>
    grows_propertyIdentifier.keeps.bind fun p => hfinish (node p) optional
  unfold suffix?
  refine (Keeps.ask _).bind fun t => ?_
  split
  · exact Keeps.skip.bind fun _ => hproperty _ _
  · refine .ite (Keeps.skip.bind fun _ => (Keeps.ask _).bind fun t => ?_) (.pure _)
    split
    · exact harguments _ _
    · exact hindex _ _
    · exact hproperty _ _
  · exact hindex _ _
  · exact .ite (harguments _ _) (.pure _)
  · exact (grows_template hg).keeps.bind fun _ => hfinish _ _
  · exact (Keeps.ask _).bind fun _ => .ite (.pure _) (Keeps.skip.bind fun _ => hfinish _ _)
  · exact .pure _

theorem keeps_suffixes (hg : g.Sound) (calls : Bool) (start : Span) (object : NodeId) :
    Keeps (suffixes g calls start object) := by
  unfold suffixes
  refine (Keeps.loop (fun value => ?_) _).bind fun value => .ite (.finish _ _) (.pure _)
  refine (keeps_suffix? hg calls start value.1).bind fun found => ?_
  split <;> exact .pure _

/-- The parsers of the grammar. -/
inductive Production (g : Grammar) : {α : Type} → Parser α → Prop where
  | literal (value : LiteralValue) : Production g (Parse.literal value)
  | identifier : Production g Parse.identifier
  | propertyIdentifier : Production g Parse.propertyIdentifier
  | stringLiteral : Production g Parse.stringLiteral
  | propertyKey : Production g (Parse.propertyKey g)
  | typeAscription : Production g (Parse.typeAscription g)
  | type : Production g (Parse.type g)
  | intersectionType : Production g (Parse.intersectionType g)
  | typeOperator : Production g (Parse.typeOperator g)
  | postfixType : Production g (Parse.postfixType g)
  | primaryType : Production g (Parse.primaryType g)
  | literalType (value : LiteralValue) : Production g (Parse.literalType value)
  | entityName : Production g Parse.entityName
  | typeReference : Production g (Parse.typeReference g)
  | typeArguments : Production g (Parse.typeArguments g)
  | closingAngle : Production g Parse.closingAngle
  | skipTypeParameters : Production g Parse.skipTypeParameters
  | functionType : Production g (Parse.functionType g)
  | tupleType : Production g (Parse.tupleType g)
  | typeMembers : Production g (Parse.typeMembers g)
  | typeMember : Production g (Parse.typeMember g)
  | formalParameters : Production g (Parse.formalParameters g)
  | parameter : Production g (Parse.parameter g)
  | restElement (mayAnnotate : Bool) : Production g (Parse.restElement g mayAnnotate)
  | bindingTarget : Production g (Parse.bindingTarget g)
  | annotatedBinding : Production g (Parse.annotatedBinding g)
  | annotate (target : NodeId) : Production g (Parse.annotate g target)
  | bindingElement (mayAnnotate : Bool) : Production g (Parse.bindingElement g mayAnnotate)
  | arrayPattern : Production g (Parse.arrayPattern g)
  | objectPattern : Production g (Parse.objectPattern g)
  | patternProperty : Production g (Parse.patternProperty g)
  | expression : Production g (Parse.expression g)
  | assignment : Production g (Parse.assignment g)
  | arrowFunction : Production g (Parse.arrowFunction g)
  | yieldExpression : Production g (Parse.yieldExpression g)
  | conditional : Production g (Parse.conditional g)
  | binary (least : Precedence) : Production g (Parse.binary g least)
  | unary : Production g (Parse.unary g)
  | unaryOperand : Production g (Parse.unaryOperand g)
  | postfixExpression : Production g (Parse.postfixExpression g)
  | leftHandSide : Production g (Parse.leftHandSide g)
  | suffixes (calls : Bool) (start : Span) (object : NodeId) :
      Production g (Parse.suffixes g calls start object)
  | newExpression : Production g (Parse.newExpression g)
  | arguments : Production g (Parse.arguments g)
  | spreadOrAssignment : Production g (Parse.spreadOrAssignment g)
  | primary : Production g (Parse.primary g)
  | template : Production g (Parse.template g)
  | parenthesized : Production g (Parse.parenthesized g)
  | arrayLiteral : Production g (Parse.arrayLiteral g)
  | objectLiteral : Production g (Parse.objectLiteral g)
  | objectMember : Production g (Parse.objectMember g)
  | methodFunction (isAsync generator : Bool) :
      Production g (Parse.methodFunction g isAsync generator)
  | signature : Production g (Parse.signature g)
  | functionExpression : Production g (Parse.functionExpression g)
  | statement : Production g (Parse.statement g)
  | expressionStatement : Production g (Parse.expressionStatement g)
  | block : Production g (Parse.block g)
  | variableStatement : Production g (Parse.variableStatement g)
  | variableHead : Production g (Parse.variableHead g)
  | functionDeclaration : Production g (Parse.functionDeclaration g)
  | classLike (expression : Bool) : Production g (Parse.classLike g expression)
  | classBody : Production g (Parse.classBody g)
  | classMember : Production g (Parse.classMember g)
  | parenExpression : Production g (Parse.parenExpression g)
  | ifStatement : Production g (Parse.ifStatement g)
  | forStatement : Production g (Parse.forStatement g)
  | whileStatement : Production g (Parse.whileStatement g)
  | doWhileStatement : Production g (Parse.doWhileStatement g)
  | returnStatement : Production g (Parse.returnStatement g)
  | jumpStatement (make : Option NodeId → Node) : Production g (Parse.jumpStatement make)
  | throwStatement : Production g (Parse.throwStatement g)
  | tryStatement : Production g (Parse.tryStatement g)
  | switchStatement : Production g (Parse.switchStatement g)
  | labeledStatement : Production g (Parse.labeledStatement g)
  | moduleName : Production g Parse.moduleName
  | skipImportAttributes : Production g Parse.skipImportAttributes
  | importDeclaration : Production g Parse.importDeclaration
  | exportDeclaration : Production g (Parse.exportDeclaration g)
  | typeAlias : Production g (Parse.typeAlias g)
  | interfaceDeclaration : Production g (Parse.interfaceDeclaration g)
  | expect (mark : Punct) : Production g (Parser.expect mark)
  | expectKeyword (word : Keyword) : Production g (Parser.expectKeyword word)
  | expectName (name : String) : Production g (Parser.expectName name)
  | consumeSemicolon : Production g Parser.consumeSemicolon

/-- The parser that gives the binding `target` its annotation. -/
inductive Annotates (g : Grammar) (target : NodeId) : {α : Type} → Parser α → Prop where
  | annotate : Annotates g target (Parse.annotate g target)

/-- All parsers but one leave alone what was there before them. -/
theorem Production.keeps_or_annotates (hg : g.Sound) {p : Parser α} (hp : Production g p) :
    Keeps p ∨ ∃ target, Annotates g target p := by
  cases hp with
  | literal value => exact .inl (keeps_literal value)
  | identifier => exact .inl grows_identifier.keeps
  | propertyIdentifier => exact .inl grows_propertyIdentifier.keeps
  | stringLiteral => exact .inl grows_stringLiteral.keeps
  | propertyKey => exact .inl (grows_propertyKey hg).keeps
  | typeAscription => exact .inl (grows_typeAscription hg).keeps
  | type => exact .inl (grows_type hg).keeps
  | intersectionType => exact .inl (grows_intersectionType hg).keeps
  | typeOperator => exact .inl (grows_typeOperator hg).keeps
  | postfixType => exact .inl (grows_postfixType hg).keeps
  | primaryType => exact .inl (grows_primaryType hg).keeps
  | literalType value => exact .inl (keeps_literalType value)
  | entityName => exact .inl grows_entityName.keeps
  | typeReference => exact .inl (grows_typeReference hg).keeps
  | typeArguments => exact .inl (grows_typeArguments hg).keeps
  | closingAngle => exact .inl grows_closingAngle.keeps
  | skipTypeParameters => exact .inl grows_skipTypeParameters.keeps
  | functionType => exact .inl (grows_functionType hg).keeps
  | tupleType => exact .inl (grows_tupleType hg).keeps
  | typeMembers => exact .inl (grows_typeMembers hg).keeps
  | typeMember => exact .inl (grows_typeMember hg).keeps
  | formalParameters => exact .inl (grows_formalParameters hg).keeps
  | parameter => exact .inl (grows_parameter hg).keeps
  | restElement mayAnnotate => exact .inl (grows_restElement hg mayAnnotate).keeps
  | bindingTarget => exact .inl (keeps_of_leads_bare fun _ => leads_bindingTarget hg)
  | annotatedBinding => exact .inl (grows_annotatedBinding hg).keeps
  | annotate target => exact .inr ⟨target, .annotate⟩
  | bindingElement mayAnnotate => exact .inl (grows_bindingElement hg mayAnnotate).keeps
  | arrayPattern => exact .inl (keeps_of_leads_bare fun _ => leads_arrayPattern hg)
  | objectPattern => exact .inl (keeps_of_leads_bare fun _ => leads_objectPattern hg)
  | patternProperty => exact .inl (grows_patternProperty hg).keeps
  | expression => exact .inl (grows_expression hg).keeps
  | assignment => exact .inl (grows_assignment hg).keeps
  | arrowFunction => exact .inl (grows_arrowFunction hg).keeps
  | yieldExpression => exact .inl (keeps_yieldExpression hg)
  | conditional => exact .inl (grows_conditional hg).keeps
  | binary least => exact .inl (grows_binary hg least).keeps
  | unary => exact .inl (grows_unary hg).keeps
  | unaryOperand => exact .inl (grows_unaryOperand hg).keeps
  | postfixExpression => exact .inl (grows_postfixExpression hg).keeps
  | leftHandSide => exact .inl (grows_leftHandSide hg).keeps
  | suffixes calls start object => exact .inl (keeps_suffixes hg calls start object)
  | newExpression => exact .inl (grows_newExpression hg).keeps
  | arguments => exact .inl (grows_arguments hg).keeps
  | spreadOrAssignment => exact .inl (grows_spreadOrAssignment hg).keeps
  | primary => exact .inl (grows_primary hg).keeps
  | template => exact .inl (grows_template hg).keeps
  | parenthesized => exact .inl (grows_parenthesized hg).keeps
  | arrayLiteral => exact .inl (grows_arrayLiteral hg).keeps
  | objectLiteral => exact .inl (grows_objectLiteral hg).keeps
  | objectMember => exact .inl (grows_objectMember hg).keeps
  | methodFunction isAsync generator =>
    exact .inl (grows_methodFunction hg isAsync generator).keeps
  | signature => exact .inl (grows_signature hg).keeps
  | functionExpression => exact .inl (grows_functionExpression hg).keeps
  | statement => exact .inl (grows_statement hg).keeps
  | expressionStatement => exact .inl (grows_expressionStatement hg).keeps
  | block => exact .inl (grows_block hg).keeps
  | variableStatement => exact .inl (grows_variableStatement hg).keeps
  | variableHead => exact .inl (grows_variableHead hg).keeps
  | functionDeclaration => exact .inl (grows_functionDeclaration hg).keeps
  | classLike expression => exact .inl (grows_classLike hg expression).keeps
  | classBody => exact .inl (grows_classBody hg).keeps
  | classMember => exact .inl (grows_classMember hg).keeps
  | parenExpression => exact .inl (grows_parenExpression hg).keeps
  | ifStatement => exact .inl (grows_ifStatement hg).keeps
  | forStatement => exact .inl (grows_forStatement hg).keeps
  | whileStatement => exact .inl (grows_whileStatement hg).keeps
  | doWhileStatement => exact .inl (grows_doWhileStatement hg).keeps
  | returnStatement => exact .inl (grows_returnStatement hg).keeps
  | jumpStatement make => exact .inl (keeps_jumpStatement make)
  | throwStatement => exact .inl (grows_throwStatement hg).keeps
  | tryStatement => exact .inl (grows_tryStatement hg).keeps
  | switchStatement => exact .inl (grows_switchStatement hg).keeps
  | labeledStatement => exact .inl (grows_labeledStatement hg).keeps
  | moduleName => exact .inl grows_moduleName.keeps
  | skipImportAttributes => exact .inl grows_skipImportAttributes.keeps
  | importDeclaration => exact .inl grows_importDeclaration.keeps
  | exportDeclaration => exact .inl (grows_exportDeclaration hg).keeps
  | typeAlias => exact .inl (grows_typeAlias hg).keeps
  | interfaceDeclaration => exact .inl (grows_interfaceDeclaration hg).keeps
  | expect mark => exact .inl (grows_expect mark).keeps
  | expectKeyword word => exact .inl (grows_expectKeyword word).keeps
  | expectName name => exact .inl (grows_expectName name).keeps
  | consumeSemicolon => exact .inl grows_consumeSemicolon.keeps

/-- An annotation is parsed as by any other parser; then the binding gets it, if there is one. -/
theorem leads_annotate_stretched (hg : g.Sound) (target : NodeId) :
    Leads s s (annotate g target) fun _ s' => ∃ s₁, Frame s s₁ ∧
      (s' = s₁ ∨ ∃ node, s' = { s₁ with tree := stretched s₁ target node }) := by
  unfold annotate
  refine ((grows_eatIf _ s).mono fun _ _ h => h.frame).bind fun optional s₁ h₁ => ?_
  refine (((grows_eatIf _ s₁).rebase h₁).mono fun _ _ h => h₁.trans h.frame).bind
    fun definite s₂ h₂ => ?_
  refine (((grows_typeAscription? hg s₂).rebase h₂).mono fun _ _ h => h₂.trans h.frame).bind
    fun ascription s₃ h₃ => ?_
  refine .ite (fun _ => ?_) fun _ => .pure ⟨s₃, h₃, .inl rfl⟩
  exact .ask_bind (leads_stretch ⟨s₃, h₃, .inr ⟨_, rfl⟩⟩)

/-- Run from `s`, the parser changes the state only as it may: a binding that it is to annotate is
the one node whose entry can be another one afterwards. -/
structure Framed (g : Grammar) (p : Parser α) (s : State) : Prop where
  depth : (p s).2.depth = s.depth
  allowIn : (p s).2.allowIn = s.allowIn
  tokens_size : (p s).2.tokens.size = s.tokens.size
  pos_le : s.pos ≤ (p s).2.pos
  entries : ∀ i e, s.tree.entry? i = some e →
    (p s).2.tree.entry? i = some e ∨ Annotates g i p

theorem Kept.entry? {s s' : State} (h : Kept s s') {i : NodeId} {e : Entry}
    (he : s.tree.entry? i = some e) : s'.tree.entry? i = some e := by
  rw [h.tree.kept i (Tree.lt_size_of_entry he), he]

theorem Kept.framed {p : Parser α} (h : Kept s (p s).2) : Framed g p s where
  depth := h.depth
  allowIn := h.allowIn
  tokens_size := h.tokens.size
  pos_le := h.pos_le
  entries _ _ he := .inl (h.entry? he)

theorem framed_annotate (hg : g.Sound) (target : NodeId) (s : State) :
    Framed g (annotate g target) s := by
  have hrun := leads_annotate_stretched (s := s) hg target
  unfold Leads at hrun
  split at hrun
  · next heq =>
    obtain ⟨s₁, hframe, rfl | ⟨node, rfl⟩⟩ := hrun
    · refine Kept.framed ?_
      rw [heq]
      exact hframe.kept
    · constructor <;> rw [heq]
      · exact hframe.depth
      · exact hframe.allowIn
      · exact hframe.tokens.size
      · exact hframe.pos_le
      · intro i e he
        rcases eq_or_ne i target with rfl | hne
        · exact .inr .annotate
        · refine .inl ?_
          rw [entry?_stretched_of_ne hne]
          exact hframe.kept.entry? he
  · next heq =>
    refine Kept.framed ?_
    rw [heq]
    exact hrun.kept

/-- Every parser of the grammar, on success and on failure alike, leaves the depth, the meaning of
`in`, the number of tokens and the nodes that were there as they were, and its cursor does not go
back. -/
theorem framed_of_production {n : Nat} {p : Parser α} (hp : Production (Grammar.upTo n) p)
    (s : State) : Framed (Grammar.upTo n) p s := by
  have hg := Grammar.sound_upTo n
  obtain hkeeps | ⟨target, ⟨⟩⟩ := hp.keeps_or_annotates hg
  · exact (hkeeps s).framed
  · exact framed_annotate hg target s

/-- A block whose end is missing fails inside a call, three levels down. -/
theorem framed_of_production_statement : ∃ s e s', Parse.start "\x7b f(a".toList = .ok s ∧
    statement (Grammar.upTo 16) s = (.error e, s') ∧
    Framed (Grammar.upTo 16) (statement (Grammar.upTo 16)) s := by
  have hrun : (match Parse.start "\x7b f(a".toList with
      | .ok s =>
        match statement (Grammar.upTo 16) s with
        | (.error _, _) => true
        | (.ok _, _) => false
      | .error _ => false) = true := by decide +kernel
  split at hrun
  · next s hstart =>
    split at hrun
    · next e s' herror => exact ⟨s, e, s', hstart, herror, framed_of_production .statement s⟩
    · cases hrun
  · cases hrun

end Parse
end ScriptLint
