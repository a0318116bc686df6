import ScriptLint.Proofs.Parse.Climbing
import ScriptLint.Proofs.Parse.Composed.TypeExpr
import ScriptLint.Proofs.Parse.Expression

namespace ScriptLint
namespace Parse

open ScriptLint.Parser

variable {g : Grammar} {r : Bool} {c : Site}

theorem composed_block (hbody : r = true ∨ ∀ s, c.known s → BeforeBody g s) :
    Composed g r c (block g) fun _ => true := by
  refine .block hbody (.note fun start => .bind (.expect _) fun _ => ?_)
  refine .seq (.itemsUntil _ (.counted .statement)) fun body => ?_
  exact .seq (.expect _) fun _ => .finish _ _ ⟨rfl, rfl, rfl⟩

theorem composed_signature (hg : g.Sound) : Composed g r c (signature g) fun _ => true := by
  refine .bind composed_skipTypeParameters fun _ =>
    .bind (composed_formalParameters hg) fun params => ?_
  exact .seq composed_typeAscription? fun returnType => .pure _ rfl

theorem composed_methodFunction (hg : g.Sound) (isAsync generator : Bool) :
    Composed g r c (methodFunction g isAsync generator) fun _ => true := by
  refine .note fun start => .follow (composed_signature hg) fun signature => ?_
  refine .seq (composed_block (.inr fun s hs => ?_)) fun body => .finish _ _ ⟨rfl, rfl, rfl⟩
  obtain ⟨-, s₀, hrun⟩ := hs
  exact ⟨s₀, signature, hrun⟩

theorem composed_functionHead (hg : g.Sound) : Composed g r c (functionHead g) fun _ => true := by
  refine .seq (.eatName _) fun isAsync => .bind (.expectKeyword _) fun _ => ?_
  refine .seq (.eat _) fun generator => ?_
  refine .seq (.optionally_ask (fun _ _ => rfl) composed_identifier) fun id => ?_
  exact .seq (composed_signature hg) fun signature => .pure _ rfl

theorem beforeBody_of_functionHead {s₀ s : State} {head : FunctionHead}
    (h : functionHead g s₀ = (.ok head, s)) : BeforeBody g s := by
  obtain ⟨isAsync, s₁, -, h⟩ := exists_of_bind h
  obtain ⟨_, s₂, -, h⟩ := exists_of_bind h
  obtain ⟨generator, s₃, -, h⟩ := exists_of_bind h
  obtain ⟨id, s₄, -, h⟩ := exists_of_bind h
  obtain ⟨signature, s₅, hsignature, h⟩ := exists_of_bind h
  obtain ⟨-, rfl⟩ := Prod.mk.inj h
  exact ⟨s₄, signature, hsignature⟩

theorem composed_functionExpression (hg : g.Sound) :
    Composed g r c (functionExpression g) fun _ => true := by
  refine .note fun start => .follow (composed_functionHead hg) fun head => ?_
  refine .seq (composed_block (.inr fun s hs => ?_)) fun body => .finish _ _ ⟨rfl, rfl, rfl⟩
  obtain ⟨-, s₀, hrun⟩ := hs
  exact beforeBody_of_functionHead hrun

theorem composed_functionDeclaration (hg : g.Sound) :
    Composed g true c (functionDeclaration g) fun _ => true := by
  refine .note fun start => .bind (composed_functionHead hg) fun head =>
    .test (fun _ _ => rfl) ?_ ?_
  · exact .seq (composed_block (.inl rfl)) fun body => .finish _ _ ⟨rfl, rfl, rfl⟩
  · exact .seq .consumeSemicolon fun _ => .finish _ _ ⟨rfl, rfl, rfl⟩

theorem composed_memberHead : Composed g r c memberHead fun _ => false := by
  have haccessor : Composed g r c accessorWord? fun _ => false := by
    refine .test (fun _ _ => rfl) (.test (fun _ _ => rfl) (.pure _ rfl) ?_) (.pure _ rfl)
    exact .test (fun _ _ => rfl) (.pure _ rfl) (.pure _ rfl)
  refine .seq haccessor fun accessor => .ite (fun _ => ?_) fun _ => ?_
  · exact .seq .skip_any fun _ => .seq (.eat _) fun generator => .pure _ rfl
  · refine .ask (fun _ _ => rfl) fun isAsync => .ask (fun _ _ => rfl) fun next => ?_
    refine .ite (fun _ => ?_) fun _ => ?_
    · exact .seq .skip_any fun _ => .seq (.eat _) fun generator => .pure _ rfl
    · exact .seq (.eat _) fun generator => .pure _ rfl

/-- Whether a name and the token after it are a modifier of a member and what it stands before. -/
def modifiesMember (s : State) : Bool :=
  match s.current with
  | .identifier word => memberModifiers.contains word &&
      (!s.newlineBeforeAt (s.pos + 1) && (startsPropertyKey s.peek || s.peek.isPunct .star))
  | _ => false

theorem atMemberModifier_eq : atMemberModifier = ask modifiesMember := by
  funext s
  unfold atMemberModifier
  change (match s.current with
    | .identifier word => if memberModifiers.contains word then memberNext else return false
    | _ => return false : Parser Bool) s = (.ok (modifiesMember s), s)
  unfold modifiesMember
  cases s.current with
  | identifier word =>
    change (if memberModifiers.contains word then memberNext else return false : Parser Bool) s =
      (.ok (memberModifiers.contains word && _), s)
    cases memberModifiers.contains word <;> rfl
  | _ => rfl

theorem ne_eof_of_modifiesMember (s : State) (h : modifiesMember s = true) : s.current ≠ .eof := by
  intro heof
  simp [modifiesMember, heof] at h

theorem composed_isConstructorKey (key : NodeId) (computed : Bool) :
    Composed g r c (isConstructorKey key computed) fun _ => false := by
  refine .ask (fun _ _ => rfl) fun node => ?_
  split <;> exact .pure _ rfl

theorem composed_classMember (hg : g.Sound) : Composed g r c (classMember g) fun _ => true := by
  refine .note fun start => .seq (.loop false fun isStatic => ?_) fun isStatic => ?_
  · rw [atMemberModifier_eq]
    refine .test (fun _ _ => rfl) (.ask (fun _ _ => rfl) fun static => ?_) (.pure _ rfl)
    exact .bind (.skip fun s hs => ne_eof_of_modifiesMember s hs.1.2) fun _ => .pure _ rfl
  refine .ask (fun _ _ => rfl) fun static => .ask (fun _ _ => rfl) fun next => ?_
  refine .when (fun _ => .unsupported _ List.mem_cons_self) fun _ => ?_
  refine .seq composed_memberHead fun head => .bind composed_propertyKey ?_
  rintro ⟨key, computed⟩
  refine .seq (.eat .question) fun optional => ?_
  refine .when (fun _ => .eat .bang) fun _ => ?_
  refine .ask (fun _ _ => rfl) fun paren => .ask (fun _ _ => rfl) fun angle =>
    .ite (fun _ => ?_) fun _ => ?_
  · refine .note fun functionStart => .follow (composed_signature hg) fun signature => ?_
    refine .test (fun _ _ => rfl) ?_ ?_
    · refine .seq (composed_block (.inr fun s hs => ?_)) fun body => ?_
      · obtain ⟨⟨-, s₀, hrun⟩, -⟩ := hs
        exact ⟨s₀, signature, hrun⟩
      refine .seq (.finish _ _ ⟨rfl, rfl, rfl⟩) fun value => ?_
      refine .seq (composed_isConstructorKey key computed) fun isConstructor => ?_
      exact .finish _ _ ⟨rfl, rfl, rfl⟩
    · exact .seq .consumeSemicolon fun _ => .finish _ _ ⟨rfl, rfl, rfl⟩
  · refine .seq composed_typeAscription? fun ascription => ?_
    refine .seq (.optionally (.eat _) (.within true (.counted .assignment))) fun value => ?_
    exact .seq .consumeSemicolon fun _ => .finish _ _ ⟨rfl, rfl, rfl⟩

theorem composed_classBody (hg : g.Sound) : Composed g r c (classBody g) fun _ => true := by
  refine .note fun start => .bind (.expect _) fun _ => .seq (.itemsUntil _ ?_) fun members => ?_
  · refine .bind (.eat .semicolon) fun eaten => .ite (fun heaten => ?_) fun _ => ?_
    · exact .pure _ (by simp [heaten])
    · exact .last (.bind (composed_classMember hg) fun member => .pure _ rfl)
  · exact .seq (.expect _) fun _ => .finish _ _ ⟨rfl, rfl, rfl⟩

theorem composed_superClass (hmoved : c.moved = true) :
    Composed g r c (superClass g) fun _ => true := by
  refine .bind (.uncounted .leftHandSide hmoved) fun parent =>
    .test (fun _ _ => rfl) ?_ (.pure _ rfl)
  exact .seq composed_typeArguments fun _ => .pure _ rfl

theorem composed_classLike (hg : g.Sound) (expression : Bool) :
    Composed g r c (classLike g expression) fun _ => true := by
  refine .note fun start => .bind (.expectKeyword _) fun _ => ?_
  refine .seq (.optionally_ask (fun _ _ => rfl) composed_identifier) fun id => ?_
  refine .seq composed_skipTypeParameters fun _ => ?_
  refine .seq (.optionally (.eatKeyword _) (composed_superClass rfl)) fun parent => ?_
  refine .seq (.eatName _) fun implements => ?_
  refine .when (fun _ => .separatedBy _ (.counted .type) (.counted .type)) fun _ => ?_
  refine .seq (composed_classBody hg) fun body => .finish _ _ ?_
  split <;> exact ⟨rfl, rfl, rfl⟩

theorem composed_expression : Composed g true c (expression g) fun _ => true := by
  refine .note fun start =>
    .bind (.separatedBy _ (.counted .assignment) (.counted .assignment)) fun expressions => ?_
  split
  · exact .pure _ rfl
  · exact .finish _ _ ⟨rfl, rfl, rfl⟩

theorem composed_spreadOrAssignment : Composed g true c (spreadOrAssignment g) fun _ => true := by
  refine .test (fun _ _ => rfl) (.note fun start => ?_) (.counted .assignment)
  refine .seq .skip_any fun _ => .bind (.counted .assignment) fun argument => ?_
  exact .finish _ _ ⟨rfl, rfl, rfl⟩

theorem composed_arguments : Composed g r c (arguments g) fun _ => true := by
  refine .bind (.expect _) fun _ => .within true (.seq (.commaSeparated _ ?_) fun arguments => ?_)
  · exact composed_spreadOrAssignment
  · exact .seq (.expect _) fun _ => .pure _ rfl

theorem composed_template (h : ∀ s, c.known s → ∃ parts, s.current = .template parts) :
    Composed g r c (template g) fun _ => true :=
  .template h composed_expression

theorem composed_parenthesized : Composed g r c (parenthesized g) fun _ => true := by
  refine .note fun start => .bind (.expect _) fun _ =>
    .seq (.within true composed_expression) fun e => ?_
  exact .seq (.expect _) fun _ => .finish _ _ ⟨rfl, rfl, rfl⟩

theorem composed_arrayLiteral : Composed g r c (arrayLiteral g) fun _ => true := by
  refine .note fun start => .bind (.expect _) fun _ => ?_
  refine .seq (.within true (composed_elementsWithHoles composed_spreadOrAssignment))
    fun elements => ?_
  exact .seq (.expect _) fun _ => .finish _ _ ⟨rfl, rfl, rfl⟩

theorem composed_objectMember (hg : g.Sound) :
    Composed g true c (objectMember g) fun _ => true := by
  refine .note fun start => .test (fun _ _ => rfl) composed_spreadOrAssignment ?_
  refine .seq composed_memberHead fun head => .bind composed_propertyKey ?_
  rintro ⟨key, computed⟩
  refine .ask (fun _ _ => rfl) fun paren => .ask (fun _ _ => rfl) fun angle =>
    .ite (fun _ => ?_) fun _ => ?_
  · exact .seq (composed_methodFunction hg _ _) fun value => .finish _ _ ⟨rfl, rfl, rfl⟩
  refine .ite (fun _ => .unexpected _) fun _ => ?_
  refine .seq (.eat .colon) fun eaten => .ite (fun _ => ?_) fun _ => ?_
  · exact .seq (.counted .assignment) fun value => .finish _ _ ⟨rfl, rfl, rfl⟩
  refine .seq (composed_isIdentifier key) fun named => .ite (fun _ => .unexpected _) fun _ => ?_
  refine .seq (.eat .equal) fun eaten => .ite (fun _ => ?_) fun _ => .finish _ _ ⟨rfl, rfl, rfl⟩
  refine .seq (.counted .assignment) fun right => .seq (.finish _ _ ⟨rfl, rfl, rfl⟩) fun value => ?_
  exact .finish _ _ ⟨rfl, rfl, rfl⟩

theorem composed_objectLiteral (hg : g.Sound) : Composed g r c (objectLiteral g) fun _ => true := by
  refine .note fun start => .bind (.expect _) fun _ => ?_
  refine .seq (.within true (.commaSeparated _ (composed_objectMember hg))) fun properties => ?_
  exact .seq (.expect _) fun _ => .finish _ _ ⟨rfl, rfl, rfl⟩

theorem composed_word {node : Node} (hnode : node.Untyped) (h : ∀ s, c.known s → s.current ≠ .eof) :
    Composed g r c (word node) fun _ => true :=
  .note fun _ => .bind (.skip fun s hs => h s hs) fun _ => .alloc _ _ hnode

theorem composed_primary (hg : g.Sound) : Composed g r c (primary g) fun _ => true := by
  refine .note fun span => .current fun t => ?_
  split
  · exact .test (fun _ _ => rfl) (composed_functionExpression hg) composed_identifier
  · exact composed_word ⟨rfl, rfl, rfl⟩ (Site.ne_eof rfl)
  · exact composed_word ⟨rfl, rfl, rfl⟩ (Site.ne_eof rfl)
  · exact composed_literal _ (Site.ne_eof rfl)
  · exact composed_literal _ (Site.ne_eof rfl)
  · exact composed_literal _ (Site.ne_eof rfl)
  · exact composed_functionExpression hg
  · exact composed_classLike hg true
  · exact composed_word ⟨rfl, rfl, rfl⟩ (Site.ne_eof rfl)
  · exact composed_literal _ (Site.ne_eof rfl)
  · exact composed_literal _ (Site.ne_eof rfl)
  · exact composed_template fun s hs => ⟨_, hs.2⟩
  · exact composed_parenthesized
  · exact composed_arrayLiteral
  · exact composed_objectLiteral hg
  · exact .unsupported _ List.mem_cons_self
  · exact .unsupported _ List.mem_cons_self
  · exact .unsupported _ List.mem_cons_self
  · exact .unexpected _

theorem composed_index (h : ∀ s, c.known s → s.current ≠ .eof) :
    Composed g r c (index g) fun _ => true := by
  refine .bind (.skip fun s hs => h s hs) fun _ =>
    .seq (.within true composed_expression) fun property => ?_
  exact .seq (.expect _) fun _ => .pure _ rfl

theorem composed_suffix? (calls : Bool) (start : Span) (object : NodeId) :
    Composed g r c (suffix? g calls start object) Option.isSome := by
  refine .current fun t => ?_
  split
  · refine .last (.bind (.take rfl) fun _ => .seq composed_propertyIdentifier fun property => ?_)
    exact .seq (.finish _ _ ⟨rfl, rfl, rfl⟩) fun e => .pure _ rfl
  · refine .ite (fun _ => .last (.bind (.take rfl) fun _ => .current fun t => ?_))
      fun _ => .pure _ rfl
    split
    · refine .seq composed_arguments fun arguments => ?_
      exact .seq (.finish _ _ ⟨rfl, rfl, rfl⟩) fun e => .pure _ rfl
    · refine .seq (composed_index (Site.ne_eof rfl)) fun property => ?_
      exact .seq (.finish _ _ ⟨rfl, rfl, rfl⟩) fun e => .pure _ rfl
    · refine .seq composed_propertyIdentifier fun property => ?_
      exact .seq (.finish _ _ ⟨rfl, rfl, rfl⟩) fun e => .pure _ rfl
  · refine .last (.bind (composed_index (Site.ne_eof rfl)) fun property => ?_)
    exact .seq (.finish _ _ ⟨rfl, rfl, rfl⟩) fun e => .pure _ rfl
  · refine .ite (fun _ => .last (.bind composed_arguments fun arguments => ?_)) fun _ => .pure _ rfl
    exact .seq (.finish _ _ ⟨rfl, rfl, rfl⟩) fun e => .pure _ rfl
  · refine .last (.bind (composed_template fun s hs => ⟨_, hs.2⟩) fun quasi => ?_)
    exact .seq (.finish _ _ ⟨rfl, rfl, rfl⟩) fun e => .pure _ rfl
  · refine .test (fun _ _ => rfl) (.pure _ rfl) (.last ?_)
    refine .bind (.skip fun s hs heq => by cases hs.1.2.symm.trans heq) fun _ => ?_
    exact .seq (.finish _ _ ⟨rfl, rfl, rfl⟩) fun e => .pure _ rfl
  · exact .pure _ rfl

theorem composed_suffixes (calls : Bool) (start : Span) (object : NodeId) :
    Composed g r c (suffixes g calls start object) fun _ => false := by
  refine .seq (.loop (object, false) ?_) ?_
  · rintro ⟨object, inChain⟩
    refine .bind (composed_suffix? calls start object) fun found => ?_
    cases found with
    | none => exact .pure _ rfl
    | some e => exact .pure _ rfl
  · rintro ⟨e, inChain⟩
    exact .ite (fun _ => .finish _ _ ⟨rfl, rfl, rfl⟩) fun _ => .pure _ rfl

theorem composed_newExpression (hg : g.Sound) : Composed g r c (newExpression g) fun _ => true := by
  refine .note fun start => .bind (.expectKeyword _) fun _ => .ask (fun _ _ => rfl) fun dot => ?_
  refine .when (fun _ => .unsupported _ List.mem_cons_self) fun _ => ?_
  refine .note fun calleeStart => .ask (fun _ _ => rfl) fun new => ?_
  refine .either (fun _ => ⟨_, .uncounted .new (by simp [Site.after, Site.noting, Site.knowing])⟩)
    (fun _ => ⟨_, composed_primary hg⟩) fun callee taken => ?_
  refine .seq (composed_suffixes _ _ _) fun callee => .ask (fun _ _ => rfl) fun paren => ?_
  refine .either (fun _ => ⟨_, composed_arguments⟩) (fun _ => ⟨fun _ => false, .pure _ rfl⟩) ?_
  exact fun arguments taken => .finish _ _ ⟨rfl, rfl, rfl⟩

theorem composed_leftHandSide (hg : g.Sound) : Composed g r c (leftHandSide g) fun _ => true := by
  refine .note fun start => .test (fun _ _ => rfl) ?_ ?_
  · exact .bind (composed_newExpression hg) fun e => composed_suffixes _ _ _
  · exact .bind (composed_primary hg) fun e => composed_suffixes _ _ _

theorem composed_postfixExpression (hg : g.Sound) :
    Composed g r c (postfixExpression g) fun _ => true := by
  refine .note fun start => .bind (composed_leftHandSide hg) fun argument => .current fun t => ?_
  split
  · refine .test (fun _ _ => rfl) (.pure _ rfl) (.seq .skip_any fun _ => ?_)
    exact .finish _ _ ⟨rfl, rfl, rfl⟩
  · exact .pure _ rfl

theorem composed_unaryOperand (hg : g.Sound) :
    Composed g true c (unaryOperand g) fun _ => true := by
  refine .note fun start => .current fun t => ?_
  split
  · refine .seq .skip_any fun _ => .bind (.counted .unary) fun argument => ?_
    exact .finish _ _ ⟨rfl, rfl, rfl⟩
  · refine .seq .skip_any fun _ => .bind (.counted .unary) fun argument => ?_
    exact .finish _ _ ⟨rfl, rfl, rfl⟩
  · refine .seq (.eatKeyword _) fun eaten => .ite (fun _ => ?_) fun _ => ?_
    · exact .bind (.counted .unary) fun argument => .finish _ _ ⟨rfl, rfl, rfl⟩
    · exact .ite (fun _ => .unsupported _ List.mem_cons_self) fun _ => composed_postfixExpression hg

theorem composed_unary (hg : g.Sound) : Composed g true c (unary g) fun _ => true :=
  .nested (composed_unaryOperand hg)

theorem untyped_infixNode (left right : NodeId) (operator : InfixOperator) :
    (infixNode left right operator).Untyped := by
  cases operator <;> exact ⟨rfl, rfl, rfl⟩

theorem composed_infixTail? (least : Precedence) (start : Span) (left : NodeId) :
    Composed g true c (infixTail? g least start left) Option.isSome := by
  refine .ask (fun _ _ => rfl) fun asserts => .ask (fun _ _ => rfl) fun newline => ?_
  refine .ite (fun hasserts => ?_) fun _ => ?_
  · refine .last (.bind (.skip fun s hs heq => ?_) fun _ => ?_)
    · simp only [Bool.and_eq_true] at hasserts
      have hname := hs.1.2.trans hasserts.1.1
      simp [heq, Token.isName] at hname
    · refine .seq (.counted .type) fun type => ?_
      exact .seq (.finish _ _ ⟨rfl, rfl, rfl⟩) fun e => .pure _ rfl
  · refine .operator (f := joinTail? g least start left) fun found => ?_
    cases found with
    | none => exact .pure _ rfl
    | some operator =>
      refine .ite (fun _ => .pure _ rfl) fun _ =>
        .last (.bind (.skip fun s hs heq => ?_) fun _ => ?_)
      · have hoperator := hs.2
        simp [heq, InfixOperator.ofToken?] at hoperator
      · refine .seq (.uncounted (.binary _) rfl) fun right => ?_
        exact .seq (.finish _ _ (untyped_infixNode _ _ _)) fun e => .pure _ rfl

theorem composed_binary (hg : g.Sound) (least : Precedence) :
    Composed g true c (binary g least) fun _ => true := by
  refine .note fun start => .bind (composed_unary hg) fun first => .loop first fun left => ?_
  refine .bind (composed_infixTail? least start left) fun found => ?_
  cases found with
  | none => exact .pure _ rfl
  | some e => exact .pure _ rfl

theorem composed_conditional (hg : g.Sound) : Composed g true c (conditional g) fun _ => true := by
  refine .note fun start => .bind (composed_binary hg _) fun test => ?_
  refine .seq (.eat .question) fun eaten => .ite (fun _ => ?_) fun _ => .pure _ rfl
  refine .seq (.within true (.counted .assignment)) fun consequent => .seq (.expect _) fun _ => ?_
  exact .seq (.counted .assignment) fun alternate => .finish _ _ ⟨rfl, rfl, rfl⟩

theorem composed_yieldExpression (h : ∀ s, c.known s → s.current ≠ .eof) :
    Composed g true c (yieldExpression g) fun _ => true := by
  refine .note fun start => .bind (.skip fun s hs => h s hs) fun _ =>
    .seq (.eat .star) fun delegate => ?_
  refine .ask (fun _ _ => rfl) fun newline => .current fun t => ?_
  refine .either (fun _ => ⟨fun _ => false, .pure _ rfl⟩)
    (fun _ => ⟨_, .map (.counted .assignment)⟩) ?_
  exact fun argument taken => .finish _ _ ⟨rfl, rfl, rfl⟩

theorem composed_arrowFunction (hg : g.Sound) :
    Composed g true c (arrowFunction g) fun _ => true := by
  refine .note fun start => .ask (fun _ _ => rfl) fun isAsync =>
    .ask (fun _ _ => rfl) fun next => ?_
  refine .when (fun _ => .skip_any) fun taken => .seq composed_skipTypeParameters fun _ => ?_
  refine .ask (fun _ _ => rfl) fun named => .either (fun _ => ⟨_, .map composed_identifier⟩)
    (fun _ => ⟨_, composed_formalParameters hg⟩) fun params taken => ?_
  refine .seq composed_typeAscription? fun returnType => .bind (.expect _) fun _ => ?_
  refine .test (fun _ _ => rfl) ?_ ?_
  · exact .seq (composed_block (.inl rfl)) fun body => .finish _ _ ⟨rfl, rfl, rfl⟩
  · exact .seq (.counted .assignment) fun body => .finish _ _ ⟨rfl, rfl, rfl⟩

theorem composed_plainAssignment (hg : g.Sound) :
    Composed g true c (plainAssignment g) fun _ => true := by
  refine .test (fun _ _ => rfl) (composed_yieldExpression fun s hs heq => ?_)
    (.note fun start => ?_)
  · have hword := hs.2
    simp [heq, Token.isKeyword] at hword
  · refine .bind (composed_conditional hg) fun left => .current fun t => ?_
    split
    · exact .pure _ rfl
    · refine .seq .skip_any fun _ => .when (fun _ => .toPattern left) fun _ => ?_
      exact .seq (.counted .assignment) fun right => .finish _ _ ⟨rfl, rfl, rfl⟩

/-- An expression without a comma at its top, one level further in. -/
theorem exists_assignment_eq (hg : g.Sound) :
    ∃ body, assignment g = nested body ∧ Composed g true c body fun _ => true := by
  refine ⟨_, rfl, .ask (fun _ _ => rfl) fun guess => ?_⟩
  cases guess with
  | yes => exact composed_arrowFunction hg
  | maybe =>
    refine .bind (.attempt (grows_arrowFunction hg) (composed_arrowFunction hg)) fun found => ?_
    cases found with
    | none => exact composed_plainAssignment hg
    | some arrow => exact .pure _ rfl
  | no => exact composed_plainAssignment hg

end Parse
end ScriptLint
