import ScriptLint.Proofs.Parse.Composed
import ScriptLint.Proofs.Parse.TypeExpr
import ScriptLint.Proofs.Parse.Twin.Pattern

namespace ScriptLint
namespace Parse

open ScriptLint.Parser

variable {g : Grammar} {r : Bool} {c : Site}

theorem composed_identifier : Composed g r c identifier fun _ => true := by
  refine .note fun span => .current fun t => ?_
  split
  · exact .bind (.take rfl) fun _ => .alloc _ _ ⟨rfl, rfl, rfl⟩
  · exact .unexpected _

theorem composed_propertyIdentifier : Composed g r c propertyIdentifier fun _ => true := by
  refine .note fun span => .current fun t => ?_
  split
  · exact .bind (.take rfl) fun _ => .alloc _ _ ⟨rfl, rfl, rfl⟩
  · exact .bind (.take rfl) fun _ => .alloc _ _ ⟨rfl, rfl, rfl⟩
  · exact .unexpected _

/-- The token at the cursor is not the last one when it is known to be another one. -/
theorem Site.ne_eof {t : Token} (h : t.isEof = false) :
    ∀ s, (c.knowing fun s => s.current = t).known s → s.current ≠ .eof := by
  intro s hs heq
  rw [← hs.2, heq] at h
  cases h

theorem composed_literal (value : LiteralValue) (h : ∀ s, c.known s → s.current ≠ .eof) :
    Composed g r c (literal value) fun _ => true :=
  .note fun _ => .bind (.skip fun s hs => h s hs) fun _ => .ask (fun _ _ => rfl) fun _ =>
    .alloc _ _ ⟨rfl, rfl, rfl⟩

theorem composed_stringLiteral : Composed g r c stringLiteral fun _ => true := by
  refine .current fun t => ?_
  split
  · exact composed_literal _ (Site.ne_eof rfl)
  · exact .unexpected _

theorem composed_propertyKey : Composed g r c (propertyKey g) fun _ => true := by
  refine .current fun t => ?_
  split
  · refine .bind (.take rfl) fun _ => .seq (.within true (.counted .assignment)) fun key => ?_
    exact .seq (.expect .rightBracket) fun _ => .pure _ rfl
  · exact .bind (composed_literal _ (Site.ne_eof rfl)) fun key => .pure _ rfl
  · exact .bind (composed_literal _ (Site.ne_eof rfl)) fun key => .pure _ rfl
  · exact .bind composed_propertyIdentifier fun key => .pure _ rfl

theorem composed_typeAscription? : Composed g r c (typeAscription? g) fun _ => false :=
  .still (.optionally_ask (fun _ _ => rfl) .typeAscription)

/-- A binding, whose annotation is given to it when it is there. -/
theorem composed_annotatedBinding (hg : g.Sound) (hmoved : c.moved = true) :
    Composed g r c (annotatedBinding g) fun _ => true :=
  .annotated (.uncounted .bindingTarget hmoved) fun s => (hg.bindingTarget s).mono fun _ _ h => h.2

theorem composed_restElement (mayAnnotate : Bool) :
    Composed g r c (restElement g mayAnnotate) fun _ => true := by
  refine .note fun start => .bind (.expect _) fun _ => ?_
  refine .seq (.uncounted .bindingTarget rfl) fun argument => ?_
  refine .ite (fun _ => .weaken (.rest start argument composed_typeAscription?) (.refl _) ?_)
    fun _ => ?_
  · exact fun _ h => h
  · have hbare : Composed g r ((c.noting start).after true |>.after true)
        (Parser.finish start (.restElement argument none)) fun _ => false :=
      .finish _ _ ⟨rfl, rfl, rfl⟩
    exact hbare

theorem composed_withDefault (start : Span) (target : NodeId) :
    Composed g r c (withDefault g start target) fun _ => false := by
  refine .seq (.eat .equal) fun eaten => .ite (fun _ => ?_) fun _ => .pure _ rfl
  exact .seq (.within true (.counted .assignment)) fun right => .finish _ _ ⟨rfl, rfl, rfl⟩

theorem composed_bindingElement (hg : g.Sound) (hmoved : c.moved = true) (mayAnnotate : Bool) :
    Composed g r c (bindingElement g mayAnnotate) fun _ => true := by
  refine .note fun start => ?_
  cases mayAnnotate with
  | false =>
    exact .bind (.uncounted .bindingTarget hmoved) fun target => composed_withDefault start target
  | true =>
    exact .bind (composed_annotatedBinding hg hmoved) fun target =>
      composed_withDefault start target

theorem composed_parameter (hg : g.Sound) (hmoved : c.moved = true) :
    Composed g r c (parameter g) fun _ => true := by
  refine .bind (.loop () fun _ => .test (fun _ _ => rfl) ?_ (.pure _ rfl)) fun _ => ?_
  · refine .bind (.skip fun s hs heq => ?_) fun _ => .pure _ rfl
    obtain ⟨word, hword⟩ := eq_of_modifies hs.2
    cases hword.symm.trans heq
  refine .test (fun _ _ => rfl) (.last (composed_restElement true)) (.test (fun _ _ => rfl) ?_ ?_)
  · refine .note fun span => .bind (.skip fun s hs heq => ?_) fun _ => ?_
    · have hword := hs.2
      simp [heq, Token.isKeyword] at hword
    · exact .annotated (.alloc _ _ ⟨rfl, rfl, rfl⟩) fun s =>
        (leads_alloc_node _ _).mono fun _ _ h => h ▸ bare_identifier _
  · exact .last (composed_bindingElement hg (by simpa [Site.after, Site.knowing] using hmoved) true)

theorem composed_formalParameters (hg : g.Sound) :
    Composed g r c (formalParameters g) fun _ => true := by
  refine .bind (.expect _) fun _ => ?_
  refine .within true (.seq (.commaSeparated _ (composed_parameter hg rfl)) fun params => ?_)
  exact .seq (.expect _) fun _ => .pure _ rfl

theorem composed_elementsWithHoles {element : Parser NodeId}
    (h : Composed g r (c.after false) element fun _ => true) :
    Composed g r c (elementsWithHoles element) fun _ => false := by
  refine .itemsUntil _ (.bind (.eat .comma) fun eaten => .ite (fun heaten => ?_) fun heaten => ?_)
  · exact .pure _ (by simp [heaten])
  · simp only [Bool.not_eq_true] at heaten
    subst heaten
    refine .bind h fun value => .ask (fun _ _ => rfl) fun closed => ?_
    exact .when (fun _ => .expect .comma) fun _ => .pure _ rfl

theorem composed_arrayPattern (hg : g.Sound) : Composed g r c (arrayPattern g) fun _ => true := by
  refine .note fun start => .bind (.expect _) fun _ => ?_
  refine .seq (composed_elementsWithHoles ?_) fun elements => ?_
  · exact .test (fun _ _ => rfl) (composed_restElement false) (composed_bindingElement hg rfl false)
  · exact .seq (.expect _) fun _ => .finish _ _ ⟨rfl, rfl, rfl⟩

theorem composed_isIdentifier (id : NodeId) : Composed g r c (isIdentifier id) fun _ => false := by
  refine .ask (fun _ _ => rfl) fun node => ?_
  split <;> exact .pure _ rfl

theorem composed_patternProperty (hg : g.Sound) :
    Composed g r c (patternProperty g) fun _ => true := by
  refine .note fun start => .bind composed_propertyKey ?_
  rintro ⟨key, computed⟩
  refine .seq (.eat .colon) fun eaten => .ite (fun _ => ?_) fun _ => ?_
  · refine .seq (composed_bindingElement hg (by simp [Site.after]) false) fun value => ?_
    exact .finish _ _ ⟨rfl, rfl, rfl⟩
  · refine .seq (composed_isIdentifier key) fun named => .ite (fun _ => ?_) fun _ => .unexpected _
    exact .seq (composed_withDefault start key) fun value => .finish _ _ ⟨rfl, rfl, rfl⟩

theorem composed_objectPattern (hg : g.Sound) : Composed g r c (objectPattern g) fun _ => true := by
  refine .note fun start => .bind (.expect _) fun _ => ?_
  refine .seq (.commaSeparated _ ?_) fun properties => ?_
  · exact .test (fun _ _ => rfl) (composed_restElement false) (composed_patternProperty hg)
  · exact .seq (.expect _) fun _ => .finish _ _ ⟨rfl, rfl, rfl⟩

theorem composed_bindingTarget (hg : g.Sound) : Composed g r c (bindingTarget g) fun _ => true := by
  refine .current fun t => ?_
  split
  · exact composed_arrayPattern hg
  · exact composed_objectPattern hg
  · exact composed_identifier

theorem composed_closingAngle : Composed g r c closingAngle fun _ => true := by
  refine .current fun t => .ite (fun hangle => .skip fun s hs heq => ?_) fun _ => ?_
  · rw [← hs.2, heq] at hangle
    cases hangle
  · split
    · next rest hcut => exact .splitCurrent rest fun s hs => hs.2 ▸ hcut
    · exact .unexpected _

theorem composed_skipTypeParameters : Composed g r c skipTypeParameters fun _ => false := by
  refine .seq (.eat .less) fun eaten => .ite (fun _ => ?_) fun _ => .pure _ rfl
  refine .seq (.loop 1 fun depth => ?_) fun _ => .pure _ rfl
  refine .ite (fun _ => .pure _ rfl) fun _ => .current fun t => ?_
  refine .ite (fun _ => .unexpected _) fun heof => ?_
  have hne : t.isEof = false := (Bool.not_eq_true _).mp heof
  refine .ite (fun _ => ?_) fun _ => .ite (fun _ => ?_) fun _ => ?_
  · exact .bind (.take hne) fun _ => .pure _ rfl
  · exact .bind composed_closingAngle fun _ => .pure _ rfl
  · exact .bind (.take hne) fun _ => .pure _ rfl

theorem composed_typeArguments : Composed g r c (typeArguments g) fun _ => true := by
  refine .bind (.expect _) fun _ => ?_
  refine .seq (.separatedBy _ (.counted .type) (.counted .type)) fun arguments => ?_
  exact .seq composed_closingAngle fun _ => .pure _ rfl

theorem composed_entityName : Composed g r c entityName fun _ => true := by
  refine .note fun start => .bind composed_identifier fun first => .loop first fun left => ?_
  refine .bind (.eat .dot) fun eaten => .ite (fun heaten => ?_) fun _ => .pure _ (Bool.and_false _)
  refine .seq composed_propertyIdentifier fun right => ?_
  exact .seq (.finish _ _ ⟨rfl, rfl, rfl⟩) fun name => .pure _ (by simp [heaten])

theorem composed_typeReference : Composed g r c (typeReference g) fun _ => true :=
  .typeReference composed_entityName composed_typeArguments

theorem composed_wordReference (name : String) (h : ∀ s, c.known s → s.current ≠ .eof) :
    Composed g r c (wordReference name) fun _ => true := by
  refine .note fun span => .bind (.skip fun s hs => h s hs) fun _ => ?_
  exact .seq (.alloc _ _ ⟨rfl, rfl, rfl⟩) fun typeName => .alloc _ _ ⟨rfl, rfl, rfl⟩

theorem composed_literalType (value : LiteralValue) (h : ∀ s, c.known s → s.current ≠ .eof) :
    Composed g r c (literalType value) fun _ => true := by
  refine .note fun span => .bind (composed_literal value fun s hs => h s hs) fun value => ?_
  exact .alloc _ _ ⟨rfl, rfl, rfl⟩

theorem composed_wordType (word : TypeWord) (h : ∀ s, c.known s → s.current ≠ .eof) :
    Composed g r c (wordType word) fun _ => true :=
  .note fun _ => .bind (.skip fun s hs => h s hs) fun _ => .alloc _ _ ⟨rfl, rfl, rfl⟩

theorem composed_functionType (hg : g.Sound) : Composed g r c (functionType g) fun _ => true := by
  refine .note fun start => .bind composed_skipTypeParameters fun _ => ?_
  refine .bind (composed_formalParameters hg) fun params => .seq (.expect _) fun _ => ?_
  exact .seq (.counted .type) fun returnType => .finish _ _ ⟨rfl, rfl, rfl⟩

theorem composed_tupleType : Composed g r c (tupleType g) fun _ => true := by
  refine .note fun start => .bind (.expect _) fun _ => ?_
  refine .seq (.commaSeparated _ ?_) fun elements => ?_
  · refine .seq (.eat .dotDotDot) fun _ => .test (fun _ _ => rfl) ?_ (.counted .type)
    refine .seq .skip_any fun _ => .seq (.eat .question) fun _ => .seq (.expect _) fun _ => ?_
    exact .counted .type
  · exact .seq (.expect _) fun _ => .finish _ _ ⟨rfl, rfl, rfl⟩

theorem composed_typeMember (hg : g.Sound) : Composed g r c (typeMember g) fun _ => true := by
  refine .note fun start => .ask (fun _ _ => rfl) fun readonly => ?_
  refine .when (fun _ => .skip_any) fun taken => .test (fun _ _ => rfl) ?_ ?_
  · refine .seq .skip_any fun _ => .bind composed_identifier fun key => ?_
    refine .seq (.expect _) fun _ => .seq (.counted .type) fun _ => .seq (.expect _) fun _ => ?_
    exact .seq .typeAscription fun ascription => .finish _ _ ⟨rfl, rfl, rfl⟩
  · refine .bind composed_propertyKey ?_
    rintro ⟨key, computed⟩
    refine .seq (.eat .question) fun optional => ?_
    refine .ask (fun _ _ => rfl) fun paren => .ask (fun _ _ => rfl) fun angle => ?_
    refine .ite (fun _ => ?_) fun _ => ?_
    · refine .seq composed_skipTypeParameters fun _ => ?_
      refine .seq (composed_formalParameters hg) fun params => ?_
      exact .seq composed_typeAscription? fun returnType => .finish _ _ ⟨rfl, rfl, rfl⟩
    · exact .seq composed_typeAscription? fun ascription => .finish _ _ ⟨rfl, rfl, rfl⟩

theorem composed_typeMembers (hg : g.Sound) : Composed g r c (typeMembers g) fun _ => true := by
  refine .bind (.expect _) fun _ => .seq (.itemsUntil _ ?_) fun members => ?_
  · refine .bind (composed_typeMember hg) fun member => ?_
    refine .seq (.eat .semicolon) fun _ => .ite (fun _ => .pure _ rfl) fun _ => ?_
    refine .seq (.eat .comma) fun _ => .ite (fun _ => .pure _ rfl) fun _ => ?_
    refine .ask (fun _ _ => rfl) fun closed => .ask (fun _ _ => rfl) fun newline => ?_
    exact .ite (fun _ => .unexpected _) fun _ => .pure _ rfl
  · exact .seq (.expect _) fun _ => .pure _ rfl

theorem composed_negativeLiteralType (value : Binary64) (h : ∀ s, c.known s → s.current ≠ .eof) :
    Composed g r c (negativeLiteralType value) fun _ => true := by
  refine .note fun start => .bind (.skip fun s hs => h s hs) fun _ => .seq .skip_any fun _ => ?_
  refine .ask (fun _ _ => rfl) fun span => .ask (fun _ _ => rfl) fun text => ?_
  exact .seq (.alloc _ _ ⟨rfl, rfl, rfl⟩) fun value => .alloc _ _ ⟨rfl, rfl, rfl⟩

theorem composed_primaryType (hg : g.Sound) : Composed g r c (primaryType g) fun _ => true := by
  refine .note fun start => .current fun t => ?_
  split
  · refine .ask (fun _ _ => rfl) fun next => ?_
    split
    · exact composed_wordType _ fun s hs heq => by cases hs.1.2.symm.trans heq
    · refine .bind composed_typeReference fun reference => ?_
      refine .ask (fun _ _ => rfl) fun asserts => .ask (fun _ _ => rfl) fun newline => ?_
      refine .ite (fun _ => ?_) fun _ => .pure _ rfl
      exact .seq .skip_any fun _ => .last (.counted .type)
  · exact composed_wordType _ (Site.ne_eof rfl)
  · exact composed_wordType _ (Site.ne_eof rfl)
  · exact composed_wordReference _ (Site.ne_eof rfl)
  · exact composed_wordReference _ (Site.ne_eof rfl)
  · refine .bind (.take rfl) fun _ => .seq composed_entityName fun name => ?_
    exact .finish _ _ ⟨rfl, rfl, rfl⟩
  · exact composed_literalType _ (Site.ne_eof rfl)
  · exact composed_literalType _ (Site.ne_eof rfl)
  · exact composed_literalType _ (Site.ne_eof rfl)
  · exact composed_literalType _ (Site.ne_eof rfl)
  · refine .ask (fun _ _ => rfl) fun next => ?_
    split
    · exact composed_negativeLiteralType _ fun s hs heq => by cases hs.1.2.symm.trans heq
    · exact .unexpected _
  · exact .bind (composed_typeMembers hg) fun members => .finish _ _ ⟨rfl, rfl, rfl⟩
  · exact composed_tupleType
  · refine .test (fun _ _ => rfl) (composed_functionType hg) ?_
    refine .seq .skip_any fun _ => .bind (.counted .type) fun inner => ?_
    exact .seq (.expect _) fun _ => .pure _ rfl
  · exact composed_functionType hg
  · exact .bind (.take rfl) fun _ => .last (composed_functionType hg)
  · exact .unexpected _

theorem composed_postfixType (hg : g.Sound) : Composed g r c (postfixType g) fun _ => true := by
  refine .note fun start => .bind (composed_primaryType hg) fun first => .loop first fun type => ?_
  refine .ask (fun _ _ => rfl) fun bracket => .ask (fun _ _ => rfl) fun newline => ?_
  refine .ite (fun hmore => ?_) fun _ => .pure _ rfl
  refine .bind (.skip fun s hs heq => ?_) fun _ => ?_
  · simp only [Bool.and_eq_true] at hmore
    have hbracket := hs.1.2.trans hmore.1
    simp [heq, Token.isPunct] at hbracket
  refine .seq (.eat .rightBracket) fun _ => .ite (fun _ => ?_) fun _ => ?_
  · exact .seq (.finish _ _ ⟨rfl, rfl, rfl⟩) fun array => .pure _ rfl
  · refine .seq (.counted .type) fun index => .seq (.expect _) fun _ => ?_
    exact .seq (.finish _ _ ⟨rfl, rfl, rfl⟩) fun access => .pure _ rfl

theorem composed_typeOperator (hg : g.Sound) : Composed g r c (typeOperator g) fun _ => true := by
  refine .note fun start => .current fun t => ?_
  split
  · refine .ask (fun _ _ => rfl) fun next => .ite (fun _ => ?_) fun _ => composed_postfixType hg
    refine .bind (.skip fun s hs heq => by cases hs.1.2.symm.trans heq) fun _ => ?_
    exact .seq (.uncounted .typeOperator rfl) fun type => .finish _ _ ⟨rfl, rfl, rfl⟩
  · exact composed_postfixType hg

theorem composed_joinedTypes (mark : Punct) {operand : Parser NodeId} {join : List NodeId → Node}
    (hoperand : ∀ c, Composed g r c operand fun _ => true) (hjoin : ∀ types, (join types).Untyped) :
    Composed g r c (joinedTypes mark operand join) fun _ => true := by
  refine .note fun start => .seq (.eat mark) fun _ => ?_
  refine .bind (.separatedBy _ (hoperand _) (hoperand _)) fun types => ?_
  split
  · exact .pure _ rfl
  · exact .finish _ _ (hjoin _)

theorem composed_intersectionType (hg : g.Sound) :
    Composed g r c (intersectionType g) fun _ => true :=
  composed_joinedTypes .amp (fun _ => composed_typeOperator hg) fun _ => ⟨rfl, rfl, rfl⟩

/-- A whole type, one level further in. -/
theorem composed_unionType (hg : g.Sound) :
    Composed g r c (joinedTypes .pipe (intersectionType g) .unionType) fun _ => true :=
  composed_joinedTypes .pipe (fun _ => composed_intersectionType hg) fun _ => ⟨rfl, rfl, rfl⟩

end Parse
end ScriptLint
