import ScriptLint.Proofs.Parse.Twin.TypeExpr

namespace ScriptLint
namespace Parse

open ScriptLint.Parser

instance : Renumber Signature :=
  ⟨fun f s => { params := renumber f s.params, returnType := renumber f s.returnType }⟩

instance : Renumber FunctionHead :=
  ⟨fun f h => { params := renumber f h.params, returnType := renumber f h.returnType,
                id := renumber f h.id, isAsync := h.isAsync, generator := h.generator }⟩

instance : Renumber MemberHead := ⟨fun _ h => h⟩
instance : Nameless MemberHead := ⟨fun _ _ => rfl⟩

variable {w : Passage} {m : Mark} {k : Nat} {g : Side → Grammar}

theorem agrees_block (hg : Grammars k g) (hm : m.Within k) :
    Agrees w m (fun _ => m.step) fun i => block (g i) := by
  unfold block
  refine .span fun start => (Agrees.expect_open .leftBrace rfl rfl).seq fun _ => ?_
  have hbody := Agrees.itemsUntil (m.inside_opened w) .rightBrace fun j =>
    hg.statement (m := m.opened.turn j) hm.opened (m.inside_opened w)
  refine hbody.bind fun body => (Agrees.expect_close _ rfl).seq fun _ => ?_
  exact .finish (.blockStatement body) fun _ => rfl

theorem agrees_signature (hg : Grammars k g) (hm : m.Within k) :
    Agrees w m (fun _ => m.step) fun i => signature (g i) := by
  unfold signature
  refine Agrees.skipTypeParameters.seq fun _ => ?_
  refine (agrees_formalParameters hg (m := m.forget) hm).bind fun params => ?_
  refine (agrees_typeAscription? hg (m := m.step) hm.step).bind fun returnType => ?_
  exact .pure { params, returnType } (fun _ => rfl) (.refl _)

theorem agrees_methodFunction (hg : Grammars k g) (hm : m.Within k) (isAsync generator : Bool) :
    Agrees w m (fun _ => m.step) fun i => methodFunction (g i) isAsync generator := by
  unfold methodFunction
  refine .span fun start => (agrees_signature hg hm).bind fun s => ?_
  refine (agrees_block hg hm.step).relax.bind fun body => ?_
  exact .finish (.functionExpression
    { id := none, params := s.params, body, isAsync, generator, returnType := s.returnType })
    fun _ => rfl

theorem agrees_functionHead (hg : Grammars k g) (hm : m.Within k) :
    Agrees w m (fun _ => m.step) fun i => functionHead (g i) := by
  unfold functionHead
  refine (Agrees.eat_relax (takes_name w m _)).seq fun isAsync => ?_
  refine (Agrees.expectKeyword .functionWord).seq fun _ => ?_
  refine (Agrees.eat_relax (takes_mark w m.step rfl rfl)).seq fun generator => ?_
  have hid : Agrees w m.step (fun _ => m.step) fun _ => optionally atIdentifier identifier :=
    .optionally (.check (takes_named w m.step))
      (agrees_identifier.relax.strengthen (Mark.knowing_implies _)) (Mark.knowing_implies _)
  refine hid.bind fun id => ?_
  refine (agrees_signature hg hm.step).relax.bind fun s => ?_
  exact .pure { s with id, isAsync, generator } (fun _ => rfl) (.refl _)

theorem agrees_functionExpression (hg : Grammars k g) (hm : m.Within k) :
    Agrees w m (fun _ => m.step) fun i => functionExpression (g i) := by
  unfold functionExpression
  refine .span fun start => (agrees_functionHead hg hm).bind fun head => ?_
  refine (agrees_block hg hm.step).relax.bind fun body => ?_
  exact .finish (.functionExpression (head.withBody body)) fun _ => rfl

theorem agrees_functionDeclaration (hg : Grammars k g) (hm : m.Within k) (hin : m.Inside w) :
    Agrees w m (fun _ => m.step) fun i => functionDeclaration (g i) := by
  unfold functionDeclaration
  refine .span fun start => (agrees_functionHead hg hm).bind fun head => ?_
  refine .check_ite (fun _ hs hm => (takes_open w m.step rfl rfl).alike hs hm) ?_ ?_
  · refine ((agrees_block hg hm.step).relax.strengthen (Mark.knowing_implies _)).bind fun body => ?_
    exact .finish (.functionDeclaration (head.withBody body)) fun _ => rfl
  · refine (Agrees.consumeSemicolon (m := m.step) hin rfl).seq fun _ => ?_
    exact .finish (.declareFunction
      { id := head.id, params := head.params, returnType := head.returnType,
        isAsync := head.isAsync }) fun _ => rfl

theorem agrees_memberNext (hin : m.Inside w) :
    Agrees w m (fun _ => m) fun _ => memberNext := by
  refine (Agrees.answer fun s hs hm => ?_).weaken fun _ => Mark.knowing_implies _
  have hahead := hm.lt_count hs hin
  have hstarts := hs.apply_peek hahead (fun t => startsPropertyKey t || t.isPunct .star)
    (fun _ _ => rfl) (by rintro _ ⟨⟩ <;> rfl)
  simp only [hs.newlineAhead hahead, hstarts]

theorem agrees_atMemberModifier (hin : m.Inside w) :
    Agrees w m (fun b => m.knowing fun s => b = true → ∃ name, s.current = .identifier name)
      fun _ => atMemberModifier := by
  unfold atMemberModifier
  have hno : Agrees w m (fun b => m.knowing fun s => b = true → ∃ name, s.current = .identifier name)
      fun _ => pure false :=
    .pure false (fun _ => rfl) fun _ h => { h with known := ⟨h.known, nofun⟩ }
  refine .token hno (fun _ _ => rfl) (by rintro _ _ ⟨⟩ <;> rfl) fun t => ?_
  cases t with
  | identifier word =>
    refine .ite (fun _ => ?_) fun _ => hno.strengthen (Mark.knowing_implies _)
    refine (agrees_memberNext (m := m.knowing _) hin).weaken fun _ s h => ?_
    exact { h with known := ⟨h.known.1, fun _ => ⟨word, h.known.2⟩⟩ }
  | _ => exact hno.strengthen (Mark.knowing_implies _)

theorem agrees_accessorWord? (hin : m.Inside w) :
    Agrees w m (fun a => m.knowing fun s => a.isSome = true → ∃ name, s.current = .identifier name)
      fun _ => accessorWord? := by
  unfold accessorWord?
  have hno : Agrees w m
      (fun a => m.knowing fun s => a.isSome = true → ∃ name, s.current = .identifier name)
      fun _ => (pure none : Parser (Option Bool)) :=
    .pure none (fun _ => rfl) fun _ h => { h with known := ⟨h.known, nofun⟩ }
  have hyes : ∀ (accessor : Bool) (name : String),
      Agrees w (m.knowing fun s => s.current.isName name = true)
        (fun a => m.knowing fun s => a.isSome = true → ∃ name, s.current = .identifier name)
        fun _ => pure (some accessor) :=
    fun accessor name => .pure (some accessor) (fun _ => rfl) fun _ h =>
      { h with known := ⟨h.known.1, fun _ => ⟨name, eq_of_isName h.known.2⟩⟩ }
  refine .check_ite (fun s hs hm => hs.apply_peek (hm.lt_count hs hin) startsPropertyKey
    (fun _ _ => rfl) (by rintro _ ⟨⟩ <;> rfl)) (Agrees.strengthen ?_ (Mark.knowing_implies _)) hno
  refine .check_ite (fun s hs hm => (takes_name w m "get").alike hs hm) (hyes true "get") ?_
  exact .check_ite (fun s hs hm => (takes_name w m "set").alike hs hm) (hyes false "set") hno

theorem agrees_memberHead (hin : m.Inside w) :
    Agrees w m (fun _ => m.forget) fun _ => memberHead := by
  unfold memberHead
  have hstar : ∀ n : Mark, Agrees w n (fun _ => n.forget) fun _ => eat .star :=
    fun n => .eat_relax (takes_mark w n rfl rfl)
  refine (agrees_accessorWord? hin).seq fun accessor => .ite (fun haccessor => ?_) fun _ => ?_
  · refine Agrees.seq (Agrees.skip_identifier fun s hs => hs.2 haccessor) fun _ => ?_
    refine (hstar _).seq fun generator => ?_
    exact .pure { accessor, isAsync := false, generator } (fun _ => rfl) (Mark.step_implies m)
  refine Agrees.strengthen ?_ (Mark.knowing_implies _)
  refine (Agrees.check (takes_name w m "async")).seq fun async => ?_
  refine (agrees_memberNext (m := m.knowing _) hin).seq fun next => .ite (fun hboth => ?_) fun _ => ?_
  · rw [Bool.and_eq_true] at hboth
    rw [hboth.1]
    refine (Agrees.skip_of (takes_name w m "async")).seq fun _ => ?_
    refine (hstar _).seq fun generator => ?_
    exact .pure { accessor, isAsync := true, generator } (fun _ => rfl) (Mark.step_implies m)
  · refine (hstar _).seq fun generator => ?_
    exact .pure { accessor, isAsync := false, generator } (fun _ => rfl) (Mark.implies_forget _)

theorem agrees_isConstructorKey (key : NodeId) (computed : Bool) :
    Agrees w m (fun _ => m) fun i => isConstructorKey (w.id i key) computed := by
  unfold isConstructorKey
  refine .node_alike key (fun _ node => by cases node <;> rfl) (fun _ _ _ => rfl) fun node => ?_
  split
  · exact .pure _ (fun _ => rfl) (.refl _)
  · exact .pure false (fun _ => rfl) (.refl _)

theorem agrees_classModifiers (hin : m.Inside w) :
    Agrees w m (fun _ => m.forget) fun _ => loop false fun isStatic => do
      if ← atMemberModifier then
        let isStatic := isStatic || (← checkName "static")
        skip
        return .next isStatic
      else return .stop isStatic := by
  refine .loop false (fun _ => rfl) fun j isStatic => ?_
  refine (agrees_atMemberModifier (m := m.turn j) hin).seq fun b => ?_
  cases b with
  | false => exact .pure (.stop isStatic) (fun _ => rfl) (Mark.knowing_implies _)
  | true =>
    refine (Agrees.check (takes_name w _ "static")).seq fun named => ?_
    refine Agrees.seq (Agrees.skip_identifier fun s hs => hs.1.2 rfl) fun _ => ?_
    exact .pure (.next (isStatic || named)) (fun _ => rfl) (.refl _)

theorem agrees_classMember (hg : Grammars k g) (hm : m.Within k) (hin : m.Inside w) :
    Agrees w m (fun _ => m.step) fun i => classMember (g i) := by
  unfold classMember
  refine .span fun start => (agrees_classModifiers hin).seq fun isStatic => ?_
  refine (Agrees.check (takes_name w m.forget "static")).seq fun named => ?_
  refine .ask fun s hs hmark => ?_
  have hbrace := hs.peek_alike (hmark.lt_count hs hin) (·.isPunct .leftBrace) (fun _ _ => rfl)
    (by rintro _ ⟨⟩ <;> rfl)
  simp only [hbrace]
  refine .ite (fun _ => .fail _ _ fun _ => ⟨rfl, rfl⟩) fun _ => ?_
  refine Agrees.strengthen (n := m.forget) ?_ (Mark.implies_forget _)
  refine (agrees_memberHead (m := m.forget) hin).seq fun head => ?_
  refine (agrees_propertyKey hg (m := m.forget) hm).bind_pair fun key computed => ?_
  refine (Agrees.eat_relax (takes_mark w m.step rfl rfl)).seq fun optional => ?_
  refine .eat_if (takes_mark w m.step rfl rfl) ?_
  refine (Agrees.check (m := m.step) (takes_open w _ rfl rfl)).seq fun paren => ?_
  refine (Agrees.check (takes_mark w _ rfl rfl)).seq fun angle => ?_
  refine Agrees.strengthen (n := m.step) ?_ (Mark.implies_forget _)
  refine .ite (fun _ => ?_) fun _ => ?_
  · refine .span fun functionStart => ?_
    refine (agrees_signature hg hm.step).relax.bind fun s => ?_
    refine .check_ite (fun _ hs hm => (takes_open w m.step rfl rfl).alike hs hm) ?_ ?_
    · refine Agrees.strengthen ?_ (Mark.knowing_implies _)
      refine (agrees_block hg hm.step).relax.bind fun body => ?_
      refine (Agrees.finish (.functionExpression
        { id := none, params := s.params, body, isAsync := head.isAsync,
          generator := head.generator, returnType := s.returnType }) fun _ => rfl).bind fun value => ?_
      refine (agrees_isConstructorKey key computed).seq fun isConstructor => ?_
      exact .finish (.methodDefinition
        { key, value, kind := if isConstructor then .constructor else methodKind head.accessor,
          computed, isStatic }) fun _ => rfl
    · refine (Agrees.consumeSemicolon (m := m.step) hin rfl).seq fun _ => ?_
      exact .finish (.methodSignature key s.params s.returnType) fun _ => rfl
  · refine (agrees_typeAscription? hg (m := m.step) hm.step).bind fun ascription => ?_
    have hvalue : Agrees w m.step (fun _ => m.step) fun i =>
        optionally (eat .equal) (withIn true (g i).assignment) :=
      .optionally (.eatIf (takes_mark w m.step rfl rfl))
        ((Agrees.withIn (m := m.step.step) true (hg.assignment hm.step.step (hin.clears _))).relax.weaken
          fun _ => Mark.step_implies _) (.refl _)
    refine hvalue.bind fun value => ?_
    refine (Agrees.consumeSemicolon (m := m.step) hin rfl).seq fun _ => ?_
    exact .finish (.propertyDefinition
      { key, value, computed, isStatic, typeAscription := ascription }) fun _ => rfl

theorem agrees_classBody (hg : Grammars k g) (hm : m.Within k) :
    Agrees w m (fun _ => m.step) fun i => classBody (g i) := by
  unfold classBody
  refine .span fun start => (Agrees.expect_open .leftBrace rfl rfl).seq fun _ => ?_
  have hin : m.opened.Inside w := m.inside_opened w
  refine (Agrees.itemsUntil hin .rightBrace fun j => ?_).bind fun members => ?_
  · refine .eatIf_ite (takes_semicolon (m := m.opened.turn j) hin)
      (.pure none (fun _ => rfl) (.refl _)) ?_
    refine (agrees_classMember hg (m := m.opened.turn j) hm.opened hin).bind fun member => ?_
    exact .pure (some member) (fun _ => rfl) (.refl _)
  · refine (Agrees.expect_close _ rfl).seq fun _ => ?_
    exact .finish (.classBody (members.filterMap fun id => id)) fun i =>
      congrArg Node.classBody (Node.filterMap_map (w.id i) members)

theorem agrees_superClass (hg : Grammars k g) (hm : m.budget < k) (hclear : m.Clears w .exponentiation) :
    Agrees w m (fun _ => m.step) fun i => superClass (g i) := by
  unfold superClass
  refine (hg.leftHandSide hm hclear).bind fun parent => ?_
  have hm' : m.step.Within k := Mark.Within.step hm.le
  refine .check_ite (fun _ hs hm => (takes_mark w m.step rfl rfl).alike hs hm) ?_ ?_
  · refine ((agrees_typeArguments hg hm').relax.strengthen (Mark.knowing_implies _)).bind fun _ => ?_
    exact .pure parent (fun _ => rfl) (.refl _)
  · exact .pure parent (fun _ => rfl) (.refl _)

/-- In front of an access, where what a class extends could be accessed too, there is no such class. -/
theorem agrees_parent (hg : Grammars k g) (hm : m.Within k) :
    Agrees w m (fun _ => m.forget) fun i =>
      optionally (eatKeyword .extendsWord) (superClass (g i)) := by
  by_cases hclear : m.Clears w .exponentiation
  · exact .optionally (.eatIf (takes_keyword w m _))
      ((agrees_superClass hg (hm.lt hg.pos) hclear).relax.weaken fun _ => Mark.step_implies _) (.refl _)
  · obtain ⟨hon, hlevel⟩ := Classical.not_imp.mp hclear
    have hceiling := Nat.lt_of_not_le fun hle => hlevel (.inr hle)
    intro s hs hmark
    have hleft : (s .left).current.isKeyword .extendsWord = false := by
      have htoken := Array.getElem?_eq_getElem (hs.pos_lt_size .left)
      rw [State.current, State.tokenAt, htoken]
      exact hs.tokens.heritage hon hceiling _ _ htoken
    have hword : ∀ i, (s i).current.isKeyword .extendsWord = false := fun i => by
      cases i with
      | left => exact hleft
      | right => exact ((takes_keyword w m .extendsWord).alike hs hmark).trans hleft
    have heat : ∀ i, eatKeyword .extendsWord (s i) = (.ok false, s i) := fun i => by
      simp [eatKeyword, Parser.eatIf, hword i]
    exact .value none s (fun i => (bind_of_ok (heat i)).trans rfl) hs (m.implies_forget _ hmark)

/-- Whether a token is the name of a class. -/
def namesClass : Token → Bool
  | .identifier name => name != "implements"
  | _ => false

theorem agrees_classLike (hg : Grammars k g) (hm : m.Within k) (expression : Bool) :
    Agrees w m (fun _ => m.step) fun i => classLike (g i) expression := by
  unfold classLike
  refine .span fun start => (Agrees.expectKeyword .classWord).seq fun _ => ?_
  have hname : Takes w m.step namesClass m.step.level :=
    takes_word w m.step (fun _ _ => rfl) rfl fun _ => rfl
  have hid : Agrees w m.step (fun _ => m.step) fun _ => optionally atClassName identifier :=
    .optionally (.check hname) (agrees_identifier.relax.strengthen (Mark.knowing_implies _))
      (Mark.knowing_implies _)
  refine hid.bind fun id => Agrees.skipTypeParameters.seq fun _ => ?_
  have hparent : Agrees w m.step (fun _ => m.step) fun i =>
      optionally (eatKeyword .extendsWord) (superClass (g i)) := agrees_parent hg hm.step
  refine hparent.bind fun parent => ?_
  have hbody : Agrees w m.step (fun _ => m.step) fun i => (do
      let body ← classBody (g i)
      let c : Class := { id := renumber (w.id i) id, superClass := renumber (w.id i) parent, body }
      finish (start i) (if expression then .classExpression c else .classDeclaration c)) := by
    refine (agrees_classBody hg hm.step).relax.bind fun body => ?_
    refine .finish (if expression then .classExpression { id, superClass := parent, body }
      else .classDeclaration { id, superClass := parent, body }) fun _ => ?_
    split <;> rfl
  refine .eatIf_ite (takes_name w m.step _) ?_ hbody
  have htypes := Agrees.separatedBy .comma rfl rfl (hg.type (w := w) hm.step.step)
    fun j => hg.type (m := (m.step.step.step.turn j).step) hm.step.step.step.step
  exact (htypes.relax.weaken fun _ => Mark.step_implies _).bind fun _ => hbody

end Parse
end ScriptLint
