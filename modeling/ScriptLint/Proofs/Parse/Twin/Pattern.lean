import ScriptLint.Proofs.Parse.Twin.Name

namespace ScriptLint
namespace Parse

open ScriptLint.Parser

variable {w : Passage} {m : Mark} {k : Nat} {g : Side → Grammar}

theorem isSome_renumber {α : Type} [Renumber α] (f : NodeId → NodeId) (a : Option α) :
    (renumber f a).isSome = a.isSome :=
  Option.isSome_map

theorem isNone_renumber {α : Type} [Renumber α] (f : NodeId → NodeId) (a : Option α) :
    (renumber f a).isNone = a.isNone :=
  Option.isNone_map

theorem annotated_renumber (f : NodeId → NodeId) (optional : Bool) (ascription : Option NodeId)
    (node : Node) :
    annotated optional (ascription.map f) (node.renumber f) =
      (annotated optional ascription node).renumber f := by
  cases node <;> rfl

theorem annotated_twin {verbatim : Bool} {f : NodeId → NodeId} {node node' : Node} (optional : Bool)
    (ascription : Option NodeId) (h : node.Twin verbatim f node') :
    (annotated optional ascription node).Twin verbatim f
      (annotated optional (ascription.map f) node') := by
  rcases h with rfl | ⟨hverbatim, value, raw, raw', rfl, rfl⟩
  · exact .inl (annotated_renumber f optional ascription node)
  · exact .inr ⟨hverbatim, value, raw, raw', rfl, rfl⟩

theorem agrees_annotate (hg : Grammars k g) (hm : m.Within k) (target : NodeId) :
    Agrees w m (fun _ => m.forget) fun i => annotate (g i) (w.id i target) := by
  unfold annotate
  refine (Agrees.eat_relax (takes_mark w m rfl rfl)).seq fun optional => ?_
  refine (Agrees.eat_relax (takes_mark w m.forget rfl rfl)).seq fun definite => ?_
  refine (agrees_typeAscription? hg (m := m.forget) hm).bind fun ascription => ?_
  simp only [isSome_renumber]
  refine .ite (fun _ => ?_) fun _ => .pure () (fun _ => rfl) (.refl _)
  refine .node target fun node hnode => ?_
  refine (Agrees.setNode target ?_).seq fun _ => .extendRange target
  have hleft : renumber (w.id .left) ascription = ascription := by cases ascription <;> rfl
  rw [hleft]
  exact annotated_twin optional ascription hnode

theorem agrees_annotatedBinding (hg : Grammars k g) (hm : m.budget < k) :
    Agrees w m (fun _ => m.step) fun i => annotatedBinding (g i) := by
  unfold annotatedBinding
  refine (hg.bindingTarget hm).bind fun target => ?_
  refine (agrees_annotate hg (Mark.Within.step hm.le) target).seq fun _ => ?_
  exact .pure target (fun _ => rfl) (.refl _)

theorem agrees_restElement (hg : Grammars k g) (hm : m.Within k) (mayAnnotate : Bool) :
    Agrees w m (fun _ => m.step) fun i => restElement (g i) mayAnnotate := by
  unfold restElement
  refine .span fun start => (Agrees.expect .dotDotDot rfl rfl).seq fun _ => ?_
  refine (hg.bindingTarget (hm.lt hg.pos)).relax.bind fun argument => ?_
  have hrest : ∀ ascription : Option NodeId, Agrees w m.step (fun _ => m.step) fun i =>
      finish (start i) (.restElement (w.id i argument) (renumber (w.id i) ascription)) :=
    fun ascription => .finish (.restElement argument ascription) fun _ => rfl
  exact .ite (fun _ => (agrees_typeAscription? hg hm.step).bind hrest) fun _ => hrest none

theorem agrees_withDefault (hg : Grammars k g) (hm : m.Within k) (hin : m.Inside w)
    (start : Side → Span) (target : NodeId) :
    Agrees w m (fun _ => m.forget) fun i => withDefault (g i) (start i) (w.id i target) := by
  unfold withDefault
  refine .eatIf_ite (takes_mark w m rfl rfl) ?_ (.pure target (fun _ => rfl) (.refl _))
  refine (Agrees.withIn (m := m.step) true (hg.assignment hm.step (hin.clears _))).relax.bind fun right => ?_
  exact (Agrees.finish (.assignmentPattern target right) fun _ => rfl).weaken fun _ => m.step_implies

theorem agrees_bindingElement (hg : Grammars k g) (hm : m.budget < k) (hin : m.Inside w)
    (mayAnnotate : Bool) : Agrees w m (fun _ => m.step) fun i => bindingElement (g i) mayAnnotate := by
  unfold bindingElement
  refine .span fun start => ?_
  have hrest := agrees_withDefault hg (m := m.step) (Mark.Within.step hm.le) hin start
  exact .ite (fun _ => (agrees_annotatedBinding hg hm).bind hrest)
    fun _ => (hg.bindingTarget hm).bind hrest

/-- Whether the first of two tokens is a modifier of the second. -/
def modifies : Token → Token → Bool
  | .identifier word, .identifier _ => parameterModifiers.contains word
  | .identifier word, .punct .leftBrace => parameterModifiers.contains word
  | .identifier word, .punct .leftBracket => parameterModifiers.contains word
  | _, _ => false

theorem eq_of_modifies {t u : Token} (h : modifies t u = true) : ∃ name, t = .identifier name := by
  unfold modifies at h
  split at h <;> first | exact ⟨_, rfl⟩ | cases h

theorem agrees_atParameterModifier :
    Agrees w m (fun b => m.knowing fun s => modifies s.current s.peek = b)
      fun _ => atParameterModifier := by
  refine .answer fun s hs _ => hs.apply_both modifies false (fun _ _ => rfl) ?_ ?_ ?_
  · rintro _ _ ⟨⟩ <;> rfl
  · intro t parts parts'
    cases t <;> rfl
  · rintro t _ ⟨⟩ <;> cases t <;> rfl

theorem agrees_parameterModifiers :
    Agrees w m (fun _ => m.forget) fun _ => loop () fun _ => do
      if ← atParameterModifier then
        skip
        return .next ()
      else return .stop () := by
  refine .loop () (fun _ => rfl) fun j _ => agrees_atParameterModifier.seq fun b => ?_
  cases b with
  | false => exact .pure (.stop ()) (fun _ => rfl) (Mark.knowing_implies _)
  | true =>
    refine Agrees.seq (Agrees.skip_identifier ?_) fun _ => .pure (.next ()) (fun _ => rfl) (.refl _)
    exact fun s hs => eq_of_modifies hs.2

theorem agrees_parameter (hg : Grammars k g) (hm : m.budget < k) (hin : m.Inside w) :
    Agrees w m (fun _ => m.step) fun i => parameter (g i) := by
  unfold parameter
  refine agrees_parameterModifiers.seq fun _ => ?_
  refine .check_ite (fun _ hs hm => (takes_mark w m.forget rfl rfl).alike hs hm) ?_ ?_
  · exact (agrees_restElement hg (m := m.forget) hm.le true).strengthen (Mark.knowing_implies _)
  refine .check_ite (fun _ hs hm => (takes_keyword w m.forget _).alike hs hm) ?_ ?_
  · refine .span fun span => (Agrees.skip_of (takes_keyword w m.forget _)).seq fun _ => ?_
    refine (Agrees.alloc (.identifier { name := "this" }) fun _ => rfl).bind fun id => ?_
    refine (agrees_annotate hg (Mark.Within.step hm.le) id).seq fun _ => ?_
    exact .pure id (fun _ => rfl) (.refl _)
  · exact agrees_bindingElement hg (m := m.forget) hm hin true

theorem agrees_formalParameters (hg : Grammars k g) (hm : m.Within k) :
    Agrees w m (fun _ => m.step) fun i => formalParameters (g i) := by
  unfold formalParameters
  refine (Agrees.expect_open .leftParen rfl rfl).seq fun _ => ?_
  refine Agrees.withIn (m := m.opened) (N := fun _ => m.step) true ?_
  have hparams := Agrees.commaSeparated (m.inside_opened w) .rightParen fun j =>
    agrees_parameter hg (m := m.opened.turn j) (hm.lt hg.pos) (m.inside_opened w)
  refine hparams.bind fun params => ?_
  exact (Agrees.expect_close _ rfl).seq fun _ => .pure params (fun _ => rfl) (.refl _)

theorem agrees_elementsWithHoles (hin : m.Inside w) {element : Side → Parser NodeId}
    (helement : ∀ j, Agrees w (m.turn j) (fun _ => (m.turn j).step) element) :
    Agrees w m (fun _ => m.forget) fun i => elementsWithHoles (element i) := by
  refine .itemsUntil hin .rightBracket fun j => ?_
  refine .eatIf_ite (takes_mark w _ rfl rfl) (.pure none (fun _ => rfl) (.refl _)) ?_
  refine (helement j).bind fun value => ?_
  refine (Agrees.check_inside (m := (m.turn j).step) hin .rightBracket).seq fun closes => ?_
  cases closes with
  | true => exact .pure (some value) (fun _ => rfl) (Mark.knowing_implies _)
  | false =>
    refine ((Agrees.expect .comma rfl rfl).strengthen (Mark.knowing_implies _)).seq fun _ => ?_
    exact .pure (some value) (fun _ => rfl) (Mark.step_implies _)

theorem agrees_arrayPattern (hg : Grammars k g) (hm : m.Within k) :
    Agrees w m (fun _ => m.step) fun i => arrayPattern (g i) := by
  unfold arrayPattern
  refine .span fun start => (Agrees.expect_open .leftBracket rfl rfl).seq fun _ => ?_
  refine (agrees_elementsWithHoles (m.inside_opened w) fun j => ?_).bind fun elements => ?_
  · refine .check_ite (fun _ hs hm => (takes_mark w _ rfl rfl).alike hs hm) ?_ ?_
    · exact (agrees_restElement hg (m := m.opened.turn j) hm.opened false).strengthen
        (Mark.knowing_implies _)
    · exact agrees_bindingElement hg (m := m.opened.turn j) (hm.lt hg.pos) (m.inside_opened w) false
  · refine (Agrees.expect_close _ rfl).seq fun _ => ?_
    exact .finish (.arrayPattern elements none) fun _ => rfl

/-- Whether a node is a name is the same on both sides. -/
theorem agrees_isIdentifier (id : NodeId) :
    Agrees w m (fun _ => m) fun i => isIdentifier (w.id i id) := by
  unfold isIdentifier
  refine .node_alike id (fun _ node => by cases node <;> rfl) (fun _ _ _ => rfl) fun node => ?_
  split
  · exact .pure true (fun _ => rfl) (.refl _)
  · exact .pure false (fun _ => rfl) (.refl _)

theorem agrees_patternProperty (hg : Grammars k g) (hm : m.Within k) (hin : m.Inside w) :
    Agrees w m (fun _ => m.step) fun i => patternProperty (g i) := by
  unfold patternProperty
  refine .span fun start => (agrees_propertyKey hg hm).bind_pair fun key computed => ?_
  refine .eatIf_ite (takes_mark w m.step rfl rfl) ?_ ?_
  · refine (agrees_bindingElement hg (m := m.step.step) ?_ hin false).relax.bind fun value => ?_
    · exact hm.step.lt hg.pos
    · refine (Agrees.finish (.property
        { key, value, kind := .init, computed, shorthand := false, method := false })
        fun _ => rfl).weaken fun _ => Mark.step_implies _
  · refine (agrees_isIdentifier key).seq fun named => .ite (fun _ => ?_) fun _ => .unexpected _
    refine (agrees_withDefault hg (m := m.step) hm.step hin start key).bind fun value => ?_
    exact .finish (.property
      { key, value, kind := .init, computed, shorthand := true, method := false }) fun _ => rfl

theorem agrees_objectPattern (hg : Grammars k g) (hm : m.Within k) :
    Agrees w m (fun _ => m.step) fun i => objectPattern (g i) := by
  unfold objectPattern
  refine .span fun start => (Agrees.expect_open .leftBrace rfl rfl).seq fun _ => ?_
  refine (Agrees.commaSeparated (m.inside_opened w) _ fun j => ?_).bind fun properties => ?_
  · refine .check_ite (fun _ hs hm => (takes_mark w _ rfl rfl).alike hs hm) ?_ ?_
    · exact (agrees_restElement hg (m := m.opened.turn j) hm.opened false).strengthen
        (Mark.knowing_implies _)
    · exact agrees_patternProperty hg (m := m.opened.turn j) hm.opened (m.inside_opened w)
  · refine (Agrees.expect_close _ rfl).seq fun _ => ?_
    exact .finish (.objectPattern properties none) fun _ => rfl

theorem agrees_bindingTarget (hg : Grammars k g) (hm : m.Within k) :
    Agrees w m (fun _ => m.step) fun i => bindingTarget (g i) := by
  unfold bindingTarget
  refine .token agrees_identifier (fun _ _ => rfl) (by rintro _ _ ⟨⟩ <;> rfl) fun t => ?_
  refine Agrees.strengthen ?_ (Mark.knowing_implies _)
  cases t with
  | punct mark =>
    cases mark with
    | leftBracket => exact agrees_arrayPattern hg hm
    | leftBrace => exact agrees_objectPattern hg hm
    | _ => exact agrees_identifier
  | _ => exact agrees_identifier

end Parse
end ScriptLint
