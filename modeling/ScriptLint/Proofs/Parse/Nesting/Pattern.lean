import ScriptLint.Proofs.Parse.Extent
import ScriptLint.Proofs.Parse.Nesting.Fitted

namespace ScriptLint

namespace Parse

/-- A binding that has just been made: what it holds was there before it, so that it can still get
an annotation. -/
structure Pending (b s : State) (target : NodeId) : Prop where
  frame : Frame b s
  fresh : b.tree.size ≤ target
  inside : target < s.tree.size
  cost : (s.tree.node target).cost true = 0
  plain : (s.tree.node target).infix? = none ∧ (s.tree.node target).applied? = none ∧
    (s.tree.node target).isQuoted = false
  made : b.Steady → ∃ t : Tree, t.Continues s.tree ∧ t.size = target ∧
    ∀ c ∈ s.tree.children target,
      t.Fits b.source ((s.tree.node target).binds true c) (b.room 0) c

end Parse

open Parse in
/-- Every construct of the grammar fits. Those that are operands of others stand one or two levels
below the construct that is counted. A right operand and a construction reach over all that is read
for them. -/
structure Grammar.Ample (g : Grammar) : Prop where
  sound : g.Sound
  operand : ∀ least, Operand (g.binary least)
  statement : NestsNode g.statement 0
  assignment : NestsNode g.assignment 0
  binary : ∀ least, NestsNode (g.binary least) 1
  unary : NestsNode g.unary 1
  leftHandSide : NestsNode g.leftHandSide 2
  new : NestsNode g.new 2
  construction : Covering g.new
  type : NestsNode g.type 0
  typeOperator : NestsNode g.typeOperator 1
  bindingTarget : ∀ s, Leads s s g.bindingTarget fun id s' => Pending s s' id

namespace Parse

open ScriptLint.Parser

variable {g : Grammar} {b s s' : State} {k : Nat} {free bound : List NodeId}

attribute [local simp] Node.Encloses Node.cost Node.isBracket Node.children Node.bindings
  Node.Plain Node.infix? Node.applied? Node.isQuoted or_imp

theorem nests_identifier : NestsNode identifier 0 := by
  refine .of_leads fun s h => ?_
  unfold identifier
  refine .ask_bind (.ask_bind ?_)
  split
  · next name hcurrent =>
    refine .skip_bind (leads_fitted_leaf rfl rfl ?_ (by simp))
    rintro _ ⟨⟩
    simp [hcurrent, Token.word?]
  · exact .unexpected h.frame

theorem nests_propertyIdentifier : NestsNode propertyIdentifier 0 := by
  refine .of_leads fun s h => ?_
  unfold propertyIdentifier
  refine .ask_bind (.ask_bind ?_)
  split
  · next name hcurrent =>
    refine .skip_bind (leads_fitted_leaf rfl rfl ?_ (by simp))
    rintro _ ⟨⟩
    simp [hcurrent, Token.word?]
  · next word hcurrent =>
    refine .skip_bind (leads_fitted_leaf rfl rfl ?_ (by simp))
    rintro _ ⟨⟩
    simp [hcurrent, Token.word?]
  · exact .unexpected h.frame

theorem leads_fitted_literal {value : LiteralValue}
    (hvalue : ∀ text, value = .string text → s.current = .string text) :
    Leads s s (literal value) fun id s' => Fitted s s' 0 [id] [] := by
  unfold literal
  refine .ask_bind (.skip_bind (.ask_bind (leads_fitted_leaf rfl rfl (by simp) fun hquoted => ?_)))
  cases value with
  | string text =>
    rw [hvalue text rfl]
    exact .string text _
  | _ => cases hquoted

/-- A literal after what was read so far. -/
theorem Fitted.literal (h : Fitted b s k free bound) {value : LiteralValue}
    (hvalue : ∀ text, value = .string text → s.current = .string text) :
    Leads b s (literal value) fun id s' => Fitted b s' k (free ++ [id]) (bound ++ []) :=
  ((leads_fitted_literal hvalue).rebase h.frame).mono fun _ _ h' => h.append h' (Nat.zero_le k)

theorem nests_stringLiteral : NestsNode stringLiteral 0 := by
  refine .of_leads fun s h => ?_
  unfold stringLiteral
  refine .ask_bind ?_
  split
  · next value hcurrent => exact h.literal (by simp [hcurrent])
  · exact .unexpected h.frame

theorem nests_propertyKey (hg : g.Ample) :
    Nests (propertyKey g) 0 (fun key => [key.1]) fun _ => [] := by
  refine .of_leads fun s h => ?_
  unfold propertyKey
  refine .ask_bind ?_
  split
  · refine (h.pass grows_skip).bind fun _ s' h => ?_
    refine (h.run (nests_withIn hg.assignment true)).bind fun key s' h => ?_
    exact (h.pass (grows_expect _)).bind fun _ s' h => .pure h
  · next value hcurrent =>
    exact (h.literal (by simp [hcurrent])).bind fun key s' h => .pure h
  · exact (h.literal (by simp)).bind fun key s' h => .pure h
  · exact (h.run nests_propertyIdentifier).bind fun key s' h => .pure h

theorem nests_typeAscription (hg : g.Ample) : NestsNode (typeAscription g) 0 := by
  refine .of_leads fun s h => ?_
  unfold typeAscription
  refine .ask_bind ?_
  refine (h.pass (grows_expect _)).bind fun _ s' h => ?_
  exact (h.run hg.type).bind fun type s' h => h.finish (by simp)

theorem nests_typeAscription? (hg : g.Ample) :
    Nests (typeAscription? g) 0 Option.toList fun _ => [] :=
  nests_optionally (asks_ask _).grows (nests_typeAscription hg)

namespace Pending

variable {target : NodeId}

/-- The binding after other parsers. -/
theorem later (h : Pending b s target) (hframe : Frame s s') : Pending b s' target := by
  have hkept := hframe.tree.kept target h.inside
  have hnode : s'.tree.node target = s.tree.node target := by simp only [Tree.node, hkept]
  refine ⟨h.frame.trans hframe, h.fresh, h.inside.trans_le hframe.tree.size_le, ?_, ?_,
    fun hb => ?_⟩
  · rw [hnode]
    exact h.cost
  · rw [hnode]
    exact h.plain
  · obtain ⟨t, ht, hsize, hchildren⟩ := h.made hb
    refine ⟨t, ht.trans hframe.tree.toContinues, hsize, ?_⟩
    rw [Tree.children, hnode]
    exact hchildren

theorem fitted (h : Pending b s target) : Fitted b s 0 [] [target] where
  frame := h.frame
  fresh i hi := (List.mem_singleton.mp hi).symm ▸ h.fresh
  free_fits := by simp
  bound_fits hb i hi := by
    obtain ⟨t, ht, hsize, hchildren⟩ := h.made hb
    rw [List.mem_singleton.mp hi]
    refine .node h.inside (by simp) (Tree.quoted_of_isQuoted h.plain.2.2)
      (Tree.joined_of_infix? h.plain.1) (Tree.prolongs_of_applied? h.plain.2.1) (by rw [h.cost]; exact Nat.zero_le _) fun c hc => ?_
    exact ((hchildren c hc).continues ht).more (by rw [h.cost]; omega)

/-- A binding that ends with what was read since `b`. -/
theorem of_fitted (h : Fitted b s 0 free bound) {node : Node} {span : Span}
    (hcost : node.cost true = 0)
    (hplain : node.infix? = none ∧ node.applied? = none ∧ node.isQuoted = false)
    (hchildren : ∀ c ∈ node.children, c ∈ free ∨ c ∈ bound ∧ c ∈ node.bindings true) :
    Pending b { s with tree := (s.tree.alloc node (some span)).2 } s.tree.size := by
  have hentry := Tree.entry?_alloc s.tree node (some span) s.tree.size
  rw [if_pos rfl] at hentry
  refine ⟨(h.alloc_bound hcost hplain hchildren).frame, h.frame.tree.size_le, by simp, ?_, ?_,
    fun hb => ?_⟩
  · rw [Tree.node_of_entry hentry]
    exact hcost
  · rw [Tree.node_of_entry hentry]
    exact hplain
  · refine ⟨s.tree, (Tree.Continues.refl _).alloc node _, rfl, ?_⟩
    rw [Tree.children, Tree.node_of_entry hentry]
    intro c hc
    rcases hchildren c hc with hc | ⟨hc, hbinds⟩
    · exact (h.free_fits hb c hc).mono (by simp) le_rfl
    · exact (h.bound_fits hb c hc).mono (fun _ => Node.binds_iff.mpr hbinds) le_rfl

theorem leads_finish (h : Fitted b s 0 free bound) {start : Span} {node : Node}
    (hcost : node.cost true = 0)
    (hplain : node.infix? = none ∧ node.applied? = none ∧ node.isQuoted = false)
    (hchildren : ∀ c ∈ node.children, c ∈ free ∨ c ∈ bound ∧ c ∈ node.bindings true) :
    Leads b s (Parser.finish start node) fun id s' => Pending b s' id :=
  of_fitted h hcost hplain hchildren

end Pending

theorem size_stretched (s : State) (target : NodeId) (node : Node) :
    (stretched s target node).size = s.tree.size := by
  unfold stretched Tree.setRange Tree.setNode
  split <;> simp

theorem node_stretched {target : NodeId} (h : target < s.tree.size) (node : Node) :
    (stretched s target node).node target = node := by
  unfold stretched
  split
  · have hkeep : ∀ (t : Tree) range, (t.setRange target range).node target = t.node target := by
      intro t range
      simp only [Tree.setRange, Tree.node, Tree.entry?_modify]
      cases t.entry? target <;> simp
    rw [hkeep, Tree.node_setNode, if_pos ⟨rfl, h⟩]
  · rw [Tree.node_setNode, if_pos ⟨rfl, h⟩]

theorem cost_annotated (optional : Bool) (ascription : Option NodeId) (node : Node) (bound : Bool) :
    (annotated optional ascription node).cost bound = node.cost bound := by
  cases node <;> rfl

theorem infix?_annotated (optional : Bool) (ascription : Option NodeId) (node : Node) :
    (annotated optional ascription node).infix? = node.infix? := by
  cases node <;> rfl

theorem applied?_annotated (optional : Bool) (ascription : Option NodeId) (node : Node) :
    (annotated optional ascription node).applied? = node.applied? := by
  cases node <;> rfl

theorem isQuoted_annotated (optional : Bool) (ascription : Option NodeId) (node : Node) :
    (annotated optional ascription node).isQuoted = node.isQuoted := by
  cases node <;> rfl

theorem binds_annotated (optional : Bool) (ascription : Option NodeId) (node : Node) (bound : Bool)
    (c : NodeId) : (annotated optional ascription node).binds bound c = node.binds bound c := by
  cases node <;> rfl

/-- A binding fits with its annotation, which was made after it. -/
theorem Pending.annotated {target : NodeId} {ascription : Option NodeId}
    (h : Pending b s target) (hascription : Fitted s s' 0 ascription.toList []) (optional : Bool) :
    Fitted b
      { s' with tree := stretched s' target (Parse.annotated optional ascription (s'.tree.node target)) }
      0 [] [target] := by
  have hlater := h.later hascription.frame
  have hextends := hlater.frame.tree
  refine ⟨hlater.frame.withTree (extends_stretched hextends h.fresh fun c hc => ?_),
    fun i hi => (List.mem_singleton.mp hi).symm ▸ h.fresh, by simp, fun hb i hi => ?_⟩
  · rcases List.mem_append.mp (annotated_children_subset _ _ _ hc) with hc | hc
    · exact hextends.closed target h.fresh c hc
    · exact h.frame.tree.size_le.trans (hascription.fresh c (List.mem_append_left _ hc))
  · obtain ⟨t, ht, hsize, hchildren⟩ := hlater.made hb
    rw [List.mem_singleton.mp hi]
    have hnode := node_stretched hlater.inside
      (Parse.annotated optional ascription (s'.tree.node target))
    refine .node ?_ (by simp) (Tree.quoted_of_isQuoted ?_) (Tree.joined_of_infix? ?_)
      (Tree.prolongs_of_applied? ?_) ?_ fun c hc => ?_
    · rw [size_stretched]
      exact hlater.inside
    · rw [hnode, isQuoted_annotated]
      exact hlater.plain.2.2
    · rw [hnode, infix?_annotated]
      exact hlater.plain.1
    · rw [hnode, applied?_annotated]
      exact hlater.plain.2.1
    · rw [hnode, cost_annotated, hlater.cost]
      exact Nat.zero_le _
    · rw [Tree.children, hnode] at hc
      rw [hnode, cost_annotated, binds_annotated, hlater.cost]
      rcases List.mem_append.mp (annotated_children_subset _ _ _ hc) with hc | hc
      · -- what the binding holds is older than the binding
        refine ((hchildren c hc).congr (P := fun _ => True) trivial (fun _ _ _ _ => trivial)
          fun j _ hj => ?_).more (by omega)
        have hne : j ≠ target := (hj.trans_eq hsize).ne
        rw [entry?_stretched_of_ne hne]
        exact ht.kept j hj
      · -- the annotation and all below it are newer than the binding
        have hfits := hascription.free_fits (h.frame.steady hb) c hc
        rw [h.frame.source, h.frame.room] at hfits
        refine (hfits.congr (P := fun j => s.tree.size ≤ j)
          (hascription.fresh c (List.mem_append_left _ hc)) hascription.frame.tree.closed
          fun j hj _ => ?_).mono (by simp) (by omega)
        have hne : j ≠ target := (h.inside.trans_le hj).ne'
        exact entry?_stretched_of_ne hne

theorem leads_fitted_annotate (hg : g.Ample) {target : NodeId} (h : Pending b s target) :
    Leads b s (annotate g target) fun _ s' => Fitted b s' 0 [] [target] := by
  unfold annotate
  refine (((grows_eatIf _ s).rebase h.frame).mono fun _ _ h' => h.later h'.frame).bind
    fun optional s₁ h₁ => ?_
  refine (((grows_eatIf _ s₁).rebase h₁.frame).mono fun _ _ h' => h₁.later h'.frame).bind
    fun definite s₂ h₂ => ?_
  refine ((nests_typeAscription? hg s₂).rebase h₂.frame).bind fun ascription s₃ h₃ => ?_
  refine .ite (fun _ => ?_) fun _ => .pure (h₂.later h₃.frame).fitted
  exact .ask_bind (leads_stretch (h₂.annotated h₃ optional))

theorem nests_bindingTarget (hg : g.Ample) : NestsBinding g.bindingTarget :=
  fun s => (hg.bindingTarget s).mono fun _ _ h => h.fitted

theorem nests_annotatedBinding (hg : g.Ample) : NestsBinding (annotatedBinding g) := by
  intro s
  unfold annotatedBinding
  refine (hg.bindingTarget s).bind fun target s' h => ?_
  exact (leads_fitted_annotate hg h).bind fun _ s' h => .pure h

theorem nests_restElement (hg : g.Ample) (mayAnnotate : Bool) :
    NestsBinding (restElement g mayAnnotate) := by
  refine .of_leads fun s h => ?_
  unfold restElement
  refine .ask_bind ?_
  refine (h.pass (grows_expect _)).bind fun _ s' h => ?_
  refine (h.run (nests_bindingTarget hg)).bind fun argument s' h => ?_
  refine .either_bind (P := fun ascription s' => Fitted s s' 0 ascription.toList [argument])
    (fun _ => h.run (nests_typeAscription? hg)) (fun _ => .pure h)
    fun ascription s' h => h.finish_bound rfl ⟨rfl, rfl, rfl⟩ (by simp +contextual)

/-- A default value after a binding. -/
theorem leads_fitted_withDefault (hg : g.Ample) {start : Span} {target : NodeId}
    (h : Fitted b s 0 free [target]) :
    Leads b s (withDefault g start target) fun id s' => Fitted b s' 0 [] [id] := by
  unfold withDefault
  refine (h.pass (grows_eatIf _)).bind fun eaten s' h => ?_
  refine .ite (fun _ => ?_) fun _ => .pure (h.sub (by simp) (by simp))
  refine (h.run (nests_withIn hg.assignment true)).bind fun right s' h => ?_
  exact h.finish_bound rfl ⟨rfl, rfl, rfl⟩ (by simp +contextual)

theorem nests_bindingElement (hg : g.Ample) (mayAnnotate : Bool) :
    NestsBinding (bindingElement g mayAnnotate) := by
  refine .of_leads fun s h => ?_
  unfold bindingElement
  exact .ask_bind (.either_bind (fun _ => h.run (nests_annotatedBinding hg))
    (fun _ => h.run (nests_bindingTarget hg)) fun target s' h => leads_fitted_withDefault hg h)

theorem nests_parameter (hg : g.Ample) : NestsBinding (parameter g) := by
  refine .of_leads fun s h => ?_
  unfold parameter
  refine .loop_bind (fun _ s' => Fitted s s' 0 [] []) h (fun _ _ h => h.frame) (fun _ s' h => ?_)
    fun _ s' h => ?_
  · refine .ask_bind (.ite (fun _ => ?_) fun _ => .pure h)
    exact (h.pass grows_skip).bind fun _ s' h => .pure h
  refine .ask_bind (.ite (fun _ => ?_) fun _ => .ask_bind (.ite (fun _ => ?_) fun _ => ?_))
  · exact h.run (nests_restElement hg true)
  · refine .ask_bind ((h.pass grows_skip).bind fun _ s' h => .alloc_bind ?_)
    refine (leads_fitted_annotate hg (.of_fitted h ?_ ⟨rfl, rfl, rfl⟩ ?_)).bind fun _ s' h => .pure h
    · rfl
    · simp [Node.children]
  · exact h.run (nests_bindingElement hg true)

theorem nests_formalParameters (hg : g.Ample) :
    Nests (formalParameters g) 0 (fun _ => []) id := by
  refine .of_leads fun s h => ?_
  unfold formalParameters
  refine (h.pass (grows_expect _)).bind fun _ s' h => ?_
  have hparams : Nests (do
      let params ← commaSeparated .rightParen (parameter g)
      expect .rightParen
      return params) 0 (fun _ => []) id := by
    refine .of_leads fun s h => ?_
    refine (h.run (nests_commaSeparated _ (nests_parameter hg))).bind fun params s' h => ?_
    exact (h.pass (grows_expect _)).bind fun _ s' h => .pure (h.sub (by simp) (by simp))
  exact h.run (nests_withIn hparams true)

theorem nests_elementsWithHoles {element : Parser NodeId} {out out' : NodeId → List NodeId}
    (hp : Nests element k out out') :
    Nests (elementsWithHoles element) k (fun elements => (elements.filterMap id).flatMap out)
      fun elements => (elements.filterMap id).flatMap out' := by
  have hitem : Nests (do
      if ← eat .comma then return none
      let value ← element
      if !(← check .rightBracket) then expect .comma
      return some value) k (fun item => item.toList.flatMap out)
        fun item => item.toList.flatMap out' := by
    refine .of_leads fun s h => ?_
    refine (h.pass (grows_eatIf _)).bind fun eaten s' h => ?_
    refine .ite (fun _ => .pure h) fun _ => ?_
    refine (h.run hp).bind fun value s' h => .ask_bind ?_
    refine .when_bind (P := fun s' => Fitted s s' k (out value) (out' value)) (fun _ => ?_)
      (fun _ => h) fun s' h => .pure (by simpa using h)
    exact h.pass (grows_expect .comma)
  intro s
  refine (nests_itemsUntil .rightBracket hitem s).mono fun elements s' h => ?_
  simpa [List.filterMap_eq_flatMap_toList, List.flatMap_assoc] using h

theorem leads_pending_arrayPattern (hg : g.Ample) :
    Leads s s (arrayPattern g) fun id s' => Pending s s' id := by
  have h := Fitted.refl (k := 0) s
  unfold arrayPattern
  refine .ask_bind ?_
  refine (h.pass (grows_expect _)).bind fun _ s' h => ?_
  have helement : NestsBinding (do
      if ← check .dotDotDot then restElement g false else bindingElement g false) := by
    refine .of_leads fun s h => .ask_bind (.ite (fun _ => ?_) fun _ => ?_)
    · exact h.run (nests_restElement hg false)
    · exact h.run (nests_bindingElement hg false)
  refine (h.run (nests_elementsWithHoles helement)).bind fun elements s' h => ?_
  refine (h.pass (grows_expect _)).bind fun _ s' h => ?_
  exact .leads_finish h rfl ⟨rfl, rfl, rfl⟩ (by simp [Node.children, Node.bindings])

theorem nests_patternProperty (hg : g.Ample) : NestsBinding (patternProperty g) := by
  refine .of_leads fun s h => ?_
  unfold patternProperty
  refine .ask_bind ?_
  refine (h.run (nests_propertyKey hg)).bind ?_
  rintro ⟨key, computed⟩ s' h
  refine (h.pass (grows_eatIf _)).bind fun eaten s' h => .ite (fun _ => ?_) fun _ => ?_
  · refine (h.run (nests_bindingElement hg false)).bind fun value s' h => ?_
    exact h.finish_bound rfl ⟨rfl, rfl, rfl⟩ (by simp +contextual)
  · refine .asks_bind (asks_isIdentifier key) fun named _ => .ite (fun _ => ?_) fun _ => ?_
    · have hkey : Fitted s s' 0 [] [key] := h.weaken le_rfl (by simp) (by simp)
      refine (leads_fitted_withDefault hg hkey).bind fun value s' h => ?_
      refine h.finish_bound rfl ⟨rfl, rfl, rfl⟩ ?_
      simp only [Node.children, if_true]
      split <;> simp_all [Node.bindings]
    · exact .unexpected h.frame

theorem leads_pending_objectPattern (hg : g.Ample) :
    Leads s s (objectPattern g) fun id s' => Pending s s' id := by
  have h := Fitted.refl (k := 0) s
  unfold objectPattern
  refine .ask_bind ?_
  refine (h.pass (grows_expect _)).bind fun _ s' h => ?_
  have hproperty : NestsBinding (do
      if ← check .dotDotDot then restElement g false else patternProperty g) := by
    refine .of_leads fun s h => .ask_bind (.ite (fun _ => ?_) fun _ => ?_)
    · exact h.run (nests_restElement hg false)
    · exact h.run (nests_patternProperty hg)
  refine (h.run (nests_commaSeparated _ hproperty)).bind fun properties s' h => ?_
  refine (h.pass (grows_expect _)).bind fun _ s' h => ?_
  exact .leads_finish h rfl ⟨rfl, rfl, rfl⟩ (by simp [Node.children, Node.bindings])

theorem leads_pending_bindingTarget (hg : g.Ample) :
    Leads s s (bindingTarget g) fun id s' => Pending s s' id := by
  unfold bindingTarget
  refine .ask_bind ?_
  split
  · exact leads_pending_arrayPattern hg
  · exact leads_pending_objectPattern hg
  · unfold identifier
    refine .ask_bind (.ask_bind ?_)
    split
    · refine .skip_bind ?_
      exact Pending.of_fitted (.of_frame (.advance s)) rfl ⟨rfl, rfl, rfl⟩ (by simp [Node.children])
    · exact .unexpected (.refl s)

/-- An expression that becomes a target fits as it did. -/
theorem Fitted.toPattern {target : NodeId} (h : Fitted b s k (target :: free) []) :
    Leads b s (toPattern target) fun _ s' => Fitted b s' k (target :: free) [] := by
  have hextends := h.frame.tree.toPattern (h.fresh target (by simp)) s.tree.size
  have heases := (s.tree.retagged_toPattern s.tree.size target).eases
  exact ⟨h.frame.withTree hextends, h.fresh, fun hb i hi => (h.free_fits hb i hi).eases heases,
    by simp⟩

end Parse
end ScriptLint
