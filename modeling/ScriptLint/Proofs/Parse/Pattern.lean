import ScriptLint.Proofs.Parse.Name
import ScriptLint.Proofs.Tree.Retag

namespace ScriptLint
namespace Parse

open ScriptLint.Parser

variable {g : Grammar} {b s : State} {m : Bool} {ids held : List NodeId}

theorem bare_identifier (name : String) : (Node.identifier { name }).Bare :=
  ⟨fun _ _ => rfl, fun _ _ => by simp [annotated, Node.ids, Node.fields]⟩

theorem bare_arrayPattern (elements : List (Option NodeId)) :
    (Node.arrayPattern elements none).Bare :=
  ⟨fun _ _ => by simp [annotated, Node.children], fun _ _ => by simp [annotated, Node.ids, Node.fields]⟩

theorem bare_objectPattern (properties : List NodeId) :
    (Node.objectPattern properties none).Bare :=
  ⟨fun _ _ => by simp [annotated, Node.children], fun _ _ => by simp [annotated, Node.ids, Node.fields]⟩

theorem annotated_children_subset (optional : Bool) (ascription : Option NodeId) (node : Node) :
    (annotated optional ascription node).children ⊆ node.children ++ ascription.toList := by
  unfold annotated
  split <;> simp [Node.children]

/-- The range of a node stretched to the cursor, if it began before the token there. -/
theorem spanFrom_on (hs : s.Ready) (hpos : 0 < s.pos) {r : Span} (hon : r.On s.source)
    (hle : r.start ≤ s.passed) :
    (s.spanFrom r).On s.source ∧ (s.spanFrom r).start = r.start ∧
      (s.spanFrom r).stop = s.passed := by
  obtain ⟨previous, a, hprevious, ha, hpassed⟩ := hs.previous hpos
  have hextend : s.spanFrom r = r.extendTo a.2.stop := by
    simp [State.spanFrom, hprevious, ha]
  rw [hpassed] at hle
  rw [hextend, hpassed]
  refine ⟨hon.extendTo (hs.span_on ha) hle, rfl, ?_⟩
  rw [Span.extendTo_of_le hle]

/-- The tree in which a node is replaced and reaches to the cursor. -/
def stretched (s : State) (target : NodeId) (node : Node) : Tree :=
  match s.tree.range target with
  | some r => (s.tree.setNode target node).setRange target (some (s.spanFrom r))
  | none => s.tree.setNode target node

theorem entry?_stretched_of_ne {target i : NodeId} {node : Node} (hne : i ≠ target) :
    Tree.entry? (stretched s target node) i = s.tree.entry? i := by
  unfold stretched Tree.setRange Tree.setNode
  split <;> simp [Tree.entry?_modify, hne.symm]

theorem entry?_stretched {target : NodeId} {node : Node} {e : Entry} {r : Span}
    (he : s.tree.entry? target = some e) (hr : e.range = some r) :
    Tree.entry? (stretched s target node) target =
      some { e with node, range := some (s.spanFrom r) } := by
  have hrange : s.tree.range target = some r := by rw [Tree.range_of_entry he, hr]
  simp [stretched, hrange, Tree.setRange, Tree.setNode, Tree.entry?_modify, he]

theorem extends_stretched {t : Tree} {target : NodeId} {node : Node} (h : t.Extends s.tree)
    (htarget : t.size ≤ target) (hchildren : ∀ c ∈ node.children, t.size ≤ c) :
    t.Extends (stretched s target node) := by
  have hset : t.Extends (s.tree.setNode target node) := h.modify htarget fun _ _ => hchildren
  unfold stretched
  split
  · refine hset.modify htarget fun e he c hc => hset.closed target htarget c ?_
    rw [Tree.children_of_entry he]
    exact hc
  · exact hset

/-- A binding with its annotation as its last child and its range up to the cursor. -/
theorem Growth.annotated {target : NodeId} {ascription : Option NodeId}
    (h : Growth b s m ([target] ++ ascription.toList) held)
    (hbare : b.Ready → (s.tree.node target).Bare) (optional : Bool) :
    Grown b
      { s with tree := stretched s target (Parse.annotated optional ascription (s.tree.node target)) }
      false [target] where
  frame := by
    have htarget := h.fresh target (by simp)
    refine h.frame.withTree (extends_stretched h.frame.tree htarget fun c hc => ?_)
    rcases List.mem_append.mp (annotated_children_subset _ _ _ hc) with hc | hc
    · exact h.frame.tree.closed target htarget c hc
    · exact h.fresh c (List.mem_append_right _ hc)
  fresh i hi := h.fresh i (List.mem_append_left _ hi)
  moved hs _ := h.moved hs (.inr (by simp))
  sown hs := by
    have hmoved := h.moved hs (.inr (by simp))
    have hs' := h.frame.ready hs
    obtain ⟨f, hroots, -, hf⟩ := h.sown hs
    cases f with
    | nil => simp [Forest.roots] at hroots
    | node id kids rest =>
      obtain ⟨rfl, hrest⟩ : id = target ∧ rest.roots = ascription.toList := by
        simpa [Forest.roots] using hroots
      obtain ⟨e, r, hentry, hrange, hon, hhi⟩ := hf.planted.entry
      have hle : r.start ≤ s.passed := hon.start_le_stop.trans hhi
      rw [← h.frame.source] at hon
      obtain ⟨hon', hstart, hstop⟩ := spanFrom_on hs' (Nat.zero_lt_of_lt hmoved) hon hle
      rw [h.frame.source] at hon'
      have hnode := Tree.node_of_entry hentry
      have hbare' := hbare hs
      rw [hnode] at hbare'
      refine ⟨.node id (kids ++ rest) .nil, rfl, List.nil_subset _, ?_, ?_, ?_⟩
      · simpa [Forest.preorder] using hf.nodup
      · simpa [Forest.preorder] using hf.fresh
      · rw [hnode]
        refine hf.planted.absorb hf.nodup hentry hrange (fun i hne => entry?_stretched_of_ne hne)
          (entry?_stretched hentry hrange) ?_ ?_ rfl hon' hstart hstop
        · rw [hrest]
          exact hbare'.children _ _
        · rw [hrest]
          exact hbare'.ids _ _

theorem leads_stretch {Q : Unit → State → Prop} {target : NodeId} {node : Node}
    (h : Q () { s with tree := stretched s target node }) :
    Leads b s (do
      setNode target node
      extendRange target) Q := by
  have hrange : (s.tree.setNode target node).range target = s.tree.range target := by
    simp only [Tree.range, Tree.setNode, Tree.entry?_modify, if_true]
    cases s.tree.entry? target <;> rfl
  change Q () (match (s.tree.setNode target node).range target with
    | some range => { s with
        tree := (s.tree.setNode target node).setRange target (some (s.spanFrom range)) }
    | none => { s with tree := s.tree.setNode target node })
  rw [hrange]
  unfold stretched at h
  split <;> simp_all only

theorem leads_annotate (hg : g.Sound) {target : NodeId} (h : Grown b s m [target])
    (hbare : (s.tree.node target).Bare) :
    Leads b s (annotate g target) fun _ s' => Grown b s' false [target] := by
  unfold annotate
  have hkept : b.Ready → ∀ s', Frame s s' → (s'.tree.node target).Bare := by
    intro hs s' hframe
    obtain ⟨f, hroots, -, hf⟩ := h.sown hs
    have hlt := hf.planted.lt_size target (f.roots_subset_preorder (by simp [hroots]))
    simpa [Tree.node, hframe.tree.kept target hlt] using hbare
  refine (h.run_frame (grows_eatIf _)).bind ?_
  rintro optional s₁ ⟨h, hframe₁⟩
  refine (h.run_frame (grows_eatIf _)).bind ?_
  rintro definite s₂ ⟨h, hframe₂⟩
  refine (h.run_frame (grows_typeAscription? hg)).bind ?_
  rintro ascription s₃ ⟨h, hframe₃⟩
  have hbare₃ := fun hs => hkept hs s₃ (hframe₁.trans (hframe₂.trans hframe₃))
  refine .ite (fun _ => ?_) fun hnone => .pure ?_
  · exact .ask_bind (leads_stretch (h.annotated hbare₃ optional))
  · have hascription : ascription = none := by
      cases ascription <;> simp_all
    exact h.done (by simp [hascription])

theorem leads_toPattern {target : NodeId} (h : Grown b s m [target]) :
    Leads b s (toPattern target) fun _ s' => Grown b s' m [target] := by
  have hextends := h.frame.tree.toPattern (h.fresh target (by simp)) s.tree.size
  have hretagged := s.tree.retagged_toPattern s.tree.size target
  refine ⟨h.frame.withTree hextends, h.fresh, h.moved, fun hs => ?_⟩
  obtain ⟨f, hroots, hheld, hf⟩ := h.sown hs
  exact ⟨f, hroots, hheld, hf.nodup, hf.fresh, hf.planted.congr fun i _ => hretagged.keepsAt i⟩

theorem grows_bindingTarget (hg : g.Sound) : GrowsNode g.bindingTarget :=
  fun s => (hg.bindingTarget s).mono fun _ _ h => h.1

theorem grows_annotatedBinding (hg : g.Sound) : GrowsNode (annotatedBinding g) := by
  intro s
  unfold annotatedBinding
  refine (hg.bindingTarget s).bind ?_
  rintro target s' ⟨h, hbare⟩
  exact (leads_annotate hg h hbare).bind fun _ s' h => .pure h

theorem grows_restElement (hg : g.Sound) (mayAnnotate : Bool) :
    GrowsNode (restElement g mayAnnotate) := by
  refine .of_leads fun s h => ?_
  unfold restElement
  refine .ask_bind ?_
  refine (h.run (grows_expect _)).bind fun _ s' h => ?_
  refine (h.run (grows_bindingTarget hg)).bind fun argument s' h => ?_
  refine .either_bind (fun _ => h.run (grows_typeAscription? hg)) (fun _ => .pure ?_)
    fun ascription s' h => h.finish rfl rfl (by simp)
  simpa using h

/-- A default value after a binding that began at `b`. The binding is held by what comes of it. -/
theorem leads_withDefault (hg : g.Sound) {target : NodeId} (h : Grown b s m [target]) :
    Leads b s (withDefault g b.currentSpan target) fun id s' => Growth b s' false [id] [target] := by
  unfold withDefault
  refine (h.run (grows_eatIf _)).bind fun eaten s' h => ?_
  refine .ite (fun _ => ?_) fun _ => .pure (h.weaken (by simp) (by simp))
  refine (h.run (grows_withIn hg.assignment true)).bind fun right s' h => ?_
  exact (h.finish_held rfl (by simp [Node.ids, Node.fields, Node.pairFields]) (by simp)).mono fun id s' h =>
    h.weaken (by simp) (by simp)

theorem grows_bindingElement (hg : g.Sound) (mayAnnotate : Bool) :
    GrowsNode (bindingElement g mayAnnotate) := by
  refine .of_leads fun s h => ?_
  unfold bindingElement
  exact .ask_bind (.either_bind (fun _ => h.run (grows_annotatedBinding hg))
    (fun _ => h.run (grows_bindingTarget hg)) fun target s' h =>
      (leads_withDefault hg h).mono fun id s' h => h.done rfl)

theorem leads_thisParameter (hg : g.Sound) (heof : s.current.isEof = false) :
    Leads s s (do
      let span ← currentSpan
      skip
      let id ← alloc (.identifier { name := "this" }) span
      annotate g id
      return id) fun id s' => Grown s s' false [id] := by
  refine .ask_bind (.skip_bind ?_)
  refine ((leads_leaf heof rfl rfl).and (leads_alloc_node _ _)).bind ?_
  rintro id s' ⟨h, hnode⟩
  have hbare : (s'.tree.node id).Bare := by
    rw [hnode]
    exact bare_identifier _
  exact (leads_annotate hg h hbare).bind fun _ s' h => .pure h

theorem grows_parameter (hg : g.Sound) : GrowsNode (parameter g) := by
  refine .of_leads fun s h => ?_
  unfold parameter
  refine .loop_bind (fun _ s' => Grown s s' false []) h (fun _ _ h => h.frame) (fun _ s' h => ?_)
    fun _ s' h => ?_
  · refine .ask_bind (.ite (fun _ => ?_) fun _ => .pure h)
    exact (h.run grows_skip).bind fun _ s' h => .pure h
  refine .ask_bind (.ite (fun _ => ?_) fun _ => .ask_bind (.ite (fun hthis => ?_) fun _ => ?_))
  · exact h.run (grows_restElement hg true)
  · have heof : s'.current.isEof = false := by
      cases hcurrent : s'.current <;> simp_all [Token.isKeyword, Token.isEof]
    exact h.resume (leads_thisParameter hg heof)
  · exact h.run (grows_bindingElement hg true)

theorem grows_formalParameters (hg : g.Sound) : Grows (formalParameters g) true id := by
  refine .of_leads fun s h => ?_
  unfold formalParameters
  refine (h.run (grows_expect _)).bind fun _ s' h => ?_
  have hparams : Grows (do
      let params ← commaSeparated .rightParen (parameter g)
      expect .rightParen
      return params) false id := by
    refine .of_leads fun s h => ?_
    refine (h.run (grows_commaSeparated _ (grows_parameter hg))).bind fun params s' h => ?_
    exact (h.run (grows_expect _)).bind fun _ s' h => .pure (h.done (by simp))
  exact h.run (grows_withIn hparams true)

theorem grows_elementsWithHoles {element : Parser NodeId} (hp : GrowsNode element) :
    Grows (elementsWithHoles element) false fun elements => elements.filterMap id := by
  have hitem : Grows (do
      if ← eat .comma then return none
      let value ← element
      if !(← check .rightBracket) then expect .comma
      return some value) false Option.toList := by
    refine .of_leads fun s h => ?_
    refine (h.run (grows_eatIf _)).bind fun eaten s' h => ?_
    refine .ite (fun _ => .pure h) fun _ => ?_
    refine (h.run hp).bind fun value s' h => .ask_bind ?_
    refine .when_bind (P := fun s' => Grown s s' false [value]) (fun _ => ?_) (fun _ => h)
      fun s' h => .pure h
    exact (h.run (grows_expect .comma)).mono fun _ s' h => h.done rfl
  exact (grows_itemsUntil .rightBracket hitem).congr fun elements => by
    simp [List.filterMap_eq_flatMap_toList]

theorem leads_arrayPattern (hg : g.Sound) :
    Leads s s (arrayPattern g) fun id s' => Grown s s' false [id] ∧ (s'.tree.node id).Bare := by
  have h := Growth.refl s
  unfold arrayPattern
  refine .ask_bind ?_
  refine (h.run (grows_expect _)).bind fun _ s' h => ?_
  have helement : GrowsNode (do
      if ← check .dotDotDot then restElement g false else bindingElement g false) := by
    refine .of_leads fun s h => .ask_bind (.ite (fun _ => ?_) fun _ => ?_)
    · exact grows_restElement hg false s
    · exact grows_bindingElement hg false s
  refine (h.run (grows_elementsWithHoles helement)).bind fun elements s' h => ?_
  refine (h.run (grows_expect _)).bind fun _ s' h => ?_
  refine ((h.finish (by simp [Node.children]) rfl (by simp)).and (leads_finish_node _ _)).mono ?_
  rintro id s' ⟨h, hnode⟩
  rw [hnode]
  exact ⟨h, bare_arrayPattern _⟩

theorem asks_isIdentifier (id : NodeId) : Asks (isIdentifier id) := by
  unfold isIdentifier
  refine (asks_ask _).bind fun node => ?_
  split <;> exact asks_pure _

/-- Ends a shorthand member, whose value holds its key. -/
theorem Growth.finishShorthand {p : Property} (h : Growth b s m [p.value] [p.key])
    (hshorthand : p.shorthand = true) :
    Leads b s (Parser.finish b.currentSpan (.property p)) fun id s' => Grown b s' false [id] := by
  have hchildren : (Node.property p).children = [p.value] := by
    simp only [Node.children, hshorthand, if_true]
    split <;> simp_all
  refine (h.finish_held hchildren ?_ (by simp)).mono fun id s' h => h.done rfl
  simp [Node.ids, Node.fields]

theorem grows_patternProperty (hg : g.Sound) : GrowsNode (patternProperty g) := by
  refine .of_leads fun s h => ?_
  unfold patternProperty
  refine .ask_bind ?_
  refine (h.run (grows_propertyKey hg)).bind ?_
  rintro ⟨key, computed⟩ s' h
  refine (h.run (grows_eatIf _)).bind fun eaten s' h => .ite (fun _ => ?_) fun _ => ?_
  · refine (h.run (grows_bindingElement hg false)).bind fun value s' h => ?_
    exact h.finish rfl rfl (by simp)
  · refine .asks_bind (asks_isIdentifier key) fun named _ => .ite (fun _ => ?_) fun _ => ?_
    · refine (leads_withDefault hg h).bind fun value s' h => ?_
      exact h.finishShorthand rfl
    · exact .unexpected h.frame

theorem leads_objectPattern (hg : g.Sound) :
    Leads s s (objectPattern g) fun id s' => Grown s s' false [id] ∧ (s'.tree.node id).Bare := by
  have h := Growth.refl s
  unfold objectPattern
  refine .ask_bind ?_
  refine (h.run (grows_expect _)).bind fun _ s' h => ?_
  have hproperty : GrowsNode (do
      if ← check .dotDotDot then restElement g false else patternProperty g) := by
    refine .of_leads fun s h => .ask_bind (.ite (fun _ => ?_) fun _ => ?_)
    · exact grows_restElement hg false s
    · exact grows_patternProperty hg s
  refine (h.run (grows_commaSeparated _ hproperty)).bind fun properties s' h => ?_
  refine (h.run (grows_expect _)).bind fun _ s' h => ?_
  refine ((h.finish (by simp [Node.children]) rfl (by simp)).and (leads_finish_node _ _)).mono ?_
  rintro id s' ⟨h, hnode⟩
  rw [hnode]
  exact ⟨h, bare_objectPattern _⟩

/-- A binding is bare when it has just been read. -/
theorem leads_bindingTarget (hg : g.Sound) :
    Leads s s (bindingTarget g) fun id s' => Grown s s' false [id] ∧ (s'.tree.node id).Bare := by
  unfold bindingTarget
  refine .ask_bind ?_
  split
  · exact leads_arrayPattern hg
  · exact leads_objectPattern hg
  · refine (grows_identifier s).and ?_
    unfold identifier
    refine .ask_bind (.ask_bind ?_)
    split
    · refine .skip_bind ((leads_alloc_node _ _).mono fun id s' hnode => ?_)
      rw [hnode]
      exact bare_identifier _
    · exact .unexpected (.refl s)

end Parse
end ScriptLint
