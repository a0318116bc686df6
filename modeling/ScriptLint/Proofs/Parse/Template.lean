import ScriptLint.Proofs.Parse.Function

namespace ScriptLint
namespace Parse

open ScriptLint.Parser

variable {g : Grammar} {s s' : State}

theorem grows_expression (hg : g.Sound) : GrowsNode (expression g) := by
  refine .of_leads fun s h => ?_
  unfold expression
  refine .ask_bind ?_
  refine (h.run (grows_separatedBy _ hg.assignment)).bind fun expressions s' h => ?_
  split
  · exact .pure (h.done rfl)
  · exact h.finish rfl rfl (by simp)

theorem mem_interleave {q e : List NodeId} {i : NodeId} (h : i ∈ Node.interleave q e) :
    i ∈ q ++ e := by
  fun_induction Node.interleave q e with
  | case1 => simp at h
  | case2 q quasis ih =>
    simp only [List.mem_cons, List.append_nil] at h ih ⊢
    exact h.imp_right ih
  | case3 q quasis e expressions ih =>
    simp only [List.mem_cons, List.mem_append] at h ih ⊢
    rcases h with h | h | h
    · exact .inl (.inl h)
    · exact .inr (.inl h)
    · exact (ih h).elim (fun h => .inl (.inr h)) fun h => .inr (.inr h)

/-- From `s` to `s'` a node was read from tokens of its own: it lies where these stand, and the
cursor is where it was. -/
structure Inserted (s s' : State) (tokens : List SpannedToken) (id : NodeId) : Prop where
  frame : Frame s s'
  tokens_eq : s'.tokens = s.tokens
  pos_eq : s'.pos = s.pos
  fresh : s.tree.size ≤ id
  sown : ∀ lo hi, TokensPlaced s.source lo hi tokens →
    ∃ f : Forest, f.roots = [id] ∧ f.Sown s.tree s'.tree s.source lo hi

theorem leads_withTokens {p : Parser NodeId} (hp : GrowsNode p) (tokens : List SpannedToken) :
    Leads s s (withTokens tokens p) fun id s' => Inserted s s' tokens id := by
  have hback : ∀ s', Frame { s with tokens := tokens.toArray, pos := 0 } s' →
      Frame s { s' with tokens := s.tokens, pos := s.pos } :=
    fun s' h => ⟨h.source, .refl _, le_rfl, id, h.tree, h.errors, h.depth, h.allowIn⟩
  have hrun := grows_withIn hp true { s with tokens := tokens.toArray, pos := 0 }
  simp only [Leads, withTokens] at hrun ⊢
  split at hrun
  · next id s' heq =>
    simp only [heq]
    refine ⟨hback s' hrun.frame, rfl, rfl, hrun.fresh id (by simp), fun lo hi hplaced => ?_⟩
    obtain ⟨f, hroots, -, hf⟩ := hrun.sown (State.ready_of_placed hplaced rfl rfl)
    have hlo : lo ≤ State.here { s with tokens := tokens.toArray, pos := 0 } :=
      State.le_here_of_placed hplaced rfl rfl
    have hhi := hrun.frame.passed_le_of_placed hplaced rfl rfl
    exact ⟨f, hroots, hf.weaken hlo hhi⟩
  · next e s' heq =>
    simp only [heq]
    exact hback s' hrun

/-- From `s` to `s'` the parts of a template were made into quasis `q` and expressions `e`. -/
structure PartsGrown (s s' : State) (parts : List TemplatePart) (q e : List NodeId) : Prop where
  frame : Frame s s'
  tokens_eq : s'.tokens = s.tokens
  pos_eq : s'.pos = s.pos
  fresh : ∀ i ∈ q ++ e, s.tree.size ≤ i
  nothing : parts = [] → q = [] ∧ e = []
  sown : ∀ lo hi, PartsPlaced s.source lo hi parts → ∃ f : Forest,
    f.roots = Node.interleave q e ∧ q ++ e ⊆ f.preorder ∧ f.Sown s.tree s'.tree s.source lo hi
  /-- The same from a substitution on. -/
  sown_rest : ∀ opened closed hi tokens rest, parts = .substitution tokens :: rest →
    TokensPlaced s.source opened closed tokens → PartsPlaced s.source closed hi rest →
    ∃ x e', e = x :: e' ∧ ∃ f : Forest, f.roots = x :: Node.interleave q e' ∧
      q ++ e ⊆ f.preorder ∧ f.Sown s.tree s'.tree s.source opened hi

theorem PartsGrown.nil (s : State) : PartsGrown s s [] [] [] where
  frame := .refl s
  tokens_eq := rfl
  pos_eq := rfl
  fresh := by simp
  nothing _ := ⟨rfl, rfl⟩
  sown _ _ h := by cases h
  sown_rest := by simp

/-- A quasi before other parts. -/
theorem PartsGrown.quasi {raw : String} {tail : Bool} {span : Span} {parts : List TemplatePart}
    {q e : List NodeId}
    (h : PartsGrown { s with tree := (s.tree.alloc (.templateElement raw tail) (some span)).2 } s'
      parts q e) :
    PartsGrown s s' (.quasi raw span :: parts) (s.tree.size :: q) e := by
  have hframe : Frame s
      { s with tree := (s.tree.alloc (.templateElement raw tail) (some span)).2 } := .alloc s rfl
  have hextends := hframe.tree
  refine ⟨hframe.trans h.frame, h.tokens_eq, h.pos_eq, ?_, by simp, ?_, by simp⟩
  · intro i hi
    rcases List.mem_cons.mp hi with rfl | hi
    · exact le_rfl
    · exact hextends.size_le.trans (h.fresh i hi)
  · intro lo hi hparts
    have hleaf : span.On s.source → (Forest.node s.tree.size .nil .nil).Sown s.tree
        (s.tree.alloc (.templateElement raw tail) (some span)).2 s.source span.start span.stop :=
      fun hon => Forest.Sown.nil.alloc (.refl s.tree) rfl (by simp [Node.ids, Node.fields]) hon
    cases hparts with
    | last hon hlo hhi =>
      obtain ⟨rfl, rfl⟩ := h.nothing rfl
      refine ⟨.node s.tree.size .nil .nil ++ .nil, rfl, by simp [Forest.preorder], ?_⟩
      exact ((hleaf hon).weaken hlo le_rfl).append .nil hextends h.frame.tree
        (hlo.trans (hon.start_le_stop.trans hhi)) hhi hhi
    | more hon hlo hopened htokens hrest =>
      obtain ⟨x, e', rfl, f, hroots, hheld, hf⟩ := h.sown_rest _ _ _ _ _ rfl htokens hrest
      have hle := htokens.le.trans hrest.le
      refine ⟨.node s.tree.size .nil .nil ++ f, ?_, ?_, ?_⟩
      · simp [Forest.roots, hroots, Node.interleave]
      · exact List.cons_subset_cons s.tree.size hheld
      · exact ((hleaf hon).weaken hlo le_rfl).append hf hextends h.frame.tree
          (hlo.trans (hon.start_le_stop.trans hopened)) hopened (hopened.trans hle)

/-- A substitution before other parts. -/
theorem PartsGrown.substitution {s₁ : State} {tokens : List SpannedToken} {x : NodeId}
    {parts : List TemplatePart} {q e : List NodeId} (hx : Inserted s s₁ tokens x)
    (h : PartsGrown s₁ s' parts q e) :
    PartsGrown s s' (.substitution tokens :: parts) q (x :: e) := by
  refine ⟨hx.frame.trans h.frame, h.tokens_eq.trans hx.tokens_eq, h.pos_eq.trans hx.pos_eq, ?_, by simp, ?_, ?_⟩
  · intro i hi
    simp only [List.mem_append, List.mem_cons] at hi
    rcases hi with hi | rfl | hi
    · exact hx.frame.tree.size_le.trans (h.fresh i (List.mem_append_left _ hi))
    · exact hx.fresh
    · exact hx.frame.tree.size_le.trans (h.fresh i (List.mem_append_right _ hi))
  · intro lo hi hparts
    cases hparts
  · rintro opened closed hi _ _ ⟨⟩ htokens hrest
    obtain ⟨f, hroots, hf⟩ := hx.sown opened closed htokens
    rw [← hx.frame.source] at hrest
    obtain ⟨f', hroots', hheld, hf'⟩ := h.sown closed hi hrest
    rw [hx.frame.source] at hf'
    refine ⟨x, e, rfl, f ++ f', ?_, ?_, ?_⟩
    · simp [hroots, hroots']
    · have hmem : x ∈ f.preorder := f.roots_subset_preorder (by simp [hroots])
      intro i hi
      simp only [List.mem_append, List.mem_cons, Forest.preorder_append] at hi ⊢
      rcases hi with hi | rfl | hi
      · exact .inr (hheld (List.mem_append_left _ hi))
      · exact .inl hmem
      · exact .inr (hheld (List.mem_append_right _ hi))
    · exact hf.append hf' hx.frame.tree h.frame.tree htokens.le le_rfl hrest.le

theorem leads_substitution (hg : g.Sound) (tokens : List SpannedToken) :
    Leads s s (substitution g tokens) fun id s' => Inserted s s' tokens id := by
  refine leads_withTokens (.of_leads fun s h => ?_) tokens
  refine (h.run (grows_expression hg)).bind fun e s' h => .ask_bind ?_
  exact .ite (fun _ => .pure h) fun _ => .unexpected h.frame

theorem leads_templateParts (hg : g.Sound) (quasiCount : Nat) (parts : List TemplatePart)
    (quasis expressions : List NodeId) :
    Leads s s (templateParts g quasiCount parts quasis expressions) fun nodes s' =>
      ∃ q e, nodes = (quasis.reverse ++ q, expressions.reverse ++ e) ∧ PartsGrown s s' parts q e := by
  induction parts generalizing s quasis expressions with
  | nil => exact .pure ⟨[], [], by simp, .nil s⟩
  | cons part parts ih =>
    cases part with
    | quasi raw span =>
      refine .alloc_bind (((ih _ _).rebase (.alloc s rfl)).mono ?_)
      rintro nodes s' ⟨q, e, rfl, h⟩
      exact ⟨s.tree.size :: q, e, by simp, h.quasi⟩
    | substitution tokens =>
      refine (leads_substitution hg tokens).bind fun x s₁ hx => ?_
      refine ((ih _ _).rebase hx.frame).mono ?_
      rintro nodes s' ⟨q, e, rfl, h⟩
      exact ⟨q, x :: e, by simp, h.substitution hx⟩

/-- The parts of a template stand where its token stands. -/
theorem State.Ready.partsPlaced (hs : s.Ready) {parts : List TemplatePart}
    (hcurrent : s.current = .template parts) :
    PartsPlaced s.source s.currentSpan.start s.currentSpan.stop parts := by
  obtain ⟨a, ha, hspan, htoken⟩ := hs.token
  have hplaced := hs.placed s.pos a ha
  rw [← hspan, ← htoken, hcurrent] at hplaced
  cases hplaced with
  | template _ _ hparts => exact hparts
  | plain _ _ htemplate => exact absurd rfl (htemplate parts)

theorem passed_advance (hs : s.Ready) (heof : s.current.isEof = false) :
    s.advance.passed = s.currentSpan.stop := by
  obtain ⟨a, ha, hspan, _⟩ := hs.token
  rw [hspan]
  exact State.passed_of_pos (pos_advance hs heof) (by rw [tokens_advance, ha])

/-- A template literal is one token, however much it holds. -/
theorem PartsGrown.growth {parts : List TemplatePart} {q e : List NodeId}
    (hcurrent : s.current = .template parts) (h : PartsGrown s.advance s' parts q e) :
    Growth s s' true (Node.interleave q e) (q ++ e) := by
  have heof : s.current.isEof = false := by simp [hcurrent, Token.isEof]
  have htree : s.advance.tree = s.tree := by
    unfold State.advance
    split <;> rfl
  have hfresh := h.fresh
  rw [htree] at hfresh
  refine ⟨(Frame.advance s).trans h.frame, fun i hi => hfresh i (mem_interleave hi), fun hs _ => ?_,
    fun hs => ?_⟩
  · rw [h.pos_eq, pos_advance hs heof]
    exact Nat.lt_succ_self _
  · have hpassed : s'.passed = s.currentSpan.stop := by
      rw [← passed_advance hs heof]
      simp only [State.passed, h.pos_eq, h.tokens_eq]
    have hsource : s.advance.source = s.source := (Frame.advance s).source
    have hsown := h.sown s.currentSpan.start s.currentSpan.stop
    rw [hsource, htree] at hsown
    rw [State.here, hpassed]
    exact hsown (hs.partsPlaced hcurrent)

/-- It has the range of the token. -/
theorem PartsGrown.spanFrom_eq {parts : List TemplatePart} {q e : List NodeId}
    (hcurrent : s.current = .template parts) (h : PartsGrown s.advance s' parts q e)
    (hs : s.Ready) : s'.spanFrom s.currentSpan = s.currentSpan := by
  have hsame : s'.spanFrom s.currentSpan = s.advance.spanFrom s.currentSpan := by
    simp only [State.spanFrom, h.pos_eq, h.tokens_eq]
  rw [hsame, spanFrom_advance hs (by simp [hcurrent, Token.isEof])]

theorem grows_template (hg : g.Sound) : GrowsNode (template g) := by
  refine .of_leads fun s h => ?_
  unfold template
  refine .ask_bind (.advance_bind ?_)
  split
  · next parts hcurrent =>
    refine ((leads_templateParts hg _ parts [] []).rebase (Frame.advance s)).bind ?_
    rintro _ s' ⟨q, e, rfl, h⟩
    exact ((h.growth hcurrent).alloc (.templateLiteral q e) (fun hs => (h.spanFrom_eq hcurrent hs).symm)
      rfl (by simp [Node.ids, Node.fields]) (.inl rfl)).done rfl
  · exact .fail (Frame.advance s)

end Parse
end ScriptLint
