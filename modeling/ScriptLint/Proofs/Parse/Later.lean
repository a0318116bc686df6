import ScriptLint.Proofs.Parse.Composed.Statement

namespace ScriptLint
namespace Parse

open ScriptLint.Parser

variable {α β σ : Type} {g : Grammar} {r : Bool} {c : Site} {s s' s'' : State} {p : Parser α}

theorem eq_of_ask {f : State → α} {a : α} (h : Parser.ask f s = (.ok a, s')) :
    f s = a ∧ s = s' := by
  obtain ⟨hok, hstate⟩ := Prod.mk.inj h
  exact ⟨Except.ok.inj hok, hstate⟩

theorem eq_of_pure {a b : α} (h : (pure a : Parser α) s = (.ok b, s')) : a = b ∧ s = s' := by
  obtain ⟨hok, hstate⟩ := Prod.mk.inj h
  exact ⟨Except.ok.inj hok, hstate⟩

theorem eq_of_alloc {node : Node} {span : Span} {id : NodeId}
    (h : Parser.alloc node span s = (.ok id, s')) :
    id = s.tree.size ∧ s' = { s with tree := (s.tree.alloc node (some span)).2 } := by
  obtain ⟨hok, hstate⟩ := Prod.mk.inj h
  exact ⟨(Except.ok.inj hok).symm, hstate.symm⟩

/-- A mark that was expected has been taken. -/
theorem eq_of_expect {mark : Punct} {u : Unit} (h : Parser.expect mark s = (.ok u, s')) :
    s.current = .punct mark ∧ s' = s.advance := by
  unfold Parser.expect at h
  split at h
  · next hmark => exact ⟨eq_of_isPunct hmark, (Prod.mk.inj h).2.symm⟩
  · cases (Prod.mk.inj h).1

theorem eq_of_eat {mark : Punct} {eaten : Bool} (h : Parser.eat mark s = (.ok eaten, s')) :
    s' = if eaten then s.advance else s := by
  unfold Parser.eat eatIf at h
  split at h <;> cases h <;> rfl

/-- A later place in the tokens of a state, or in what remains of them. -/
structure Later (s s' : State) : Prop where
  source : s'.source = s.source
  tokens : TokensRemain s.tokens s'.tokens
  pos_le : s.pos ≤ s'.pos
  pos_lt : s.pos < s.tokens.size → s'.pos < s'.tokens.size

namespace Later

theorem refl (s : State) : Later s s := ⟨rfl, .refl _, le_rfl, id⟩

theorem withTree (s : State) (tree : Tree) : Later s { s with tree } := ⟨rfl, .refl _, le_rfl, id⟩

theorem trans (h : Later s s') (h' : Later s' s'') : Later s s'' where
  source := h'.source.trans h.source
  tokens := h.tokens.trans h'.tokens
  pos_le := h.pos_le.trans h'.pos_le
  pos_lt hlt := h'.pos_lt (h.pos_lt hlt)

theorem of_frame (h : Frame s s') : Later s s' := ⟨h.source, h.tokens, h.pos_le, h.pos_lt⟩

theorem frame (h : Later s s') :
    Frame s { s with tokens := s'.tokens, pos := s'.pos } :=
  ⟨rfl, h.tokens, h.pos_le, h.pos_lt, .refl _, rfl, rfl, rfl⟩

/-- Tokens that stand in place do so later on. -/
theorem ready (h : Later s s') (hs : s.Ready) : s'.Ready :=
  (h.frame.ready hs).congr h.source rfl (h.pos_lt hs.pos_lt)

theorem of_run {result : Except ParseError α} (h : Later s (p s).2) (hrun : p s = (result, s')) :
    Later s s' := by
  rwa [hrun] at h

theorem of_grows {m : Bool} {out : α → List NodeId} (h : Grows p m out) (s : State) :
    Later s (p s).2 := by
  have hrun := h s
  unfold Leads at hrun
  split at hrun
  · next a s' heq =>
    rw [heq]
    exact of_frame hrun.frame
  · next e s' heq =>
    rw [heq]
    exact of_frame hrun

theorem bind {f : α → Parser β} (hp : Later s (p s).2)
    (hf : ∀ a s', p s = (.ok a, s') → Later s' (f a s').2) : Later s ((p >>= f) s).2 := by
  match hrun : p s with
  | (.ok a, s') =>
    rw [bind_of_ok hrun]
    exact (hp.of_run hrun).trans (hf a s' hrun)
  | (.error e, s') =>
    rw [bind_of_error hrun]
    exact hp.of_run hrun

theorem loop {body : σ → Parser (Loop σ)} (init : σ)
    (h : ∀ value s, Later s (body value s).2) : Later s (Parser.loop init body s).2 := by
  have hturns : ∀ fuel value s, Later s (loopUpTo body fuel value s).2 := by
    intro fuel
    induction fuel with
    | zero => exact fun _ s => .refl s
    | succ fuel ih =>
      refine fun value s => .bind (h value s) fun turn s' _ => ?_
      cases turn with
      | stop value => exact .refl s'
      | next value => exact ih value s'
  exact hturns _ init s

end Later

/-- A construct reads on. -/
theorem later_of_counted (hg : g.Sound) {p : Parser NodeId} (h : g.Counted r p) (s : State) :
    Later s (p s).2 := by
  cases h with
  | statement => exact .of_grows hg.statement s
  | assignment => exact .of_grows hg.assignment s
  | unary => exact .of_grows hg.unary s
  | type => exact .of_grows hg.type s

theorem later_of_uncounted (hg : g.Sound) {p : Parser NodeId} (h : g.Uncounted r p) (s : State) :
    Later s (p s).2 := by
  cases h with
  | binary least => exact .of_grows (hg.binary least) s
  | leftHandSide => exact .of_grows hg.leftHandSide s
  | new => exact .of_grows hg.new s
  | typeOperator => exact .of_grows hg.typeOperator s
  | bindingTarget => exact .of_grows (grows_bindingTarget hg) s

theorem later_extendRange (target : NodeId) (s : State) : Later s (extendRange target s).2 := by
  cases hrange : s.tree.range target with
  | none => simp only [extendRange, update, hrange, Later.refl]
  | some range =>
    simp only [extendRange, update, hrange]
    exact .withTree s _

theorem later_annotate (hg : g.Sound) (target : NodeId) (s : State) :
    Later s (annotate g target s).2 := by
  unfold annotate
  refine .bind (.of_grows (grows_eatIf _) s) fun optional s₁ _ => ?_
  refine .bind (.of_grows (grows_eatIf _) s₁) fun definite s₂ _ => ?_
  refine .bind (.of_grows (grows_typeAscription? hg) s₂) fun ascription s₃ _ => ?_
  split
  · refine .bind (.refl s₃) fun node s₄ _ => .bind (.withTree s₄ _) fun _ s₅ _ => ?_
    exact later_extendRange target s₅
  · exact .refl s₃

/-- A parser that is put together from parts reads on, whether it fails or not. -/
theorem Composed.later {moves : α → Bool} (h : Composed g r c p moves) (hg : g.Sound)
    (hs : c.known s) : Later s (p s).2 := by
  induction h generalizing s with
  | pure a h => exact .refl s
  | follow hp hf ihp ihf => exact .bind (ihp hs) fun a s' hrun => ihf a ⟨trivial, s, hrun⟩
  | weaken h hc hmoves ih => exact ih (hc.known s hs)
  | ite hp hq ihp ihq =>
    split
    · exact ihp ‹_› hs
    · exact ihq ‹_› hs
  | asks hp hfree hf ih =>
    obtain ⟨a, ha⟩ := hp s
    rw [bind_of_ok ha]
    exact ih a ⟨hs, ha⟩
  | note hf ih => exact ih s.currentSpan hs
  | operator hf ih => exact ih _ ⟨hs, rfl⟩
  | fail e hspan hcause => exact .refl s
  | unexpected expected => exact .refl s
  | advance moves h => exact .of_frame (.advance s)
  | eatIf heof => exact .of_grows (grows_eatIf _) s
  | expecting heof a expected =>
    beta_reduce
    split
    · exact .of_frame (.advance s)
    · exact .refl s
  | consumeSemicolon => exact .of_grows grows_consumeSemicolon s
  | splitCurrent rest h => exact .of_frame (.splitCurrent s (h s hs))
  | alloc node span h => exact .withTree s _
  | finish start node h => exact .withTree s _
  | toPattern id => exact .withTree s _
  | @nested r α c p h ih =>
    by_cases hdeep : maxDepth ≤ s.depth
    · simp only [Parser.nested, enter, if_pos hdeep]
      exact .refl s
    · have hinner : Later { s with depth := s.depth + 1 }
          (p { s with depth := s.depth + 1 }).2 := ih trivial
      simp only [Parser.nested, enter, if_neg hdeep]
      exact ⟨hinner.source, hinner.tokens, hinner.pos_le, hinner.pos_lt⟩
  | attempt hgrows h ih => exact .of_grows (grows_attempt hgrows) s
  | @withIn r α c c' p moves allowIn hmoved hnoted hknown h ih =>
    have hinner : Later { s with allowIn } (p { s with allowIn }).2 := ih (hknown s hs)
    exact ⟨hinner.source, hinner.tokens, hinner.pos_le, hinner.pos_lt⟩
  | loop init h ih => exact .loop init fun value s => ih value trivial
  | counted h => exact later_of_counted hg h s
  | uncounted h hmoved => exact later_of_uncounted hg h s
  | block hbody h ih => exact ih hs
  | template hknown h ih => exact .of_grows (grows_template hg) s
  | typeReference hname harguments ihname iharguments =>
    exact .of_grows (grows_typeReference hg) s
  | typeAscription => exact .of_grows (grows_typeAscription hg) s
  | rest start argument h ih => exact .bind (ih hs) fun ascription s' _ => .withTree s' _
  | annotated hp hbare ih =>
    refine .bind (ih hs) fun target s' _ => .bind (later_annotate hg target s') fun _ s'' _ => ?_
    exact .refl s''
  | skipImportAttributes => exact .of_grows grows_skipImportAttributes s

end Parse
end ScriptLint
