import ScriptLint.Proofs.Parse.Later

namespace ScriptLint
namespace Parse

open ScriptLint.Parser

variable {α β σ : Type} {g : Grammar} {r : Bool} {c : Site} {s s' s'' : State} {p : Parser α}

theorem State.advance_allowIn (s : State) (allowIn : Bool) :
    ({ s with allowIn } : State).advance = { s.advance with allowIn } := by
  unfold State.advance
  split <;> rfl

/-- Run from `s`, the parser does the same whether `in` is an operator or not. -/
def Alike (p : Parser α) (s : State) : Prop :=
  ∀ allowIn, p { s with allowIn } = ((p s).1, { (p s).2 with allowIn })

namespace Alike

theorem bind {f : α → Parser β} (hp : Alike p s)
    (hf : ∀ a s', p s = (.ok a, s') → Alike (f a) s') : Alike (p >>= f) s := by
  intro allowIn
  have hrun' := hp allowIn
  match hrun : p s with
  | (.ok a, s') =>
    rw [hrun] at hrun'
    rw [bind_of_ok hrun', bind_of_ok hrun]
    exact hf a s' hrun allowIn
  | (.error e, s') =>
    rw [hrun] at hrun'
    rw [bind_of_error hrun', bind_of_error hrun]

/-- A question that does not ask whether `in` is an operator. -/
theorem asks {f : α → Parser β} (hp : Asks p)
    (hfree : ∀ s allowIn, (p { s with allowIn }).1 = (p s).1)
    (hf : ∀ a, p s = (.ok a, s) → Alike (f a) s) : Alike (p >>= f) s := by
  obtain ⟨a, ha⟩ := hp s
  refine .bind (fun allowIn => ?_) fun a' s' hrun => ?_
  · obtain ⟨a', ha'⟩ := hp { s with allowIn }
    have heq := hfree s allowIn
    rw [ha, ha'] at heq
    rw [ha', ha]
    exact congrArg (·, { s with allowIn }) heq
  · obtain ⟨rfl, rfl⟩ : a = a' ∧ s = s' := by simpa [ha] using hrun
    exact hf a ha

theorem ask {γ : Type} {f : State → γ} {k : γ → Parser α}
    (hfree : ∀ s allowIn, f { s with allowIn } = f s) (h : Alike (k (f s)) s) :
    Alike (Parser.ask f >>= k) s := by
  intro allowIn
  have hrun := h allowIn
  change k (f { s with allowIn }) { s with allowIn } = _
  rw [hfree]
  exact hrun

/-- A value, with which the current token is taken. -/
theorem taking {a : State → α} (hfree : ∀ s allowIn, a { s with allowIn } = a s) (s : State) :
    Alike (fun s => (.ok (a s), s.advance)) s := fun allowIn =>
  Prod.ext (congrArg Except.ok (hfree s allowIn)) (s.advance_allowIn allowIn)

theorem skip (s : State) : Alike Parser.skip s := .taking (fun _ _ => rfl) s

theorem choose {p q : Parser α} {test : State → Bool}
    (hfree : ∀ s allowIn, test { s with allowIn } = test s)
    (hp : Alike p s) (hq : Alike q s) : Alike (fun s => if test s then p s else q s) s := by
  intro allowIn
  have hp' := hp allowIn
  have hq' := hq allowIn
  simp only [hfree, hp', hq']
  split <;> rfl

theorem eatIf (test : Token → Bool) (s : State) : Alike (Parser.eatIf test) s :=
  .choose (fun _ _ => rfl) (.taking (fun _ _ => rfl) s) fun _ => rfl

theorem loop {body : σ → Parser (Loop σ)} {Q : State → Prop} (init : σ) (hs : Q s)
    (h : ∀ value s, Q s → Alike (body value) s)
    (hQ : ∀ value s turn s', Q s → body value s = (.ok turn, s') → Q s') :
    Alike (Parser.loop init body) s := by
  have hturns : ∀ fuel value s, Q s → Alike (loopUpTo body fuel value) s := by
    intro fuel
    induction fuel with
    | zero => exact fun _ _ _ _ => rfl
    | succ fuel ih =>
      refine fun value s hs => .bind (h value s hs) fun turn s' hrun => ?_
      cases turn with
      | stop value => exact fun _ => rfl
      | next value => exact ih value s' (hQ _ _ _ _ hs hrun)
  exact fun allowIn => hturns (4 * s.tokens.size + 1) init s hs allowIn

theorem nested (h : Alike p { s with depth := s.depth + 1 }) : Alike (Parser.nested p) s := by
  intro allowIn
  by_cases hdeep : maxDepth ≤ s.depth
  · simp only [Parser.nested, enter, if_pos hdeep]
    rfl
  · have hrun := h allowIn
    simp only [Parser.nested, enter, if_neg hdeep]
    rw [hrun]

theorem attempt (h : Alike p s) : Alike (Parser.attempt p) s := by
  intro allowIn
  have hrun' := h allowIn
  match hrun : p s with
  | (.ok a, s') => simp only [Parser.attempt, hrun', hrun]
  | (.error e, s') => simp only [Parser.attempt, hrun', hrun]

end Alike

/-- Run from `s`, the parser does the same either way, and reads on. -/
structure Steady (p : Parser α) (s : State) : Prop where
  alike : Alike p s
  later : Later s (p s).2

namespace Steady

theorem eat (mark : Punct) (s : State) : Steady (Parser.eat mark) s :=
  ⟨.eatIf _ s, .of_grows (grows_eatIf _) s⟩

theorem skip (s : State) : Steady Parser.skip s := ⟨.skip s, .of_frame (.advance s)⟩

theorem expect (mark : Punct) (s : State) : Steady (Parser.expect mark) s where
  alike := .choose (fun _ _ => rfl) (.taking (fun _ _ => rfl) s) fun _ => rfl
  later := .of_grows (grows_expect mark) s

/-- After a part that is steady comes what does the same in all states that it may end in. -/
theorem bind {f : α → Parser β} (hp : Steady p s) (hf : ∀ a s', Later s s' → Alike (f a) s') :
    Alike (p >>= f) s :=
  .bind hp.alike fun a s' hrun => hf a s' (hp.later.of_run hrun)

/-- A parser that is run only under a condition, and what follows in either case. -/
theorem when {condition : Prop} [Decidable condition] {q : Parser β} (hp : Steady p s)
    (hq : ∀ s', Later s s' → Alike q s') :
    Alike (if condition then p >>= fun _ => q else q) s := by
  split
  · exact hp.bind fun _ => hq
  · exact hq s (.refl s)

/-- One of two parsers, and what follows in either case. -/
theorem either {condition : Prop} [Decidable condition] {q : Parser α} {f : α → Parser β}
    (hp : Steady p s) (hq : Steady q s) (hf : ∀ a s', Later s s' → Alike (f a) s') :
    Alike (if condition then p >>= f else q >>= f) s := by
  split
  · exact hp.bind hf
  · exact hq.bind hf

end Steady

/-- A type annotation, if types are the same either way. -/
theorem alike_typeAscription (htype : ∀ s', Later s s' → Alike g.type s') :
    Alike (typeAscription g) s := by
  refine .ask (fun _ _ => rfl) ((Steady.expect .colon s).bind fun _ s' hlater => ?_)
  exact .bind (htype s' hlater) fun type s'' _ _ => rfl

theorem alike_extendRange (target : NodeId) (s : State) : Alike (extendRange target) s := by
  intro allowIn
  cases hrange : s.tree.range target with
  | none => simp only [extendRange, update, hrange]
  | some range =>
    simp only [extendRange, update, hrange]
    rfl

theorem alike_annotate (target : NodeId) (htype : ∀ s', Later s s' → Alike g.type s') :
    Alike (annotate g target) s := by
  unfold annotate
  refine (Steady.eat .question s).bind fun optional s₁ hs₁ => ?_
  refine (Steady.eat .bang s₁).bind fun definite s₂ hs₂ => ?_
  refine .bind ?_ fun ascription s₃ _ => ?_
  · refine .ask (fun _ _ => rfl) ?_
    split
    · refine .bind (alike_typeAscription fun s' hlater => htype s' ?_) fun ascription s' _ _ => rfl
      exact (hs₁.trans hs₂).trans hlater
    · exact fun _ => rfl
  · split
    · exact .ask (fun _ _ => rfl) (.bind (fun _ => rfl) fun _ s₄ _ => alike_extendRange target s₄)
    · exact fun _ => rfl

theorem alike_templateParts (quasiCount : Nat) (parts : List TemplatePart)
    (quasis expressions : List NodeId) (s : State) :
    Alike (templateParts g quasiCount parts quasis expressions) s := by
  induction parts generalizing quasis expressions s with
  | nil => exact fun _ => rfl
  | cons part parts ih =>
    cases part with
    | quasi raw span => exact .bind (fun _ => rfl) fun quasi s' _ => ih _ _ s'
    | substitution tokens => exact .bind (fun _ => rfl) fun e s' _ => ih _ _ s'

/-- In the substitutions of a template `in` is an operator. -/
theorem alike_template (s : State) : Alike (template g) s := by
  refine .ask (fun _ _ => rfl) (.bind (.taking (fun _ _ => rfl) s) fun t s' _ => ?_)
  split
  · exact .bind (alike_templateParts _ _ _ _ s') fun nodes s'' _ _ => rfl
  · exact fun _ => rfl

theorem alike_skipThrough (close : Nat) (s : State) : Alike (skipThrough close) s := by
  refine .loop () trivial (fun _ s _ => .ask (fun _ _ => rfl) ?_) fun _ _ _ _ _ _ => trivial
  split
  · exact .bind (.skip s) fun _ s' _ _ => rfl
  · exact fun _ => rfl

theorem alike_skipImportAttributes (s : State) : Alike skipImportAttributes s := by
  refine .ask (fun _ _ => rfl) ?_
  split
  · refine .bind (.skip s) fun _ s' _ => .ask (fun _ _ => rfl) ?_
    split
    · exact alike_skipThrough _ s'
    · exact fun _ => rfl
  · exact fun _ => rfl

/-- Where `Q` holds, the constructs of a grammar do the same either way. Operators are known to, or
the bodies of functions, in which they stand. -/
structure AlikeOn (g : Grammar) (r : Bool) (Q : State → Prop) : Prop where
  later : ∀ {s s'}, Q s → Later s s' → Q s'
  operators : r = true → ∀ {s}, Q s → s.current ≠ .keyword .inWord
  body : r = false → ∀ {s}, Q s → BeforeBody g s → Alike (block g) s
  counted : ∀ {p}, g.Counted r p → ∀ {s}, Q s → Alike p s
  uncounted : ∀ {p}, g.Uncounted r p → ∀ {s}, Q s → Alike p s

theorem ofToken?_of_ne {t : Token} (h : t ≠ .keyword .inWord) (allowIn allowIn' : Bool) :
    InfixOperator.ofToken? allowIn t = InfixOperator.ofToken? allowIn' t := by
  cases t with
  | keyword word =>
    cases word with
    | inWord => exact absurd rfl h
    | _ => rfl
  | _ => rfl

/-- A parser that is put together from parts does the same either way, if the constructs do. -/
theorem Composed.alike {Q : State → Prop} {moves : α → Bool} (h : Composed g r c p moves)
    (hg : g.Sound) (hQ : AlikeOn g r Q) (hs : c.known s) (hq : Q s) : Alike p s := by
  induction h generalizing s with
  | pure a h => exact fun _ => rfl
  | follow hp hf ihp ihf =>
    refine .bind (ihp hQ hs hq) fun a s' hrun => ihf a hQ ⟨trivial, s, hrun⟩ (hQ.later hq ?_)
    exact (hp.later hg hs).of_run hrun
  | weaken h hc hmoves ih => exact ih hQ (hc.known s hs) hq
  | ite hp hq ihp ihq =>
    split
    · exact ihp ‹_› hQ hs ‹_›
    · exact ihq ‹_› hQ hs ‹_›
  | asks hp hfree hf ih => exact .asks hp hfree fun a ha => ih a hQ ⟨hs, ha⟩ hq
  | note hf ih => exact .ask (fun _ _ => rfl) (ih s.currentSpan hQ hs hq)
  | @operator β c f moves hf ih =>
    intro allowIn
    have hrun := ih (InfixOperator.ofToken? s.allowIn s.current) hQ ⟨hs, rfl⟩ hq allowIn
    change f (InfixOperator.ofToken? allowIn s.current) { s with allowIn } = _
    rw [ofToken?_of_ne (hQ.operators rfl hq) allowIn s.allowIn]
    exact hrun
  | fail e hspan hcause => exact fun _ => rfl
  | unexpected expected => exact fun _ => rfl
  | advance moves h => exact .taking (fun _ _ => rfl) s
  | eatIf heof => exact .eatIf _ s
  | expecting heof a expected =>
    exact .choose (fun _ _ => rfl) (.taking (fun _ _ => rfl) s) fun _ => rfl
  | consumeSemicolon =>
    refine .choose (fun _ _ => rfl) (.taking (fun _ _ => rfl) s) ?_
    exact .choose (fun _ _ => rfl) (fun _ => rfl) fun _ => rfl
  | splitCurrent rest h => exact fun _ => rfl
  | alloc node span h => exact fun _ => rfl
  | finish start node h => exact fun _ => rfl
  | toPattern id => exact fun _ => rfl
  | nested h ih => exact .nested (ih hQ trivial (hQ.later hq ⟨rfl, .refl _, le_rfl, id⟩))
  | attempt hgrows h ih => exact .attempt (ih hQ hs hq)
  | withIn allowIn hmoved hnoted hknown h ih => exact fun _ => rfl
  | loop init h ih =>
    refine .loop init hq (fun value s hq => ih value hQ trivial hq) ?_
    intro value s turn s' hq hrun
    have hlater : Later s _ := (h value).later hg trivial
    exact hQ.later hq (hlater.of_run hrun)
  | counted h => exact hQ.counted h hq
  | uncounted h hmoved => exact hQ.uncounted h hq
  | @block r c hbody h ih =>
    cases r with
    | true => exact ih hQ hs hq
    | false =>
      rcases hbody with hr | hbody
      · cases hr
      · exact hQ.body rfl hq (hbody s hs)
  | template hknown h ih => exact alike_template s
  | typeReference hname harguments ihname iharguments =>
    have hsteady : Steady entityName s := ⟨ihname hQ hs hq, hname.later hg hs⟩
    refine .ask (fun _ _ => rfl) (hsteady.bind fun name s' hlater => ?_)
    refine .ask (fun _ _ => rfl) (.ask (fun _ _ => rfl) ?_)
    split
    · exact .bind (iharguments hQ trivial (hQ.later hq hlater)) fun arguments s'' _ _ => rfl
    · exact fun _ => rfl
  | typeAscription =>
    exact alike_typeAscription fun s' hlater => hQ.counted .type (hQ.later hq hlater)
  | rest start argument h ih => exact .bind (ih hQ hs hq) fun ascription s' _ _ => rfl
  | annotated hp hbare ih =>
    refine Steady.bind ⟨ih hQ hs hq, hp.later hg hs⟩ fun target s' hlater => ?_
    refine .bind (alike_annotate target fun s'' hlater' => ?_) fun _ s'' _ _ => rfl
    exact hQ.counted .type (hQ.later hq (hlater.trans hlater'))
  | skipImportAttributes => exact alike_skipImportAttributes s

theorem Composed.steady {Q : State → Prop} {moves : α → Bool} (h : Composed g r c p moves)
    (hg : g.Sound) (hQ : AlikeOn g r Q) (hs : c.known s) (hq : Q s) : Steady p s :=
  ⟨h.alike hg hQ hs hq, h.later hg hs⟩

/-- Constructs in each other do the same either way where operators are known to, or the bodies of
functions. -/
theorem alikeOn_upTo {Q : State → Prop} (hlater : ∀ {s s'}, Q s → Later s s' → Q s')
    (hoperators : r = true → ∀ {s}, Q s → s.current ≠ .keyword .inWord)
    (hbody : r = false → ∀ n {s}, Q s → BeforeBody (Grammar.upTo n) s →
      Alike (block (Grammar.upTo n)) s) (n : Nat) :
    AlikeOn (Grammar.upTo n) r Q := by
  induction n with
  | zero =>
    refine ⟨hlater, hoperators, fun hr => hbody hr 0, fun h _ _ => ?_, fun h _ _ => ?_⟩
    · cases h <;> exact fun _ => rfl
    · cases h <;> exact fun _ => rfl
  | succ n ih =>
    have hsound := Grammar.sound_upTo n
    refine ⟨hlater, hoperators, fun hr => hbody hr (n + 1), fun h s hq => ?_, fun h s hq => ?_⟩
    · obtain ⟨body, rfl, hbody⟩ := exists_nested_of_counted hsound h
      exact .nested (hbody.alike hsound ih trivial (hlater hq ⟨rfl, .refl _, le_rfl, id⟩))
    · exact (composed_of_uncounted hsound h).alike hsound ih trivial hq

end Parse
end ScriptLint
