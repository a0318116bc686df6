import ScriptLint.Proofs.Parse.Twin.State

namespace ScriptLint
namespace Parse

open ScriptLint.Parser

/-- The same reason of an error, up to spans. -/
inductive CauseTwin (source : Side → List Char) (verbatim : Bool) : ParseCause → ParseCause → Prop where
  | same (cause : ParseCause) : CauseTwin source verbatim cause cause
  | unexpectedToken (expected : List Token) {found found' : Token}
      (h : TokenTwin source verbatim found found') :
      CauseTwin source verbatim (.unexpectedToken expected found) (.unexpectedToken expected found')

/-- The same error, up to spans. -/
structure ErrorTwin (source : Side → List Char) (verbatim : Bool) (e e' : ParseError) : Prop where
  cause : CauseTwin source verbatim e.cause e'.cause
  suggestion : e'.suggestion = e.suggestion

/-- Both parsers have failed. They did so for the same reason, unless one of them found the end of
the text where the other one went on. -/
structure Failed (w : Passage) (e : Side → ParseError) (r : Side → State) : Prop where
  tokens : w.Tokens fun i => (r i).tokens
  alike : w.goesOn = false →
    w.Twin r ∧ ErrorTwin w.source w.verbatim (e .left) (e .right)

/-- How two runs have ended: both with a value, after which a mark holds, or both with an error. -/
inductive Outcome {α : Type} [Renumber α] (w : Passage) (N : α → Mark)
    (run : Side → Except ParseError α × State) : Prop where
  | value (a : α) (r : Side → State) (hrun : ∀ i, run i = (.ok (renumber (w.id i) a), r i))
      (htwin : w.Twin r) (hmark : (N a).Holds w (r .left))
  | error (e : Side → ParseError) (r : Side → State) (hrun : ∀ i, run i = (.error (e i), r i))
      (hfailed : Failed w e r)

/-- Two parsers that do the same where the mark `m` holds. -/
def Agrees {α : Type} [Renumber α] (w : Passage) (m : Mark) (N : α → Mark)
    (p : Side → Parser α) : Prop :=
  ∀ s, w.Twin s → m.Holds w (s .left) → Outcome w N fun i => p i (s i)

variable {α β σ : Type} [Renumber α] [Renumber β] [Renumber σ] {w : Passage} {m n : Mark}
  {N N' : α → Mark} {O : β → Mark} {s : Side → State}

/-- Data that names no nodes. -/
class Nameless (α : Type) [Renumber α] : Prop where
  renumber_eq (f : NodeId → NodeId) (a : α) : renumber f a = a

instance : Nameless Bool := ⟨fun _ _ => rfl⟩
instance : Nameless Unit := ⟨fun _ _ => rfl⟩
instance [Nameless α] : Nameless (Option α) :=
  ⟨fun f a => by cases a <;> simp [renumber, Nameless.renumber_eq]⟩

namespace Agrees

variable {p q : Side → Parser α}

theorem congr (h : Agrees w m N q) (heq : ∀ i, p i = q i) : Agrees w m N p := by
  have hpq : p = q := funext heq
  rwa [hpq]

theorem weaken (h : Agrees w m N p) (hN : ∀ a, (N a).Implies w (N' a)) : Agrees w m N' p := by
  intro s hs hm
  cases h s hs hm with
  | value a r hrun htwin hmark => exact .value a r hrun htwin (hN a _ hmark)
  | error e r hrun hfailed => exact .error e r hrun hfailed

theorem strengthen (h : Agrees w n N p) (hm : m.Implies w n) : Agrees w m N p :=
  fun s hs hmark => h s hs (hm _ hmark)

/-- A token may have been taken. -/
theorem relax (h : Agrees w m (fun _ => n.step) p) : Agrees w m (fun _ => n.forget) p :=
  h.weaken fun _ => n.step_implies

theorem bind {f : Side → α → Parser β} (hp : Agrees w m N p)
    (hf : ∀ a, Agrees w (N a) O fun i => f i (renumber (w.id i) a)) :
    Agrees w m O fun i => p i >>= f i := by
  intro s hs hm
  cases hp s hs hm with
  | value a r hrun htwin hmark =>
    simp only [bind_of_ok (hrun _)]
    exact hf a r htwin hmark
  | error e r hrun hfailed => exact .error e r (fun i => bind_of_error (hrun i)) hfailed

/-- A parser and the next one, where the first value names no nodes. -/
theorem seq [Nameless α] {f : Side → α → Parser β} (hp : Agrees w m N p)
    (hf : ∀ a, Agrees w (N a) O fun i => f i a) : Agrees w m O fun i => p i >>= f i := by
  refine hp.bind fun a => ?_
  simp only [Nameless.renumber_eq]
  exact hf a

theorem pure (a : α) {v : Side → α} (hv : ∀ i, v i = renumber (w.id i) a)
    (hm : m.Implies w (N a)) : Agrees w m N fun i => pure (v i) := fun s hs hmark =>
  .value a s (fun i => congrArg (fun b => (Except.ok b, s i)) (hv i)) hs (hm _ hmark)

theorem map {f : Side → α → β} (g : α → β) (hp : Agrees w m (fun a => O (g a)) p)
    (hf : ∀ i a, f i (renumber (w.id i) a) = renumber (w.id i) (g a)) :
    Agrees w m O fun i => f i <$> p i :=
  hp.bind fun a => .pure (g a) (fun i => hf i a) (.refl _)

/-- A question to the state, whose answer is known to the parser that follows. -/
theorem ask {γ : Type} {f : State → γ} {g : Side → γ → Parser α}
    (h : ∀ s, w.Twin s → m.Holds w (s .left) →
      Agrees w (m.knowing fun t => f t = f (s .left)) N fun i => g i (f (s i))) :
    Agrees w m N fun i => Parser.ask f >>= g i := fun s hs hm =>
  h s hs hm s hs { hm with known := ⟨hm.known, rfl⟩ }

/-- A question that both states answer in the same way. -/
theorem asks {γ : Type} {f : State → γ} {g : Side → γ → Parser α}
    (hf : ∀ s, w.Twin s → m.Holds w (s .left) → f (s .right) = f (s .left))
    (h : ∀ a, Agrees w (m.knowing fun t => f t = a) N fun i => g i a) :
    Agrees w m N fun i => Parser.ask f >>= g i := by
  refine ask fun s hs hm => (h (f (s .left))).congr fun i => ?_
  cases i with
  | left => rfl
  | right => rw [hf s hs hm]

/-- A question that is answered at once. -/
theorem answer {f : State → Bool}
    (hf : ∀ s, w.Twin s → m.Holds w (s .left) → f (s .right) = f (s .left)) :
    Agrees w m (fun b => m.knowing fun t => f t = b) fun _ => Parser.ask f := by
  intro s hs hm
  refine .value (f (s .left)) s (fun i => ?_) hs { hm with known := ⟨hm.known, rfl⟩ }
  cases i with
  | left => rfl
  | right => exact congrArg (fun b => (Except.ok b, s .right)) (hf s hs hm)

theorem ite {c : Prop} [Decidable c] (hp : c → Agrees w m N p) (hq : ¬c → Agrees w m N q) :
    Agrees w m N fun i => if c then p i else q i := by
  split
  · exact hp ‹_›
  · exact hq ‹_›

/-- A mark that does not hold while something can still be read. -/
theorem of_budget (hm : m.budget = 0) : Agrees w m N p := fun s hs hmark =>
  absurd (hmark.pos_budget hs) (by omega)

/-- A parser with `in` allowed or not, where what it has to know does not depend on that. -/
theorem withIn_of (allowIn : Bool) (hm : ∀ s, m.Holds w s → n.Holds w { s with allowIn })
    (h : Agrees w n N p) :
    Agrees w m (fun a => (N a).forget) fun i => Parser.withIn allowIn (p i) := by
  intro s hs hmark
  have hin : w.Twin fun i => { s i with allowIn } := hs.withAllowIn fun _ => rfl
  have hback : ∀ r : Side → State, w.Twin r →
      w.Twin fun i => { r i with allowIn := (s i).allowIn } := fun r hr => hr.withAllowIn hs.allowIn
  cases h _ hin (hm _ hmark) with
  | value a r hrun htwin hmark =>
    refine .value a (fun i => { r i with allowIn := (s i).allowIn }) (fun i => ?_) (hback r htwin)
      ⟨hmark.budget, hmark.steps, hmark.level, hmark.moved, trivial⟩
    simp only [Parser.withIn, hrun]
  | error e r hrun hfailed =>
    refine .error e (fun i => { r i with allowIn := (s i).allowIn }) (fun i => ?_)
      ⟨hfailed.tokens, fun hclosed => ⟨hback r (hfailed.alike hclosed).1, (hfailed.alike hclosed).2⟩⟩
    simp only [Parser.withIn, hrun]

theorem withIn (allowIn : Bool) (h : Agrees w m.forget N p) :
    Agrees w m (fun a => (N a).forget) fun i => Parser.withIn allowIn (p i) :=
  withIn_of (n := m.forget) allowIn (fun _ h => ⟨h.budget, h.steps, h.level, h.moved, trivial⟩) h

/-- One level deeper. -/
theorem nested (h : Agrees w m.deeper (fun _ => m.deeper.step) p) :
    Agrees w m (fun _ => m.step) fun i => Parser.nested (p i) := by
  intro s hs hm
  by_cases hdeep : maxDepth ≤ (s .left).depth
  · have hrun : ∀ i, Parser.nested (p i) (s i) =
        (.error ⟨.limitExceeded s!"nesting deeper than {maxDepth}", (s i).currentSpan, none⟩, s i) := by
      intro i
      simp only [Parser.nested, enter, hs.depth i, if_pos hdeep]
    exact .error _ s hrun ⟨hs.tokens, fun _ => ⟨hs, .same _, rfl⟩⟩
  have hin : w.Twin fun i => { s i with depth := (s i).depth + 1 } := hs.withDepth (· + 1)
  have hmark : m.deeper.Holds w { s .left with depth := (s .left).depth + 1 } := by
    refine ⟨?_, hm.steps, hm.level, hm.moved, trivial⟩
    have hbudget := hm.budget
    change (maxDepth - ((s .left).depth + 1)) + (s .left).total mass ≤ m.budget - 1
    simp only [State.reach] at hbudget
    omega
  have hback : ∀ r : Side → State, w.Twin r →
      w.Twin fun i => { r i with depth := (r i).depth - 1 } := fun r hr => hr.withDepth (· - 1)
  have hrun : ∀ i, Parser.nested (p i) (s i) =
      ((p i { s i with depth := (s i).depth + 1 }).1,
        { (p i { s i with depth := (s i).depth + 1 }).2 with
          depth := (p i { s i with depth := (s i).depth + 1 }).2.depth - 1 }) := by
    intro i
    have hshallow : ¬maxDepth ≤ (s i).depth := by rwa [hs.depth i]
    simp only [Parser.nested, enter, if_neg hshallow]
  simp only [hrun]
  have hroom := hmark.pos_budget hin
  cases h _ hin hmark with
  | value a r hrun htwin hmark =>
    refine .value a (fun i => { r i with depth := (r i).depth - 1 }) (fun i => ?_) (hback r htwin)
      ⟨?_, hmark.steps, hmark.level, hmark.moved, trivial⟩
    · simp only [hrun]
    · have hbudget := hmark.budget
      have hpos := State.reach_pos (htwin.pos_lt_size .left)
      change (maxDepth - ((r .left).depth - 1)) + (r .left).total mass ≤ m.budget - 1
      simp only [State.reach, Mark.deeper, Mark.step, Mark.after] at hbudget hroom hpos
      omega
  | error e r hrun hfailed =>
    refine .error e (fun i => { r i with depth := (r i).depth - 1 }) (fun i => ?_)
      ⟨hfailed.tokens, fun hclosed => ⟨hback r (hfailed.alike hclosed).1, (hfailed.alike hclosed).2⟩⟩
    simp only [hrun]

/-- A parser that fails under `attempt` leaves both states as they were, but for angles that were
taken from tokens. -/
theorem attempt {b : Bool} {out : α → List NodeId} (hgrows : ∀ i, Grows (p i) b out)
    (h : Agrees w m (fun _ => m.step) p) :
    Agrees w m (fun found => m.stepIf found.isSome) fun i => Parser.attempt (p i) := by
  intro s hs hm
  cases h s hs hm with
  | value a r hrun htwin hmark =>
    refine .value (some a) r (fun i => ?_) htwin hmark
    simp only [Parser.attempt, hrun]
    rfl
  | error e r hrun hfailed =>
    have hframe : ∀ i, Frame (s i) (r i) := fun i => by
      have hleads := hgrows i (s i)
      simp only [Leads, hrun i] at hleads
      exact hleads
    refine .value none (fun i => { s i with tokens := (r i).tokens })
      (fun i => attempt_eq (hframe i).kept (hrun i)) ?_ (hm.withTokens (hframe .left).tokens)
    exact hs.withTokens hfailed.tokens fun i => (hframe i).withTokens.ready (hs.ready i)

end Agrees

instance : Renumber (Loop σ) := ⟨fun f turn =>
  match turn with
  | .stop value => .stop (renumber f value)
  | .next value => .next (renumber f value)⟩

/-- Whether a loop goes on. -/
def goesOn : Loop σ → Bool
  | .stop _ => false
  | .next _ => true

namespace Agrees

theorem turns {body : Side → σ → Parser (Loop σ)}
    (hbody : ∀ k a, Agrees w (m.turn k) (fun turn => (m.turn k).stepIf (Parse.goesOn turn))
      fun i => body i (renumber (w.id i) a))
    (k : Nat) {fuel : Side → Nat} (hfuel : ∀ i, k < fuel i) (a : σ) :
    Agrees w (m.turn k) (fun _ => m.turn k)
      fun i => loopUpTo (body i) (fuel i) (renumber (w.id i) a) := by
  induction k generalizing fuel a with
  | zero =>
    intro s hs hm
    exact absurd (hm.pos_steps hs) (Nat.lt_irrefl 0)
  | succ k ih =>
    have hturn : ∀ i, loopUpTo (body i) (fuel i) (renumber (w.id i) a) = (do
        match ← body i (renumber (w.id i) a) with
        | .stop value => Pure.pure value
        | .next value => loopUpTo (body i) (fuel i - 1) value) := fun i => by
      obtain ⟨n, hn⟩ := Nat.exists_eq_add_one_of_ne_zero (Nat.ne_zero_of_lt (hfuel i))
      rw [hn]
      rfl
    refine congr ((hbody (k + 1) a).bind fun turn => ?_) hturn
    cases turn with
    | stop value => exact .pure value (fun _ => rfl) (Mark.implies_forget _)
    | next value =>
      have hnext := ih (fun i => Nat.lt_sub_of_add_lt (hfuel i)) value
      refine (hnext.strengthen fun s h => ?_).weaken fun _ s h => ?_
      · exact ⟨h.budget.trans (Nat.sub_le _ _), h.steps, h.level, fun _ => h.moved rfl, trivial⟩
      · exact ⟨h.budget, h.steps.trans (Nat.le_succ _), h.level, h.moved, trivial⟩

/-- A loop whose turns agree and take a token each, until they end it. -/
theorem loop (init : σ) {v : Side → σ} (hv : ∀ i, v i = renumber (w.id i) init)
    {body : Side → σ → Parser (Loop σ)}
    (hbody : ∀ k a, Agrees w (m.turn k) (fun turn => (m.turn k).stepIf (Parse.goesOn turn))
      fun i => body i (renumber (w.id i) a)) :
    Agrees w m (fun _ => m.forget) fun i => Parser.loop (v i) (body i) := by
  intro s hs hm
  have hfuel : ∀ i, (s .left).steps < 4 * (s i).tokens.size + 1 := fun i => by
    have hle := (s .left).steps_le
    have hsize := hs.tokens.size
    have hright := hs.tokens.size_le
    cases i <;> omega
  have hrun := turns hbody (s .left).steps hfuel init s hs
    ⟨hm.budget, le_rfl, hm.level, hm.moved, trivial⟩
  simp only [Parser.loop, hv]
  cases hrun with
  | value a r hrun htwin hmark =>
    exact .value a r hrun htwin
      ⟨hmark.budget, hmark.steps.trans hm.steps, hmark.level, hmark.moved, trivial⟩
  | error e r hrun hfailed => exact .error e r hrun hfailed

end Agrees
end Parse
end ScriptLint
