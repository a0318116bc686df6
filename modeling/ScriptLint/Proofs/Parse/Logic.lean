import ScriptLint.Proofs.Parse.Growth

namespace ScriptLint
namespace Parse

open ScriptLint.Parser

variable {α β σ : Type} {b s s' : State} {m m' : Bool} {ids held : List NodeId}

/-- A parser after one that succeeds. -/
theorem bind_of_ok {p : Parser α} {f : α → Parser β} {a : α} (h : p s = (.ok a, s')) :
    (p >>= f) s = f a s' := by
  change Parser.bind p f s = f a s'
  rw [Parser.bind, h]

/-- After a parser that fails no other one runs. -/
theorem bind_of_error {p : Parser α} {f : α → Parser β} {e : ParseError}
    (h : p s = (.error e, s')) : (p >>= f) s = (.error e, s') := by
  change Parser.bind p f s = (.error e, s')
  rw [Parser.bind, h]

/-- Run from `s`, the parser gives a value and a state of which `Q` holds, or it fails in a state
that parsers can reach from `b`. -/
def Leads (b s : State) (p : Parser α) (Q : α → State → Prop) : Prop :=
  match p s with
  | (.ok a, s') => Q a s'
  | (.error _, s') => Frame b s'

namespace Leads

variable {p : Parser α} {f : α → Parser β} {P Q : α → State → Prop} {R : β → State → Prop}

theorem bind (hp : Leads b s p P) (hf : ∀ a s', P a s' → Leads b s' (f a) R) :
    Leads b s (p >>= f) R := by
  unfold Leads at hp ⊢
  change match Parser.bind p f s with
    | (.ok a, s') => R a s'
    | (.error _, s') => Frame b s'
  unfold Parser.bind
  match h : p s with
  | (.ok a, s') =>
    rw [h] at hp
    exact hf a s' hp
  | (.error e, s') =>
    rw [h] at hp
    exact hp

theorem mono (hp : Leads b s p P) (h : ∀ a s', P a s' → Q a s') : Leads b s p Q := by
  unfold Leads at hp ⊢
  match hrun : p s with
  | (.ok a, s') =>
    rw [hrun] at hp
    exact h a s' hp
  | (.error e, s') =>
    rw [hrun] at hp
    exact hp

theorem and (hp : Leads b s p P) (hq : Leads b s p Q) :
    Leads b s p fun a s' => P a s' ∧ Q a s' := by
  unfold Leads at hp hq ⊢
  match hrun : p s with
  | (.ok a, s') =>
    rw [hrun] at hp hq
    exact ⟨hp, hq⟩
  | (.error e, s') =>
    rw [hrun] at hp
    exact hp

/-- A parser that began at a later state. -/
theorem rebase {s₁ : State} (hp : Leads s₁ s p Q) (h : Frame b s₁) : Leads b s p Q := by
  unfold Leads at hp ⊢
  match hrun : p s with
  | (.ok a, s') =>
    rw [hrun] at hp
    exact hp
  | (.error e, s') =>
    rw [hrun] at hp
    exact h.trans hp

theorem pure {a : α} (h : Q a s) : Leads b s (pure a) Q := h

theorem map {g : α → β} (hp : Leads b s p fun a s' => R (g a) s') : Leads b s (g <$> p) R :=
  hp.bind fun _ _ h => h

theorem fail {e : ParseError} (h : Frame b s) : Leads b s (Parser.fail e) Q := h

theorem unexpected {expected : List Token} (h : Frame b s) :
    Leads b s (Parser.unexpected expected) Q := h

/-- A question to the state does not change it. -/
theorem ask_bind {g : State → α} (h : Leads b s (f (g s)) R) : Leads b s (ask g >>= f) R := h

theorem skip_bind {f : Unit → Parser β} (h : Leads b s.advance (f ()) R) :
    Leads b s (skip >>= f) R := h

theorem advance_bind {f : Token → Parser β} (h : Leads b s.advance (f s.current) R) :
    Leads b s (Parser.advance >>= f) R := h

theorem alloc_bind {f : NodeId → Parser β} {node : Node} {span : Span}
    (h : Leads b { s with tree := (s.tree.alloc node (some span)).2 } (f s.tree.size) R) :
    Leads b s (alloc node span >>= f) R := h

theorem ite {c : Prop} [Decidable c] {q : Parser α} (hp : c → Leads b s p Q)
    (hq : ¬c → Leads b s q Q) : Leads b s (if c then p else q) Q := by
  split
  · exact hp ‹_›
  · exact hq ‹_›

/-- A parser that is run only under a condition, and what follows in either case. -/
theorem when_bind {c : Prop} [Decidable c] {q : Parser β} {P : State → Prop}
    (hp : c → Leads b s p fun _ s' => P s') (hskip : ¬c → P s)
    (hq : ∀ s', P s' → Leads b s' q R) : Leads b s (if c then p >>= fun _ => q else q) R := by
  split
  · exact (hp ‹_›).bind fun _ s' h => hq s' h
  · exact hq s (hskip ‹_›)

/-- One of two parsers, and what follows in either case. -/
theorem either_bind {c : Prop} [Decidable c] {q : Parser α} (hp : c → Leads b s p P)
    (hq : ¬c → Leads b s q P) (hf : ∀ a s', P a s' → Leads b s' (f a) R) :
    Leads b s (if c then p >>= f else q >>= f) R := by
  split
  · exact (hp ‹_›).bind hf
  · exact (hq ‹_›).bind hf

/-- What holds after one turn of a loop: the result if it ends, and else the invariant. -/
def Turn (inv Q : σ → State → Prop) : Loop σ → State → Prop
  | .stop value, s => Q value s
  | .next value, s => inv value s

/-- A loop keeps what each turn of it keeps. -/
theorem loop (inv : σ → State → Prop) {Q : σ → State → Prop} {init : σ}
    {body : σ → Parser (Loop σ)} (hinit : inv init s)
    (hframe : ∀ value s, inv value s → Frame b s)
    (hbody : ∀ value s, inv value s → Leads b s (body value) (Turn inv Q)) :
    Leads b s (Parser.loop init body) Q := by
  have hturns : ∀ fuel value s, inv value s → Leads b s (loopUpTo body fuel value) Q := by
    intro fuel
    induction fuel with
    | zero => exact fun value s h => .fail (hframe value s h)
    | succ fuel ih =>
      intro value s h
      refine (hbody value s h).bind fun turn s h => ?_
      cases turn with
      | stop value => exact .pure h
      | next value => exact ih value s h
  exact hturns _ init s hinit

/-- A loop whose invariant is all that is known when it ends. -/
theorem loop_bind (inv : σ → State → Prop) {init : σ} {body : σ → Parser (Loop σ)}
    {f : σ → Parser β} (hinit : inv init s) (hframe : ∀ value s, inv value s → Frame b s)
    (hbody : ∀ value s, inv value s → Leads b s (body value) (Turn inv inv))
    (hf : ∀ value s, inv value s → Leads b s (f value) R) :
    Leads b s (Parser.loop init body >>= f) R :=
  (loop inv hinit hframe hbody).bind hf

end Leads

/-- The nodes that a parser makes are those that `out` finds in its value; `m` tells that it moves
the cursor even without making any. -/
def Grows (p : Parser α) (m : Bool) (out : α → List NodeId) : Prop :=
  ∀ s, Leads s s p fun a s' => Grown s s' m (out a)

/-- A parser that makes one node. -/
abbrev GrowsNode (p : Parser NodeId) : Prop := Grows p false fun id => [id]

/-- A parser that makes no nodes. -/
abbrev GrowsNone (p : Parser α) (m : Bool) : Prop := Grows p m fun _ => []

/-- A parser that only looks at the state. -/
def Asks (p : Parser α) : Prop := ∀ s, ∃ a, p s = (.ok a, s)

theorem asks_ask (f : State → α) : Asks (ask f) := fun s => ⟨f s, rfl⟩

theorem asks_pure (a : α) : Asks (pure a) := fun _ => ⟨a, rfl⟩

theorem Asks.bind {p : Parser α} {f : α → Parser β} (hp : Asks p) (hf : ∀ a, Asks (f a)) :
    Asks (p >>= f) := by
  intro s
  obtain ⟨a, ha⟩ := hp s
  obtain ⟨c, hc⟩ := hf a s
  refine ⟨c, ?_⟩
  change Parser.bind p f s = _
  simp only [Parser.bind, ha, hc]

theorem Asks.grows {p : Parser α} (hp : Asks p) : GrowsNone p false := by
  intro s
  obtain ⟨a, ha⟩ := hp s
  simp only [Leads, ha]
  exact .refl s

theorem Leads.asks_bind {p : Parser α} {f : α → Parser β} {R : β → State → Prop} (hp : Asks p)
    (h : ∀ a, p s = (.ok a, s) → Leads b s (f a) R) : Leads b s (p >>= f) R := by
  obtain ⟨a, ha⟩ := hp s
  have hleads : Leads b s p fun a' s' => p s = (.ok a', s) ∧ s' = s := by
    simp only [Leads, ha, and_self]
  refine hleads.bind ?_
  rintro a' s' ⟨ha', rfl⟩
  exact h a' ha'

/-- Runs a parser after what was read so far; nodes that were there stay as they were. -/
theorem Growth.run_frame (h : Growth b s m ids held) {p : Parser α} {out : α → List NodeId}
    (hp : Grows p m' out) :
    Leads b s p fun a s' => Growth b s' (m || m') (ids ++ out a) held ∧ Frame s s' := by
  refine ((hp s).rebase h.frame).mono fun a s' h' => ⟨?_, h'.frame⟩
  exact (h.append h').weaken .inl (by simp)

/-- Runs a parser after what was read so far. -/
theorem Growth.run (h : Growth b s m ids held) {p : Parser α} {out : α → List NodeId}
    (hp : Grows p m' out) :
    Leads b s p fun a s' => Growth b s' (m || m') (ids ++ out a) held :=
  (h.run_frame hp).mono fun _ _ h => h.1

/-- Runs a parser and drops the nodes it makes. -/
theorem Growth.drop (h : Growth b s m ids held) {p : Parser α} {out : α → List NodeId}
    (hp : Grows p m' out) : Leads b s p fun _ s' => Growth b s' m ids held := by
  refine ((hp s).rebase h.frame).mono fun a s' h' => ?_
  simpa using h.append (.of_frame h'.frame)

/-- Runs a parser of which something is known only where it begins now. -/
theorem Growth.resume (h : Growth b s m ids held) {p : Parser α} {out : α → List NodeId}
    (hp : Leads s s p fun a s' => Grown s s' m' (out a)) :
    Leads b s p fun a s' => Growth b s' (m || m') (ids ++ out a) held := by
  refine (hp.rebase h.frame).mono fun a s' h' => ?_
  exact (h.append h').weaken .inl (by simp)

theorem Grows.of_leads {p : Parser α} {out : α → List NodeId}
    (h : ∀ s, Grown s s false [] → Leads s s p fun a s' => Grown s s' m (out a)) : Grows p m out :=
  fun s => h s (.refl s)

theorem Grows.congr {p : Parser α} {out out' : α → List NodeId} (h : Grows p m out)
    (hout : ∀ a, out a = out' a) : Grows p m out' := by
  intro s
  refine (h s).mono fun a s' hgrown => ?_
  rw [← hout]
  exact hgrown

end Parse
end ScriptLint
