import ScriptLint.Proofs.Parse.Framing

namespace ScriptLint
namespace Parse

open ScriptLint.Parser

variable {α β : Type} {g : Grammar} {s s' : State}

/-- A parser that changes what was there before it only when it does not fail. -/
def KeepsOnError (p : Parser α) : Prop := ∀ s e s', p s = (.error e, s') → Kept s s'

theorem Keeps.onError {p : Parser α} (hp : Keeps p) : KeepsOnError p := by
  intro s e s' heq
  have hkept := hp s
  rwa [heq] at hkept

theorem Keeps.bind_onError {p : Parser α} {f : α → Parser β} (hp : Keeps p)
    (hf : ∀ a, KeepsOnError (f a)) : KeepsOnError (p >>= f) := by
  intro s e s' heq
  change Parser.bind p f s = _ at heq
  have hkept := hp s
  unfold Parser.bind at heq
  split at heq
  · next a s₁ hrun =>
    rw [hrun] at hkept
    exact hkept.trans (hf a s₁ e s' heq)
  · next e' s₁ hrun =>
    rw [hrun] at hkept
    cases heq
    exact hkept

/-- The annotation is parsed before the binding it is given to is touched. -/
theorem keepsOnError_annotate (hg : g.Sound) (target : NodeId) :
    KeepsOnError (annotate g target) := by
  unfold annotate
  refine (grows_eatIf _).keeps.bind_onError fun optional => ?_
  refine (grows_eatIf _).keeps.bind_onError fun definite => ?_
  refine (grows_typeAscription? hg).keeps.bind_onError fun ascription => ?_
  split
  · refine (Keeps.ask _).bind_onError fun node s e s' heq => ?_
    cases heq
  · exact (Keeps.pure _).onError

theorem Production.keepsOnError (hg : g.Sound) {p : Parser α} (hp : Production g p) :
    KeepsOnError p := by
  obtain hkeeps | ⟨target, ⟨⟩⟩ := hp.keeps_or_annotates hg
  · exact hkeeps.onError
  · exact keepsOnError_annotate hg target

theorem Remains.eq_of_uncut {a b : SpannedToken} (h : Remains a b)
    (ha : afterClosingAngle a.1 = none) : b = a := by
  induction h with
  | whole => rfl
  | cut _ hcut ih =>
    rw [← ih] at ha
    rw [ha] at hcut
    cases hcut

/-- Tokens that hold no closing angle before another mark remain whole. -/
theorem TokensRemain.eq_of_uncut {ts ts' : Array SpannedToken} (h : TokensRemain ts ts')
    (huncut : ∀ a ∈ ts, afterClosingAngle a.1 = none) : ts' = ts := by
  refine Array.ext_getElem? fun i => ?_
  cases ha : ts[i]? with
  | none =>
    rw [Array.getElem?_eq_none_iff] at ha ⊢
    rwa [h.size]
  | some a =>
    obtain ⟨b, hb, hremains⟩ := h.remains i a ha
    rw [hb, hremains.eq_of_uncut (huncut a (Array.mem_of_getElem? ha))]

/-- When a parser of the grammar fails under `attempt`, the cursor, the tree, the errors, the depth
and the meaning of `in` are those from before it; the tokens are only if none of them was cut. -/
theorem attempt_of_error {n : Nat} {p : Parser α} (hp : Production (Grammar.upTo n) p)
    {e : ParseError} (herror : p s = (.error e, s')) :
    attempt p s = (.ok none, { s with tokens := s'.tokens }) ∧
      TokensRemain s.tokens s'.tokens ∧
      ((attempt p s).2 = s ↔ s'.tokens = s.tokens) ∧
      ((∀ a ∈ s.tokens, afterClosingAngle a.1 = none) → (attempt p s).2 = s) := by
  have hkept := hp.keepsOnError (Grammar.sound_upTo n) s e s' herror
  have heq := attempt_eq hkept herror
  have hiff : (attempt p s).2 = s ↔ s'.tokens = s.tokens := by
    rw [heq]
    exact ⟨fun h => (congrArg State.tokens h :), fun h => by rw [h]⟩
  exact ⟨heq, hkept.tokens, hiff, fun h => hiff.mpr (hkept.tokens.eq_of_uncut h)⟩

private theorem exists_cut : ∃ s e s', Parse.start "<A<B>>x".toList = .ok s ∧
    arrowFunction (Grammar.upTo 8) s = (.error e, s') ∧
    (s.tokenAt 4).isPunct .greaterGreater = true ∧ (s'.tokenAt 4).isPunct .greater = true := by
  have hrun : (match Parse.start "<A<B>>x".toList with
      | .ok s =>
        match arrowFunction (Grammar.upTo 8) s with
        | (.error _, s') =>
          (s.tokenAt 4).isPunct .greaterGreater && (s'.tokenAt 4).isPunct .greater
        | (.ok _, _) => false
      | .error _ => false) = true := by decide +kernel
  split at hrun
  · next s hstart =>
    split at hrun
    · next e s' herror => exact ⟨s, e, s', hstart, herror, Bool.and_eq_true_iff.mp hrun⟩
    · cases hrun
  · cases hrun

/-- Two closing angles stay taken apart after a list of type parameters that no arrow follows. -/
theorem attempt_of_error_arrowFunction : ∃ s s' : State, Parse.start "<A<B>>x".toList = .ok s ∧
    attempt (arrowFunction (Grammar.upTo 8)) s = (.ok none, { s with tokens := s'.tokens }) ∧
    (s.tokenAt 4).isPunct .greaterGreater = true ∧ (s'.tokenAt 4).isPunct .greater = true := by
  obtain ⟨s, e, s', hstart, herror, hbefore, hafter⟩ := exists_cut
  exact ⟨s, s', hstart, (attempt_of_error .arrowFunction herror).1, hbefore, hafter⟩

/-- A speculative parse that fails does not always leave the state as it was: a closing angle that
it cut off a token stays cut off. -/
theorem not_attempt_restores : ¬∀ (n : Nat) (s s' : State) (e : ParseError),
    arrowFunction (Grammar.upTo n) s = (.error e, s') →
      (attempt (arrowFunction (Grammar.upTo n)) s).2 = s := by
  intro hrestores
  obtain ⟨s, e, s', -, herror, hbefore, hafter⟩ := exists_cut
  have hsame := hrestores 8 s s' e herror
  simp only [attempt, herror] at hsame
  have htoken : s'.tokenAt 4 = s.tokenAt 4 := by
    rw [← hsame]
    rfl
  rw [htoken] at hafter
  cases htoken : s.tokenAt 4 <;> simp_all [Token.isPunct]

end Parse
end ScriptLint
