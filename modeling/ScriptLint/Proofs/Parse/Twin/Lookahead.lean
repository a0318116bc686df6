import ScriptLint.Proofs.Parse.Twin.Primitive
import ScriptLint.Parse.Module

namespace ScriptLint
namespace Parse

open ScriptLint.Parser

variable {α β : Type} [Renumber α] {w : Passage} {m n : Mark} {N : α → Mark} {s : Side → State}

namespace Passage.Twin

theorem tokenAt_beyond (h : w.Twin s) (hclosed : w.goesOn = false) (heq : (s .left).pos = w.count)
    (i : Side) : (s i).tokens[(s i).pos + 1]? = none := by
  rw [Array.getElem?_eq_none_iff, h.pos i, heq]
  have hleft := h.tokens.size
  have hright := h.tokens.size_eq hclosed
  cases i <;> simp only [place_left, place_right] <;> omega

/-- What is asked of the next token has the same answer on both sides, unless the passage ends at
the current one and the right side goes on. -/
theorem apply_peek (h : w.Twin s) (hahead : w.goesOn = true → (s .left).pos < w.count)
    (f : Token → β) (htemplate : ∀ parts parts', f (.template parts) = f (.template parts'))
    (hstop : ∀ t, Ends t → f t = f .eof) : f (s .right).peek = f (s .left).peek := by
  rcases h.pos_le.lt_or_eq with hlt | heq
  · exact (h.reads_next hlt).apply f htemplate fun _ _ t ht => hstop t (.of_isStop ht)
  · cases hon : w.goesOn with
    | true => exact absurd (hahead hon) (by omega)
    | false =>
      simp only [State.peek, State.tokenAt, h.tokenAt_beyond hon heq]

theorem peek_alike (h : w.Twin s) (hahead : w.goesOn = true → (s .left).pos < w.count) (f : Token → β)
    (htemplate : ∀ parts parts', f (.template parts) = f (.template parts'))
    (hstop : ∀ t, Ends t → f t = f .eof) (i : Side) : f (s i).peek = f (s .left).peek := by
  cases i with
  | left => rfl
  | right => exact h.apply_peek hahead f htemplate hstop

/-- A question to the current and the next token, to which the end of a passage has one answer. -/
theorem apply_both (h : w.Twin s) (f : Token → Token → β) (d : β)
    (htemplate : ∀ parts u, f (.template parts) u = d) (hend : ∀ t u, Ends t → f t u = d)
    (htemplate' : ∀ t parts parts', f t (.template parts) = f t (.template parts'))
    (hend' : ∀ t u, Ends u → f t u = f t .eof) :
    f (s .right).current (s .right).peek = f (s .left).current (s .left).peek := by
  rcases h.pos_le.lt_or_eq with hlt | heq
  · have hcurrent : f (s .right).current = f (s .left).current := by
      refine h.reads_current.apply f (fun parts parts' => ?_) fun _ heq => absurd heq hlt.ne
      funext u
      rw [htemplate, htemplate]
    rw [hcurrent]
    exact h.apply_peek (fun _ => hlt) _ (htemplate' _) (hend' _)
  · have hends := h.reads_current.ends heq
    rw [hend _ _ (hends .left), hend _ _ (hends .right)]

/-- A line break after the current token. -/
theorem newlineAhead (h : w.Twin s) (hahead : w.goesOn = true → (s .left).pos < w.count) :
    (s .right).newlineBeforeAt ((s .right).pos + 1) =
      (s .left).newlineBeforeAt ((s .left).pos + 1) := by
  rcases h.pos_le.lt_or_eq with hlt | heq
  · exact h.newlineAfter hlt
  · cases hon : w.goesOn with
    | true => exact absurd (hahead hon) (by omega)
    | false =>
      have hnone : ∀ i, (s i).newlineBeforeAt ((s i).pos + 1) = false := fun i => by
        simp only [State.newlineBeforeAt, h.tokenAt_beyond hon heq]
        cases (s i).tokens[(s i).pos]? <;> rfl
      rw [hnone, hnone]

end Passage.Twin

namespace State

/-- The place of the token that closes one of `depth` brackets, from a place on. -/
def closeAt (s : State) (p depth : Nat) : Option Nat := closeFrom (s.tokens.toList.drop p) p depth

theorem closeAt_eq (s : State) {p : Nat} (depth : Nat) {a : SpannedToken}
    (ha : s.tokens[p]? = some a) :
    s.closeAt p depth =
      if a.1.isEof then none
      else if opensBracket a.1 then s.closeAt (p + 1) (depth + 1)
      else if closesBracket a.1 then
        if depth ≤ 1 then some p else s.closeAt (p + 1) (depth - 1)
      else s.closeAt (p + 1) depth := by
  obtain ⟨hlt, rfl⟩ := Array.getElem?_eq_some_iff.mp ha
  have hdrop : s.tokens.toList.drop p = s.tokens[p] :: s.tokens.toList.drop (p + 1) := by
    rw [List.drop_eq_getElem_cons (by simpa using hlt), Array.getElem_toList]
  rw [closeAt, hdrop, closeFrom]
  rfl

/-- The bracket at a place is closed where its depth is left. -/
theorem matchingClose_eq (s : State) {p : Nat} {a : SpannedToken} (ha : s.tokens[p]? = some a)
    (hopens : opensBracket a.1 = true) : s.matchingClose p = s.closeAt (p + 1) 1 := by
  have heof : a.1.isEof = false := by
    cases h : a.1 <;> simp_all [opensBracket, Token.isEof]
  have heq := s.closeAt_eq 0 ha
  simp only [heof, hopens, if_true, Bool.false_eq_true, if_false] at heq
  exact heq

end State

theorem bracketStep_of_opens {t : Token} (h : State.opensBracket t = true) : bracketStep t = 1 := by
  simp [bracketStep, h]

/-- A bracket that is open at a place of the passage is closed inside it, on both sides at the same
place. -/
theorem Passage.Twin.closeAt (h : w.Twin s) {p depth : Nat} (hp : p ≤ w.count) (hdepth : 0 < depth)
    (hlevel : w.goesOn = true → ∀ f ∈ w.level?, (depth : Int) ≤ f p) :
    (s .right).closeAt (w.offset + p) depth = ((s .left).closeAt p depth).map (w.offset + ·) ∧
      ∀ c, (s .left).closeAt p depth = some c →
        p ≤ c ∧ c < w.count ∧ ∀ f ∈ w.level?, f (c + 1) = f p - depth := by
  obtain ⟨a, ha, hreads⟩ := h.tokens.reads p hp
  have hleft := (s .left).closeAt_eq depth (ha .left)
  have hright := (s .right).closeAt_eq depth (ha .right)
  simp only [place_left, place_right] at hleft hright
  rw [hleft, hright]
  cases hreads with
  | ending heq heof hstop =>
    split at hstop
    · next hon =>
      obtain ⟨f, hf, hend⟩ := h.tokens.level_end hon
      have hle := hlevel hon f hf
      rw [heq, hend] at hle
      omega
    · simp [heof, hstop, Token.isEof]
  | token hlt htwin heof =>
    have hsame : (a .right).1.isEof = (a .left).1.isEof ∧
        State.opensBracket (a .right).1 = State.opensBracket (a .left).1 ∧
        State.closesBracket (a .right).1 = State.closesBracket (a .left).1 := by
      generalize (a .left).1 = t, (a .right).1 = t' at htwin
      cases htwin <;> exact ⟨rfl, rfl, rfl⟩
    obtain ⟨heof', hopens, hcloses⟩ := hsame
    have hstep := fun f hf => h.tokens.level f hf p hlt (a .left) (ha .left)
    rw [heof', hopens, hcloses, heof]
    simp only [Bool.false_eq_true, if_false, Nat.add_assoc]
    -- each branch leaves the depth that the brackets of the token make
    have hrest : ∀ d : Nat, 0 < d → (d : Int) = depth + bracketStep (a .left).1 →
        (s .right).closeAt (w.offset + (p + 1)) d =
            ((s .left).closeAt (p + 1) d).map (w.offset + ·) ∧
          ∀ c, (s .left).closeAt (p + 1) d = some c →
            p ≤ c ∧ c < w.count ∧ ∀ f ∈ w.level?, f (c + 1) = f p - depth := by
      intro d hd heq
      have hnext := h.closeAt (p := p + 1) hlt hd fun hon f hf => by
        have hle := hlevel hon f hf
        rw [hstep f hf]
        omega
      refine ⟨hnext.1, fun c hc => ?_⟩
      obtain ⟨hle, hcount, hend⟩ := hnext.2 c hc
      refine ⟨by omega, hcount, fun f hf => ?_⟩
      rw [hend f hf, hstep f hf]
      omega
    by_cases ho : State.opensBracket (a .left).1 = true
    · simp only [if_pos ho]
      exact hrest (depth + 1) (by omega) (by simp [bracketStep, ho])
    by_cases hc : State.closesBracket (a .left).1 = true
    · have hminus : bracketStep (a .left).1 = -1 := by simp [bracketStep, ho, hc]
      simp only [if_neg ho, if_pos hc]
      split
      · refine ⟨rfl, ?_⟩
        rintro c ⟨⟩
        refine ⟨le_rfl, hlt, fun f hf => ?_⟩
        rw [hstep f hf, hminus]
        omega
      · exact hrest (depth - 1) (by omega) (by omega)
    · simp only [if_neg ho, if_neg hc]
      exact hrest depth hdepth (by simp [bracketStep, ho, hc])
termination_by w.count - p

theorem Passage.Twin.matchingClose (h : w.Twin s) {p : Nat} (hp : p < w.count)
    (hopens : State.opensBracket ((s .left).tokenAt p) = true)
    (hlevel : ∀ f ∈ w.level?, 0 ≤ f p) :
    (s .right).matchingClose (w.offset + p) = ((s .left).matchingClose p).map (w.offset + ·) ∧
      ∀ c, (s .left).matchingClose p = some c →
        p < c ∧ c < w.count ∧ ∀ f ∈ w.level?, f (c + 1) = f p := by
  obtain ⟨a, ha, hreads⟩ := h.tokens.reads p hp.le
  have haleft := ha .left
  simp only [place_left] at haleft
  have htoken : (s .left).tokenAt p = (a .left).1 := by simp [State.tokenAt, haleft]
  rw [htoken] at hopens
  have hopens' : State.opensBracket (a .right).1 = true := by
    rw [← hopens]
    exact hreads.apply State.opensBracket (fun _ _ => rfl) fun _ heq => absurd heq hp.ne
  have hstep : ∀ f ∈ w.level?, f (p + 1) = f p + 1 := fun f hf => by
    rw [h.tokens.level f hf p hp (a .left) haleft, bracketStep_of_opens hopens]
  have hclose := h.closeAt (p := p + 1) hp Nat.one_pos fun _ f hf => by
    have hnonneg := hlevel f hf
    rw [hstep f hf]
    omega
  have haright := ha .right
  simp only [place_right] at haright
  rw [State.matchingClose_eq _ haleft hopens, State.matchingClose_eq _ haright hopens']
  refine ⟨hclose.1, fun c hc => ?_⟩
  obtain ⟨hle, hcount, hend⟩ := hclose.2 c hc
  refine ⟨hle, hcount, fun f hf => ?_⟩
  rw [hend f hf, hstep f hf]
  omega

/-- What follows the bracket that closes another one. -/
theorem Passage.Twin.afterClose (h : w.Twin s) {p : Nat} (hp : p < w.count)
    (hopens : State.opensBracket ((s .left).tokenAt p) = true)
    (hlevel : ∀ f ∈ w.level?, 0 ≤ f p) (f : Token → β) (d : β)
    (htemplate : ∀ parts parts', f (.template parts) = f (.template parts'))
    (hend : ∀ t, Ends t → f t = f .eof) :
    (((s .right).matchingClose (w.offset + p)).elim d fun c => f ((s .right).tokenAt (c + 1))) =
      ((s .left).matchingClose p).elim d fun c => f ((s .left).tokenAt (c + 1)) := by
  obtain ⟨hright, hinside⟩ := h.matchingClose hp hopens hlevel
  rw [hright]
  cases hc : (s .left).matchingClose p with
  | none => rfl
  | some c =>
    have hreads := h.reads (p := c + 1) (hinside c hc).2.1
    exact hreads.apply f htemplate fun _ _ t ht => hend t (.of_isStop ht)

/-- The guess from the token after a closing parenthesis. -/
def guessBy : Token → ArrowGuess
  | .punct .arrow => .yes
  | .punct .colon => .maybe
  | _ => .no

theorem guessAfterParen_eq (s : State) (p : Nat) :
    guessAfterParen s p = (s.matchingClose p).elim .no fun c => guessBy (s.tokenAt (c + 1)) := by
  unfold guessAfterParen
  cases s.matchingClose p <;> rfl

/-- The guess from the token at which parameters would begin. -/
def guessAt (s : State) (p : Nat) : ArrowGuess :=
  match s.tokenAt p with
  | .identifier _ => if (s.tokenAt (p + 1)).isPunct .arrow then .yes else .no
  | .punct .leftParen => guessAfterParen s p
  | .punct .less => .maybe
  | _ => .no

theorem Passage.Twin.guessAt (h : w.Twin s) {p : Nat} (hp : p ≤ w.count)
    (hlevel : ∀ f ∈ w.level?, 0 ≤ f p) :
    Parse.guessAt (s .right) (w.offset + p) = Parse.guessAt (s .left) p := by
  unfold Parse.guessAt
  cases h.reads hp with
  | ending heq hleft hright =>
    have hends : Ends ((s .right).tokenAt (w.offset + p)) := (h.reads hp).ends heq .right
    simp only [place_left] at hleft
    rw [hleft]
    generalize (s .right).tokenAt (w.offset + p) = t at hends
    cases hends <;> rfl
  | token hlt htwin _ =>
    simp only [place_left, place_right] at htwin
    generalize hleft : (s .left).tokenAt p = t, hright : (s .right).tokenAt (w.offset + p) = t'
      at htwin
    cases htwin with
    | template => rfl
    | same =>
      cases t with
      | identifier name =>
        have hnext := h.reads (p := p + 1) hlt
        have harrow := hnext.apply (·.isPunct .arrow) (fun _ _ => rfl)
          fun _ _ t ht => isPunct_of_isStop ht rfl
        simp only [place_left, place_right, ← Nat.add_assoc] at harrow
        simp only [harrow]
      | punct mark =>
        cases mark with
        | leftParen =>
          simp only [guessAfterParen_eq]
          refine h.afterClose hlt ?_ hlevel guessBy .no (fun _ _ => rfl) ?_
          · rw [hleft]
            rfl
          · rintro _ ⟨⟩ <;> rfl
        | _ => rfl
      | _ => rfl

/-- A token with which the parameters of an arrow function may begin. -/
def startsParams : Token → Bool
  | .identifier _ | .punct .leftParen => true
  | _ => false

/-- The word `async` stands here, for an arrow function. -/
def isAsync (s : State) : Bool :=
  s.current.isName "async" && !s.newlineBeforeAt (s.pos + 1) && startsParams s.peek

/-- Both sides take the beginning of the same expressions for an arrow function. -/
theorem Passage.Twin.arrowGuess (h : w.Twin s) (hm : m.Holds w (s .left)) :
    Parse.arrowGuess (s .right) = Parse.arrowGuess (s .left) := by
  have heq : ∀ s : State, Parse.arrowGuess s =
      Parse.guessAt s (if isAsync s then s.pos + 1 else s.pos) := fun _ => rfl
  have hlevel : ∀ f ∈ w.level?, 0 ≤ f (s .left).pos := fun f hf => by
    rw [hm.level f hf]
    exact Int.natCast_nonneg _
  have hpos := h.pos .right
  simp only [place_right] at hpos
  have hname : (s .right).current.isName "async" = (s .left).current.isName "async" :=
    h.reads_current.apply (·.isName "async") (fun _ _ => rfl) fun _ _ t ht => by
      obtain ⟨mark, rfl⟩ := eq_punct_of_isStop ht
      rfl
  rw [heq, heq]
  by_cases hasync : (s .left).current.isName "async" = true
  · have hcurrent := eq_of_isName hasync
    have hlt : (s .left).pos < w.count := h.lt_count (by rw [hcurrent]; rfl)
    have hsame : isAsync (s .right) = isAsync (s .left) := by
      simp only [isAsync, hname, h.newlineAfter hlt]
      congr 1
      exact h.apply_peek (fun _ => hlt) startsParams (fun _ _ => rfl) (by rintro _ ⟨⟩ <;> rfl)
    rw [hsame]
    split
    · rw [hpos, Nat.add_assoc]
      refine h.guessAt hlt fun f hf => ?_
      obtain ⟨a, ha, -⟩ := h.tokens.reads _ h.pos_le
      have hget := ha .left
      simp only [place_left] at hget
      have htoken : a .left = ((s .left).current, (a .left).2) := by
        simp [State.current, State.tokenAt, hget]
      rw [h.tokens.level f hf _ hlt (a .left) hget, htoken, hcurrent]
      exact Int.le_trans (hlevel f hf) (Int.le_of_eq (Int.add_zero _).symm)
    · rw [hpos]
      exact h.guessAt h.pos_le hlevel
  · have hplain : ∀ i, isAsync (s i) = false := fun i => by
      have hnot : (s i).current.isName "async" = false := by
        cases i with
        | left => simpa using hasync
        | right => rw [hname]; simpa using hasync
      simp only [isAsync, hnot, Bool.false_and]
    simp only [hplain, Bool.false_eq_true, if_false, hpos]
    exact h.guessAt h.pos_le hlevel

end Parse
end ScriptLint
