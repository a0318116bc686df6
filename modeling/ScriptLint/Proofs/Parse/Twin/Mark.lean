import ScriptLint.Proofs.Parse.Twin.Passage
import Mathlib.Algebra.BigOperators.Intervals
import Mathlib.Algebra.Order.BigOperators.Group.Finset

namespace ScriptLint
namespace Parse

/-- The parts in which a token can be taken. -/
def pieces : Token → Nat
  | .punct .greaterGreater | .punct .greaterEqual => 2
  | .punct .greaterGreaterGreater | .punct .greaterGreaterEqual => 3
  | .punct .greaterGreaterGreaterEqual => 4
  | _ => 1

mutual

/-- The parts of a token and of all tokens inside it. -/
def mass : Token → Nat
  | .template parts => 1 + partsMass parts
  | t => pieces t

def partsMass : List TemplatePart → Nat
  | [] => 0
  | part :: parts => partMass part + partsMass parts

def partMass : TemplatePart → Nat
  | .quasi _ _ => 0
  | .substitution tokens => tokensMass tokens

def tokensMass : List (Token × Span) → Nat
  | [] => 0
  | (t, _) :: tokens => mass t + tokensMass tokens

end

theorem pieces_pos (t : Token) : 0 < pieces t := by
  unfold pieces
  split <;> decide

theorem pieces_le (t : Token) : pieces t ≤ 4 := by
  unfold pieces
  split <;> decide

theorem mass_eq_pieces {t : Token} (h : ∀ parts, t ≠ .template parts) : mass t = pieces t := by
  cases t with
  | template parts => exact absurd rfl (h parts)
  | _ => simp [mass]

theorem mass_pos (t : Token) : 0 < mass t := by
  cases t with
  | template parts =>
    simp only [mass]
    omega
  | _ =>
    rw [mass_eq_pieces (by simp)]
    exact pieces_pos _

theorem pieces_of_afterClosingAngle {t t' : Token} (h : afterClosingAngle t = some t') :
    pieces t = pieces t' + 1 ∧ mass t = mass t' + 1 := by
  unfold afterClosingAngle at h
  split at h <;> cases h <;> exact ⟨rfl, by simp [mass, pieces]⟩

theorem pieces_le_of_afterClosingAngle (t t' : Token) (h : afterClosingAngle t = some t') :
    pieces t' ≤ pieces t := by
  rw [(pieces_of_afterClosingAngle h).1]
  exact Nat.le_succ _

theorem mass_le_of_afterClosingAngle (t t' : Token) (h : afterClosingAngle t = some t') :
    mass t' ≤ mass t := by
  rw [(pieces_of_afterClosingAngle h).2]
  exact Nat.le_succ _

namespace State

variable {s : State}

/-- A measure of all tokens from the cursor on. -/
def total (s : State) (f : Token → Nat) : Nat :=
  ∑ i ∈ Finset.Ico s.pos s.tokens.size, f (s.tokenAt i)

/-- In how many steps the tokens can be taken. -/
def steps (s : State) : Nat := s.total pieces

/-- How deep parsers can be nested from here on. -/
def reach (s : State) : Nat := (maxDepth - s.depth) + s.total mass

theorem total_eq_add (f : Token → Nat) (h : s.pos < s.tokens.size) :
    s.total f = f s.current + { s with pos := s.pos + 1 }.total f :=
  Finset.sum_eq_sum_Ico_succ_bot h _

theorem le_total (f : Token → Nat) (h : s.pos < s.tokens.size) : f s.current ≤ s.total f := by
  rw [total_eq_add f h]
  exact Nat.le_add_right _ _

theorem steps_pos (h : s.pos < s.tokens.size) : 0 < s.steps :=
  (pieces_pos s.current).trans_le (le_total pieces h)

theorem reach_pos (h : s.pos < s.tokens.size) : 0 < s.reach :=
  (mass_pos s.current).trans_le ((le_total mass h).trans (Nat.le_add_left _ _))

theorem steps_le (s : State) : s.steps ≤ 4 * s.tokens.size := by
  have hsum : s.steps ≤ ∑ _i ∈ Finset.Ico s.pos s.tokens.size, 4 := by
    unfold steps total
    exact Finset.sum_le_sum fun i _ => pieces_le _
  rw [Finset.sum_const_nat fun _ _ => rfl, Nat.card_Ico] at hsum
  omega

theorem tokenAt_splitCurrent (s : State) (rest : Token) {i : Nat} (hi : i ≠ s.pos) :
    (s.splitCurrent rest).tokenAt i = s.tokenAt i := by
  simp [tokenAt, splitCurrent, Array.getElem?_modify, hi.symm]

theorem current_splitCurrent (h : s.pos < s.tokens.size) (rest : Token) :
    (s.splitCurrent rest).current = rest := by
  simp [current, tokenAt, splitCurrent, Array.getElem?_modify, Array.getElem?_eq_getElem h]

theorem total_splitCurrent (f : Token → Nat) (h : s.pos < s.tokens.size) (rest : Token) :
    (s.splitCurrent rest).total f = f rest + { s with pos := s.pos + 1 }.total f := by
  have hsize : (s.splitCurrent rest).tokens.size = s.tokens.size := by simp [splitCurrent]
  have hlt : (s.splitCurrent rest).pos < (s.splitCurrent rest).tokens.size := by
    rw [hsize]
    exact h
  rw [total_eq_add f hlt, current_splitCurrent h]
  congr 1
  simp only [total, hsize]
  refine Finset.sum_congr rfl fun i hi => ?_
  have hne : i ≠ s.pos := by
    have := (Finset.mem_Ico.mp hi).1
    intro heq
    subst heq
    exact absurd this (Nat.not_succ_le_self _)
  exact congrArg f (tokenAt_splitCurrent s rest hne)

/-- What remains of tokens weighs no more than they did. -/
theorem total_withTokens_le {f : Token → Nat}
    (hf : ∀ t t', afterClosingAngle t = some t' → f t' ≤ f t) (s : State)
    {tokens : Array SpannedToken} (h : TokensRemain s.tokens tokens) :
    { s with tokens }.total f ≤ s.total f := by
  simp only [total, h.size]
  refine Finset.sum_le_sum fun i _ => ?_
  cases hb : tokens[i]? with
  | none =>
    have ha : s.tokens[i]? = none := by
      rw [Array.getElem?_eq_none_iff] at hb ⊢
      rwa [← h.size]
    simp [tokenAt, ha, hb]
  | some b =>
    obtain ⟨a, ha, hremains⟩ := h.before hb
    simp only [tokenAt, ha, hb, Option.map_some, Option.getD_some]
    clear ha hb
    induction hremains with
    | whole => exact le_rfl
    | cut _ hcut ih => exact (hf _ _ hcut).trans ih

end State

/-- What is known of a state. -/
structure Mark where
  /-- How deep parsers can be nested at most. -/
  budget : Nat
  /-- In how many steps the tokens can be taken at most. -/
  steps : Nat
  /-- How many brackets are open. -/
  level : Nat
  /-- Whether a token of the passage was taken. -/
  moved : Bool
  /-- What else is known of the left state. -/
  known : State → Prop

namespace Mark

variable (w : Passage) (m : Mark)

structure Holds (s : State) : Prop where
  budget : s.reach ≤ m.budget
  steps : s.steps ≤ m.steps
  level : ∀ f ∈ w.level?, f s.pos = m.level
  moved : m.moved = true → 0 < s.pos
  known : m.known s

/-- The mark without what is known of the cursor. -/
def forget : Mark := { m with known := fun _ => True }

/-- The mark, where something else is known too. -/
def knowing (known : State → Prop) : Mark := { m with known := fun s => m.known s ∧ known s }

/-- The mark after a token that leaves `level` brackets open. -/
def after (level : Nat) : Mark := ⟨m.budget - 1, m.steps - 1, level, true, fun _ => True⟩

/-- The mark after a token. -/
def step : Mark := m.after m.level

/-- The mark after a token that may not have been there. -/
def stepIf (taken : Bool) : Mark := if taken then m.step else m.forget

/-- The mark after an opening bracket. -/
def opened : Mark := m.after (m.level + 1)

/-- The mark one level deeper. -/
def deeper : Mark := { m with budget := m.budget - 1, known := fun _ => True }

/-- The mark in a turn of a loop. -/
def turn (steps : Nat) : Mark := { m with steps, known := fun _ => True }

/-- The cursor is not at the end of a passage that goes on. -/
def Inside : Prop := w.goesOn = true → 0 < m.level

/-- No operator of at least a level stands after the passage where the cursor can be at its end. -/
def Clears (least : Precedence) : Prop :=
  w.goesOn = true → 0 < m.level ∨ w.ceiling ≤ least.level

/-- One mark tells what the other one does. -/
def Implies (n : Mark) : Prop := ∀ s, m.Holds w s → n.Holds w s

/-- A grammar of `k` levels is enough. -/
def Within (k : Nat) : Prop := m.budget ≤ k

variable {w m}

@[simp] theorem stepIf_true : m.stepIf true = m.step := rfl

@[simp] theorem stepIf_false : m.stepIf false = m.forget := rfl

theorem Implies.refl (m : Mark) : m.Implies w m := fun _ h => h

theorem implies_forget (m : Mark) : m.Implies w m.forget := fun _ h => { h with known := trivial }

theorem knowing_implies (known : State → Prop) : (m.knowing known).Implies w m := fun _ h =>
  { h with known := h.known.1 }

theorem step_implies (m : Mark) : m.step.Implies w m.forget := fun _ h =>
  ⟨h.budget.trans (Nat.sub_le _ _), h.steps.trans (Nat.sub_le _ _), h.level,
    fun _ => h.moved rfl, trivial⟩

theorem stepIf_implies (m : Mark) (taken : Bool) : (m.stepIf taken).Implies w m.forget := by
  cases taken with
  | false => exact .refl _
  | true => exact m.step_implies

theorem inside_opened (w : Passage) (m : Mark) : m.opened.Inside w := fun _ => Nat.succ_pos _

theorem Inside.clears (h : m.Inside w) (least : Precedence) : m.Clears w least :=
  fun hon => .inl (h hon)

theorem clears_opened (w : Passage) (m : Mark) (least : Precedence) : m.opened.Clears w least :=
  (m.inside_opened w).clears least

theorem Clears.mono {least most : Precedence} (h : m.Clears w least)
    (hle : least.level ≤ most.level) : m.Clears w most :=
  fun hon => (h hon).imp_right (Nat.le_trans · hle)

/-- No operator binds tighter than that of powers. -/
theorem level_le_exponentiation (least : Precedence) : least.level ≤ Precedence.exponentiation.level := by
  cases least <;> decide

theorem Clears.exponentiation {least : Precedence} (h : m.Clears w least) :
    m.Clears w .exponentiation :=
  h.mono (level_le_exponentiation least)

theorem Within.step {k : Nat} (h : m.Within k) : m.step.Within k := (Nat.sub_le _ _).trans h

theorem Within.opened {k : Nat} (h : m.Within k) : m.opened.Within k := (Nat.sub_le _ _).trans h

theorem Within.deeper {k : Nat} (h : m.Within (k + 1)) : m.deeper.Within k := Nat.sub_le_of_le_add h

/-- After a token there is room for a parser that is not one of the counted levels. -/
theorem Within.lt {k : Nat} (h : m.Within k) (hk : 0 < k) : m.step.budget < k := by
  have hle : m.budget ≤ k := h
  show m.budget - 1 < k
  omega

end Mark
end Parse
end ScriptLint
