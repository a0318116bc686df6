import ScriptLint.Parse.Precedence
import Mathlib.Data.List.TakeWhile
import Mathlib.Order.Nat
import Mathlib.Tactic.SplitIfs

namespace ScriptLint

namespace Precedence

theorem level_injective {a b : Precedence} (h : a.level = b.level) : a = b := by
  cases a <;> cases b <;> first | rfl | cases h

end Precedence

namespace InfixOperator

def level (operator : InfixOperator) : Nat := operator.precedence.level

/-- The token that an operator is. -/
def token : InfixOperator → Token
  | .logical .nullish => .punct .questionQuestion
  | .logical .or => .punct .pipePipe
  | .logical .and => .punct .ampAmp
  | .binary .bitOr => .punct .pipe
  | .binary .bitXor => .punct .caret
  | .binary .bitAnd => .punct .amp
  | .binary .equal => .punct .equalEqual
  | .binary .notEqual => .punct .bangEqual
  | .binary .strictEqual => .punct .equalEqualEqual
  | .binary .strictNotEqual => .punct .bangEqualEqual
  | .binary .less => .punct .less
  | .binary .lessEqual => .punct .lessEqual
  | .binary .greater => .punct .greater
  | .binary .greaterEqual => .punct .greaterEqual
  | .binary .isIn => .keyword .inWord
  | .binary .instanceOf => .keyword .instanceofWord
  | .binary .shiftLeft => .punct .lessLess
  | .binary .shiftRight => .punct .greaterGreater
  | .binary .unsignedShiftRight => .punct .greaterGreaterGreater
  | .binary .add => .punct .plus
  | .binary .subtract => .punct .minus
  | .binary .multiply => .punct .star
  | .binary .divide => .punct .slash
  | .binary .remainder => .punct .percent
  | .binary .exponent => .punct .starStar

/-- The tokens that are operators are the tokens of the operators. -/
theorem ofToken?_eq_some_iff {t : Token} {operator : InfixOperator} :
    ofToken? true t = some operator ↔ t = operator.token := by
  constructor
  · intro h
    unfold ofToken? at h
    split at h
    · split at h <;> cases h <;> rfl
    · cases h; rfl
    · cases h; rfl
    · cases h
  · rintro rfl
    rcases operator with operator | operator <;> cases operator <;> rfl

theorem eq_token_of_ofToken? {allowIn : Bool} {t : Token} {operator : InfixOperator}
    (h : ofToken? allowIn t = some operator) : t = operator.token := by
  refine ofToken?_eq_some_iff.mp ?_
  unfold ofToken? at h ⊢
  split at h
  · exact h
  · exact h
  · split_ifs at h
    exact h
  · cases h

theorem level_pos (operator : InfixOperator) : 1 ≤ operator.level := by
  rcases operator with operator | operator <;> cases operator <;> decide

theorem level_le_operandLevel (operator : InfixOperator) :
    operator.level ≤ operator.operandLevel.level := by
  rcases operator with operator | operator <;> cases operator <;> decide

theorem level_lt_operandLevel {operator : InfixOperator}
    (h : operator.precedence ≠ .exponentiation) : operator.level < operator.operandLevel.level := by
  rcases operator with operator | operator <;> cases operator <;>
    first | decide | exact absurd rfl h

/-- An operator that stands after a right operand. -/
theorem level_le_of_lt_operandLevel {operator next : InfixOperator}
    (h : next.level < operator.operandLevel.level) :
    next.level ≤ operator.level ∧ next.precedence ≠ .exponentiation := by
  have hlevels : operator.operandLevel.level ≤ operator.level + 1 ∧
      operator.operandLevel.level ≤ Precedence.exponentiation.level := by
    rcases operator with operator | operator <;> cases operator <;> decide
  refine ⟨by omega, fun hexponent => ?_⟩
  rw [level, hexponent] at h
  omega

end InfixOperator

/-- Names joined by operators, as a tree. -/
inductive InfixTree where
  | name (name : String)
  | join (operator : InfixOperator) (left right : InfixTree)

/-- An operator between others is where they are split: it is of the lowest level there is, and the
last of this level or, for exponentiation, the first. -/
structure SplitsAt (before : List (InfixOperator × String)) (operator : InfixOperator)
    (after : List (InfixOperator × String)) : Prop where
  lowest : ∀ p ∈ before ++ after, operator.level ≤ p.1.level
  outermost : ∀ p ∈ if operator.precedence = .exponentiation then before else after,
    p.1.level ≠ operator.level

/-- How a name, and operators with a name after each, group. -/
inductive Groups : String → List (InfixOperator × String) → InfixTree → Prop
  | name {x} : Groups x [] (.name x)
  | join {x y operator before after left right} : SplitsAt before operator after →
      Groups x before left → Groups y after right →
      Groups x (before ++ (operator, y) :: after) (.join operator left right)

variable {x y y' : String} {operator operator' : InfixOperator}
  {before after before' after' between done todo rest : List (InfixOperator × String)}
  {left right tree tree' : InfixTree}

/-- Names are not split at two places. -/
theorem SplitsAt.not_later (h : SplitsAt before operator (between ++ (operator', y') :: after'))
    (h' : SplitsAt (before ++ (operator, y) :: between) operator' after') : False := by
  have hlevel : operator.level = operator'.level :=
    Nat.le_antisymm (h.lowest (operator', y') (by simp)) (h'.lowest (operator, y) (by simp))
  have hlast := h.outermost
  have hlast' := h'.outermost
  rw [← Precedence.level_injective hlevel] at hlast'
  split_ifs at hlast hlast'
  · exact hlast' (operator, y) (by simp) hlevel
  · exact hlast (operator', y') (by simp) hlevel.symm

theorem SplitsAt.unique (h : SplitsAt before operator after)
    (h' : SplitsAt before' operator' after')
    (heq : before ++ (operator, y) :: after = before' ++ (operator', y') :: after') :
    before = before' ∧ (operator, y) = (operator', y') ∧ after = after' := by
  rcases List.append_eq_append_iff.mp heq with
    ⟨between, hbefore, hafter⟩ | ⟨between, hbefore, hafter⟩
  · rcases between with - | ⟨p, between⟩
    · obtain ⟨hpair, htail⟩ := List.cons.inj hafter
      exact ⟨by simpa using hbefore.symm, hpair, htail⟩
    · obtain ⟨rfl, rfl⟩ := List.cons.inj hafter
      subst hbefore
      exact (h.not_later h').elim
  · rcases between with - | ⟨p, between⟩
    · obtain ⟨hpair, htail⟩ := List.cons.inj hafter
      exact ⟨by simpa using hbefore, hpair.symm, htail.symm⟩
    · obtain ⟨rfl, rfl⟩ := List.cons.inj hafter
      subst hbefore
      exact (h'.not_later h).elim

theorem Groups.unique (h : Groups x rest tree) (h' : Groups x rest tree') : tree = tree' := by
  induction h generalizing tree' with
  | name =>
    generalize hrest : ([] : List (InfixOperator × String)) = rest at h'
    cases h' with
    | name => rfl
    | join => simp at hrest
  | @join x y operator before after _ _ hsplits _ _ ihleft ihright =>
    generalize hrest : before ++ (operator, y) :: after = rest at h'
    cases h' with
    | name => simp at hrest
    | join hsplits' hleft hright =>
      obtain ⟨rfl, hpair, rfl⟩ := hsplits.unique hsplits' hrest
      cases hpair
      rw [ihleft hleft, ihright hright]

/-- What is grouped so far can be the left operand of the next operator. -/
def Frontier (done todo : List (InfixOperator × String)) : Prop :=
  ∀ p ∈ todo.head?, (∀ q ∈ done, p.1.level ≤ q.1.level) ∧
    (p.1.precedence = .exponentiation → done = [])

theorem frontier_nil (todo : List (InfixOperator × String)) : Frontier [] todo :=
  fun _ _ => ⟨nofun, fun _ => rfl⟩

/-- The operator is of at least a level. -/
def Precedence.admits (least : Precedence) (p : InfixOperator × String) : Bool :=
  least.level ≤ p.1.level

theorem le_level_of_mem_takeWhile {least : Precedence} {p : InfixOperator × String}
    (h : p ∈ todo.takeWhile least.admits) : least.level ≤ p.1.level :=
  of_decide_eq_true (show least.admits p = true from List.mem_takeWhile_imp h)

/-- The next operator is split off from what is grouped so far and its right operand. -/
theorem Frontier.splitsAt (h : Frontier done ((operator, y) :: todo)) :
    SplitsAt done operator (todo.takeWhile operator.operandLevel.admits) := by
  obtain ⟨hdone, hfirst⟩ := h _ rfl
  constructor
  · intro p hp
    rcases List.mem_append.mp hp with hp | hp
    · exact hdone p hp
    · exact operator.level_le_operandLevel.trans (le_level_of_mem_takeWhile hp)
  · intro p hp
    split_ifs at hp with hexponent
    · rw [hfirst hexponent] at hp
      cases hp
    · exact ((InfixOperator.level_lt_operandLevel hexponent).trans_le
        (le_level_of_mem_takeWhile hp)).ne'

/-- All of these together can be the left operand of the operator after them. -/
theorem Frontier.next (h : Frontier done ((operator, y) :: todo)) :
    Frontier (done ++ (operator, y) :: todo.takeWhile operator.operandLevel.admits)
      (todo.dropWhile operator.operandLevel.admits) := by
  intro p hp
  have hlt : p.1.level < operator.operandLevel.level := by
    have hstops := List.head?_dropWhile_not operator.operandLevel.admits todo
    rw [Option.mem_def.mp hp] at hstops
    simpa [Precedence.admits] using hstops
  obtain ⟨hle, hexponent⟩ := InfixOperator.level_le_of_lt_operandLevel hlt
  refine ⟨fun q hq => ?_, fun h => absurd h hexponent⟩
  rcases List.mem_append.mp hq with hq | hq
  · exact hle.trans ((h _ rfl).1 q hq)
  · rcases List.mem_cons.mp hq with rfl | hq
    · exact hle
    · exact hlt.le.trans (le_level_of_mem_takeWhile hq)

/-- What is of at least a level is an operator, what its right operand takes, and what is of this
level after that. -/
theorem takeWhile_admits_cons {least : Precedence} (h : least.level ≤ operator.level) :
    ((operator, y) :: todo).takeWhile least.admits =
      (operator, y) :: todo.takeWhile operator.operandLevel.admits ++
        (todo.dropWhile operator.operandLevel.admits).takeWhile least.admits := by
  have hadmits : least.admits (operator, y) = true := decide_eq_true h
  rw [List.takeWhile_cons_of_pos hadmits, List.cons_append]
  congr 1
  induction todo with
  | nil => rfl
  | cons p todo ih =>
    cases hp : operator.operandLevel.admits p with
    | false => simp [hp]
    | true =>
      have hp' : least.admits p = true :=
        decide_eq_true (h.trans (operator.level_le_operandLevel.trans (of_decide_eq_true hp)))
      simpa [hp, hp'] using ih

end ScriptLint
