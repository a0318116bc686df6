import ScriptLint.Proofs.Parse.Conditional

namespace ScriptLint
namespace Parse

open ScriptLint.Parser

variable {g : Grammar} {s s' : State} {start : Span} {left e : NodeId} {pos pos' stop : Nat} {least floor : Precedence}
  {operator : InfixOperator} {P Q : Tree → NodeId → Prop} {p : Grammar → Parser NodeId}

/-- A type assertion after an operand. -/
def assertTail (g : Grammar) (start : Span) (left : NodeId) : Parser (Option NodeId) := do
  skip
  let type ← g.type
  return some (← finish start (.asExpression left type))

theorem infixTail?_apply (g : Grammar) (least : Precedence) (start : Span) (left : NodeId) (s : State) :
    infixTail? g least start left s =
      if s.current.isName "as" && !s.newlineBefore && decide (least.level ≤ Precedence.relational.level) then
        assertTail g start left s
      else joinTail? g least start left (InfixOperator.ofToken? s.allowIn s.current) s := by
  have has : checkName "as" s = (.ok (s.current.isName "as"), s) := rfl
  have hnewline : Parser.newlineBefore s = (.ok s.newlineBefore, s) := rfl
  have hallows : ask State.allowIn s = (.ok s.allowIn, s) := rfl
  have hcurrent : Parser.current s = (.ok s.current, s) := rfl
  rw [infixTail?, bind_of_ok has, bind_of_ok hnewline]
  split_ifs with h
  · rfl
  · rw [bind_of_ok hallows, bind_of_ok hcurrent]
    cases InfixOperator.ofToken? s.allowIn s.current <;> rfl

/-- Where nothing is joined, nothing is read. -/
theorem eq_of_infixTail?_none (h : infixTail? g least start left s = (.ok none, s')) : s' = s := by
  rw [infixTail?_apply] at h
  split_ifs at h
  · obtain ⟨_, s₁, -, h⟩ := exists_of_bind h
    obtain ⟨_, s₂, -, h⟩ := exists_of_bind h
    obtain ⟨_, s₃, -, h⟩ := exists_of_bind h
    cases h
  · cases hoperator : InfixOperator.ofToken? s.allowIn s.current with
    | none =>
      rw [hoperator] at h
      cases h
      rfl
    | some operator =>
      rw [hoperator, joinTail?] at h
      split_ifs at h
      · cases h
        rfl
      · obtain ⟨_, s₁, -, h⟩ := exists_of_bind h
        obtain ⟨_, s₂, -, h⟩ := exists_of_bind h
        obtain ⟨_, s₃, -, h⟩ := exists_of_bind h
        cases h

/-- What is joined is joined where looser operators are taken too. -/
theorem infixTail?_mono (h : infixTail? g least start left s = (.ok (some e), s'))
    (hle : floor.level ≤ least.level) : infixTail? g floor start left s = (.ok (some e), s') := by
  rw [infixTail?_apply] at h ⊢
  split_ifs at h with hassert
  · rw [if_pos, h]
    simp only [Bool.and_eq_true, decide_eq_true_eq] at hassert ⊢
    exact ⟨hassert.1, hle.trans hassert.2⟩
  · cases hoperator : InfixOperator.ofToken? s.allowIn s.current with
    | none =>
      rw [hoperator] at h
      cases h
    | some operator =>
      have hname : s.current.isName "as" = false := by
        rw [InfixOperator.eq_token_of_ofToken? hoperator]
        exact (EndsOperand.leavesName (.inr ⟨operator, rfl⟩)).isName "as"
      rw [hoperator, joinTail?] at h
      split_ifs at h with hlt
      · cases h
      · rw [hname, Bool.false_and, Bool.false_and, if_neg Bool.false_ne_true, joinTail?,
          if_neg (show ¬operator.level < floor.level by omega), h]

/-- Once it holds of nodes of a tree, it holds of them in each tree that has the same nodes and
more. -/
def Lasting {α : Type} (P : Tree → α → Prop) : Prop :=
  ∀ t t' i, P t i → t.size ≤ t'.size → (∀ j < t.size, t'.node j = t.node j) → P t' i

theorem Lasting.continues {α : Type} {P : Tree → α → Prop} (h : Lasting P) {t t' : Tree} {i : α}
    (hi : P t i) (hcontinues : t.Continues t') : P t' i :=
  h _ _ _ hi hcontinues.size_le fun _ => hcontinues.node_of_lt

/-- From one place of the tokens to another, a parser makes a node of which `P` holds. -/
def Makes (p : Grammar → Parser NodeId) (s : State) (pos pos' : Nat) (P : Tree → NodeId → Prop) :
    Prop :=
  ∀ k, (s.reading pos {}).reach ≤ k → ∀ tree, ∃ id tree',
    p (Grammar.upTo k) (s.reading pos tree) = (.ok id, s.reading pos' tree') ∧
      tree.Continues tree' ∧ P tree' id

/-- From one place of the tokens to another, `binary` gathers operands joined by operators of at
least a level, and may go on with more of them. What it gathers does not depend on how much looser
the operators are that it takes. -/
def Gathers (s : State) (least : Precedence) (pos pos' : Nat) (P : Tree → NodeId → Prop) : Prop :=
  ∀ k, (s.reading pos {}).reach ≤ k → ∀ tree, ∃ first pos₁ tree₁ turns id tree',
    unary (Grammar.upTo k) (s.reading pos tree) = (.ok first, s.reading pos₁ tree₁) ∧
      pos₁ + turns ≤ pos' ∧
      (∀ looser : Precedence, looser.level ≤ least.level → ∀ fuel,
        loopUpTo (turnBinary (Grammar.upTo k) looser (s.spanAt pos)) (fuel + turns) first
            (s.reading pos₁ tree₁) =
          loopUpTo (turnBinary (Grammar.upTo k) looser (s.spanAt pos)) fuel id
            (s.reading pos' tree')) ∧
      tree.Continues tree' ∧ P tree' id

theorem Makes.gathers (h : Makes unary s pos pos' P) (least : Precedence) :
    Gathers s least pos pos' P := by
  intro k hk tree
  obtain ⟨id, tree', hrun, hcontinues, hp⟩ := h k hk tree
  exact ⟨id, pos', tree', 0, id, tree', hrun, le_rfl, fun _ _ _ => rfl, hcontinues, hp⟩

theorem Gathers.mono (h : Gathers s least pos pos' P) (hle : floor.level ≤ least.level) :
    Gathers s floor pos pos' P := by
  intro k hk tree
  obtain ⟨first, pos₁, tree₁, turns, id, tree', hfirst, hturns, hloop, hrest⟩ := h k hk tree
  exact ⟨first, pos₁, tree₁, turns, id, tree', hfirst, hturns,
    fun _ hle' => hloop _ (hle'.trans hle), hrest⟩

/-- The loop of `binary` stops where no operator of at least a level stands. -/
structure Leaves (s : State) (pos : Nat) (least : Precedence) : Prop where
  allowIn : s.allowIn = true
  lt_size : pos < s.tokens.size
  isName : (s.tokenAt pos).isName "as" = false
  looser : ∀ operator, InfixOperator.ofToken? true (s.tokenAt pos) = some operator →
    operator.level < least.level

theorem Leaves.turnBinary (h : Leaves s pos least) (g : Grammar) (start : Span) (left : NodeId)
    (tree : Tree) : Parse.turnBinary g least start left (s.reading pos tree) =
      (.ok (.stop left), s.reading pos tree) := by
  cases hoperator : InfixOperator.ofToken? true (s.tokenAt pos) with
  | none => exact turnBinary_none h.allowIn h.isName hoperator
  | some operator =>
    exact turnBinary_looser h.allowIn (InfixOperator.ofToken?_eq_some_iff.mp hoperator)
      (h.looser operator hoperator)

/-- What is gathered is all that `binary` reads where it stops after it. -/
theorem Gathers.binary (h : Gathers s least pos pos' P) (hle : floor.level ≤ least.level)
    (hleaves : Leaves s pos' floor) : Makes (fun g => Parse.binary g floor) s pos pos' P := by
  intro k hk tree
  obtain ⟨first, pos₁, tree₁, turns, id, tree', hfirst, hturns, hloop, hcontinues, hp⟩ := h k hk tree
  refine ⟨id, tree', ?_, hcontinues, hp⟩
  obtain ⟨fuel, hfuel⟩ : ∃ fuel, 4 * s.tokens.size + 1 = fuel + 1 + turns :=
    ⟨4 * s.tokens.size - turns, by
      have := hleaves.lt_size
      omega⟩
  change (currentSpan >>= _) (s.reading pos tree) = _
  rw [bind_of_ok (currentSpan_apply _), bind_of_ok hfirst]
  change loopUpTo (Parse.turnBinary _ floor (s.spanAt pos)) (4 * s.tokens.size + 1) first
    (s.reading pos₁ tree₁) = _
  rw [hfuel, hloop _ hle, loopUpTo, bind_of_ok (hleaves.turnBinary _ _ _ _)]
  rfl

/-- After a token parsers are nested one level less. -/
theorem State.reach_reading_succ (h : pos < s.tokens.size) (tree tree' : Tree) :
    (s.reading (pos + 1) tree).reach + 1 ≤ (s.reading pos tree').reach := by
  have htotal : (s.reading pos tree').total mass =
      mass (s.tokenAt pos) + (s.reading (pos + 1) tree).total mass :=
    State.total_eq_add (s := s.reading pos tree') mass h
  have hmass := mass_pos (s.tokenAt pos)
  have hdepth : (s.reading (pos + 1) tree).depth = (s.reading pos tree').depth := rfl
  rw [State.reach, State.reach, htotal, hdepth]
  omega

theorem State.reach_reading_le (h : pos ≤ pos') (tree tree' : Tree) :
    (s.reading pos' tree).reach ≤ (s.reading pos tree').reach :=
  Nat.add_le_add_left (State.total_jump_le (s.reading pos tree') mass h) _

/-- What is gathered, an operator and its right operand. -/
theorem Gathers.join (h : Gathers s operator.precedence pos pos' P) (hallow : s.allowIn = true)
    (htoken : s.tokenAt pos' = operator.token) (hle : pos ≤ pos') (hsize : pos' + 1 < s.tokens.size)
    (hright : Makes (fun g => Parse.binary g operator.operandLevel) s (pos' + 1) stop Q)
    (hstop : pos' < stop) (hp : Lasting P) (hq : Lasting Q) :
    Gathers s operator.precedence pos stop fun t id => ∃ left right,
      t.node id = infixNode left right operator ∧ P t left ∧ Q t right := by
  intro k hk tree
  have hreach := State.reach_reading_succ (s := s) (show pos' < s.tokens.size by omega) {} {}
  have hreach' := State.reach_reading_le (s := s) hle {} {}
  obtain ⟨levels, rfl⟩ := Nat.exists_eq_add_one_of_ne_zero (show k ≠ 0 by omega)
  obtain ⟨first, pos₁, tree₁, turns, left, tree₂, hfirst, hturns, hloop, hcontinues, hleft⟩ :=
    h (levels + 1) hk tree
  obtain ⟨right, tree₃, hrun, hcontinues', hright⟩ := hright levels (by omega) tree₂
  have hturn : ∀ floor : Precedence, floor.level ≤ operator.level →
      turnBinary (Grammar.upTo (levels + 1)) floor (s.spanAt pos) left (s.reading pos' tree₂) =
        (.ok (.next tree₃.size), _) := fun floor hfloor =>
    turnBinary_next (s.spanAt pos) left hallow htoken hfloor hsize hrun
  let made := (tree₃.alloc (infixNode left right operator)
    (some ((s.reading stop tree₃).spanFrom (s.spanAt pos)))).2
  have hlast : tree₃.Continues made := .alloc (.refl _) _ _
  refine ⟨first, pos₁, tree₁, turns + 1, tree₃.size, made, hfirst, by omega, fun floor hfloor fuel => ?_,
    hcontinues.trans (hcontinues'.trans hlast), left, right, tree₃.node_alloc_self _ _,
    hp.continues hleft (hcontinues'.trans hlast), hq.continues hright hlast⟩
  rw [show fuel + (turns + 1) = fuel + 1 + turns by omega, hloop floor hfloor, loopUpTo,
    bind_of_ok (hturn floor hfloor)]

end Parse
end ScriptLint
