import ScriptLint.Lint.ArrayLoop
import ScriptLint.Proofs.Lint.Operands

namespace ScriptLint

open Position (origin)
open Parse (Phrase Phrased Place)

variable {α β : Type} {limit : Nat} {operator : LogicalOperator} {P Q : Tree → NodeId → Prop}
  {Ps Qs : List (Tree → NodeId → Prop)} {i : NodeId} {e : Exchange}

/-- The operator that a condition may be a chain of. -/
def Strength.chained : Strength → LogicalOperator
  | .and => .and
  | .loose | .or | .tight => .or

/-- The text of a condition is read as a chain of what its strength says, or as one operand. -/
def Rendered.Written (limit : Nat) (r : Rendered) (P : Tree → NodeId → Prop)
    (Ps : List (Tree → NodeId → Prop)) : Prop :=
  match r.strength with
  | .loose => Ps = [] ∧ Phrase limit .expression r.text P
  | .or => Parse.Chain limit .or r.text P Ps
  | .and => Parse.Chain limit .and r.text P Ps
  | .tight => Ps = [] ∧ Phrase limit (.operands .bitwiseOr) r.text P

/-- In parentheses every condition is read. -/
theorem Rendered.Written.expression {r : Rendered} (h : r.Written (limit + 1) P Ps)
    (hlimit : limit < Parse.maxDepth) :
    Phrase limit .expression r.text (Ps.foldl (Parse.Joined r.strength.chained) P) := by
  obtain ⟨text, strength⟩ := r
  cases strength with
  | loose =>
    obtain ⟨rfl, h⟩ := h
    exact h.shallower (Nat.le_succ limit)
  | or => exact (Parse.Chain.phrase h).expression hlimit (by decide)
  | and => exact (Parse.Chain.phrase h).expression hlimit (by decide)
  | tight =>
    obtain ⟨rfl, h⟩ := h
    exact h.expression hlimit (by decide)

theorem Rendered.Written.shallower {r : Rendered} {limit' : Nat} (h : r.Written limit P Ps)
    (hlimit : limit' ≤ limit) : r.Written limit' P Ps := by
  obtain ⟨text, strength⟩ := r
  cases strength with
  | loose => exact ⟨h.1, h.2.shallower hlimit⟩
  | or => exact Parse.Chain.shallower h hlimit
  | and => exact Parse.Chain.shallower h hlimit
  | tight => exact ⟨h.1, h.2.shallower hlimit⟩

/-- How tightly a chain of an operator holds together. -/
def LogicalOperator.strength : LogicalOperator → Strength
  | .and => .and
  | .or => .or
  | .nullish => .loose

/-- What is read in the place of other chains says what they say. -/
structure Parse.Carries (operator operator' : LogicalOperator) (P : Tree → NodeId → Prop)
    (Ps : List (Tree → NodeId → Prop)) (Q : Tree → NodeId → Prop)
    (Qs : List (Tree → NodeId → Prop)) : Prop where
  lacking : ∀ name, (∀ R ∈ P :: Ps, Parse.Lacking name R) → ∀ R ∈ Q :: Qs, Parse.Lacking name R
  tells : ∀ (α β : Type) (m : Interpretation α β) (b : β), m.TellsAll operator P Ps b →
    m.TellsAll operator' Q Qs b

/-- A chain that is one operand of another one. -/
theorem Parse.Carries.single {operator operator' : LogicalOperator} (hoperator : operator ≠ .nullish) :
    Parse.Carries operator operator' P Ps (Ps.foldl (Parse.Joined operator) P) [] where
  lacking name h R hR := by
    rw [List.mem_singleton.mp hR]
    exact .foldl h operator
  tells α β m b h := ⟨b, [], h.tells hoperator, .nil, rfl⟩

/-- A chain in parentheses. -/
theorem Parse.Carries.group {operator operator' : LogicalOperator} (hoperator : operator ≠ .nullish) :
    Parse.Carries operator operator' P Ps (fun t i => ∃ inner,
      t.node i = .parenthesizedExpression inner ∧ Ps.foldl (Parse.Joined operator) P t inner) [] where
  lacking name h R hR := by
    rw [List.mem_singleton.mp hR]
    exact (Parse.Lacking.foldl h operator).group
  tells α β m b h := by
    refine ⟨b, [], ?_, .nil, rfl⟩
    rintro t i ⟨inner, hnode, hinner⟩
    exact .group hnode (h.tells hoperator _ _ hinner)

/-- How deep a condition is read that gets parentheses if it would not hold together without them. -/
def Rendered.within (r : Rendered) (floor : Strength) (limit : Nat) : Nat :=
  if r.strength.rank < floor.rank then limit + 2 else limit

/-- A condition is read as a chain of an operator, in parentheses if it needs them. -/
theorem Rendered.Written.exists_chain {r : Rendered}
    (h : r.Written (r.within operator.strength limit) P Ps) (hoperator : operator ≠ .nullish)
    (hlimit : limit + 1 < Parse.maxDepth) :
    ∃ Q Qs, Parse.Chain limit operator (r.atLeast operator.strength) Q Qs ∧
      Parse.Carries r.strength.chained operator P Ps Q Qs := by
  have hchained : r.strength.chained ≠ .nullish := by cases r.strength <;> decide
  by_cases hloose : r.strength.rank < operator.strength.rank
  · rw [Rendered.within, if_pos hloose] at h
    obtain ⟨inner, hphrase⟩ := h.expression hlimit
    rw [Rendered.atLeast, if_pos hloose]
    exact ⟨_, [], .one ⟨_, (hphrase.group (Nat.lt_of_succ_lt hlimit)).operands _⟩, .group hchained⟩
  · rw [Rendered.within, if_neg hloose] at h
    rw [Rendered.atLeast, if_neg hloose]
    obtain ⟨text, strength⟩ := r
    cases operator with
    | nullish => exact (hoperator rfl).elim
    | or =>
      cases strength with
      | loose => exact (hloose Nat.one_pos).elim
      | or => exact ⟨P, Ps, h, ⟨fun _ h => h, fun _ _ _ _ h => h⟩⟩
      | and => exact ⟨_, [], .one (Parse.Chain.phrase h), .single hchained⟩
      | tight =>
        obtain ⟨rfl, h⟩ := h
        exact ⟨P, [], .one (h.mono _ (by decide)), ⟨fun _ h => h, fun _ _ _ _ h => h⟩⟩
    | and =>
      cases strength with
      | loose => exact (hloose Nat.two_pos).elim
      | or => exact (hloose Nat.one_lt_two).elim
      | and => exact ⟨P, Ps, h, ⟨fun _ h => h, fun _ _ _ _ h => h⟩⟩
      | tight =>
        obtain ⟨rfl, h⟩ := h
        refine ⟨P, [], .one h, ⟨fun _ h => h, fun α β m b h => ?_⟩⟩
        obtain ⟨c, cs, hc, hcs, rfl⟩ := h
        cases hcs
        exact ⟨c, [], hc, .nil, rfl⟩

namespace Rendering

variable {r : Rendering} {room : Nat}

/-- The text of a node is read as a copy of it. If it is a chain of `&&` or `||`, each operand of it
is read as a copy. -/
def Affirms (r : Rendering) (room : Nat) (e : Exchange) (i : NodeId) : Prop :=
  ∃ text, r.render? i = some text ∧ match Strength.ofNode (r.document.tree.node i) with
  | .loose => Parse.Rereads room .expression text fun part root => r.document.tree.Copied e part i root
  | .or => r.document.tree.Spans e room .or i text
  | .and => r.document.tree.Spans e room .and i text
  | .tight => Parse.Rereads room (.operands .bitwiseOr) text fun part root =>
      r.document.tree.Copied e part i root

/-- The text of a condition is read as a chain of operands. None of them has a name that the tests
hold in exchanged nodes only, and together they say what is made of what the tests say. -/
def Conveys (r : Rendering) (e : Exchange) (limit : Nat) (tests : List NodeId) (rendered : Rendered)
    (say : ∀ {α β : Type}, Interpretation α β → (NodeId → β) → β) : Prop :=
  ∃ P Ps, rendered.Written limit P Ps ∧
    (∀ name, e.name ≠ name → (∀ i ∈ tests, ∀ j, r.document.tree.Kept e i j →
      r.document.tree.identifierName? j ≠ some name) → ∀ Q ∈ P :: Ps, Parse.Lacking name Q) ∧
    ∀ (α β : Type) (m : Interpretation α β), m.Respects e r.document.tree →
      ∀ tell : NodeId → β, (∀ i ∈ tests, r.document.tree.Holds m i (tell i)) →
        m.TellsAll rendered.strength.chained P Ps (say m tell)

variable (hoperands : ∀ j ∈ e.nodes, (r.document.tree.node j).isOperand = true)

include hoperands

omit hoperands in
/-- Two conditions with an operator between them, each in parentheses if it needs them. -/
theorem Conveys.join {tests tests' : List NodeId} {a b : Rendered} {mark : Punct}
    {spelling : List Char} {say say' : ∀ {α β : Type}, Interpretation α β → (NodeId → β) → β}
    (hoperator : operator ≠ .nullish)
    (hmark : (InfixOperator.logical operator).token = .punct mark)
    (hclosed : Closed spelling
      [(.punct mark, .between origin (origin.after spelling)), endToken spelling])
    (h : r.Conveys e (a.within operator.strength limit) tests a say)
    (h' : r.Conveys e (b.within operator.strength limit) tests' b say') (hlimit : limit + 1 < Parse.maxDepth) :
    r.Conveys e limit (tests ++ tests') ⟨a.atLeast operator.strength ++
      ([' '] ++ (spelling ++ [' ']) ++ b.atLeast operator.strength), operator.strength⟩
      fun m tell => m.join operator (say m tell) (say' m tell) := by
  obtain ⟨P, Ps, hwritten, hlacking, htells⟩ := h
  obtain ⟨Q, Qs, hwritten', hlacking', htells'⟩ := h'
  obtain ⟨P', Ps', hchain, hcarries⟩ := hwritten.exists_chain hoperator hlimit
  obtain ⟨Q', Qs', hchain', hcarries'⟩ := hwritten'.exists_chain hoperator hlimit
  have hjoined := hchain.append hchain' hmark hclosed
  have hchained : operator.strength.chained = operator := by
    cases operator with
    | nullish => exact (hoperator rfl).elim
    | _ => rfl
  refine ⟨P', Ps' ++ Q' :: Qs', ?_, fun name hname hfree R hR => ?_, fun α β m hm tell hholds => ?_⟩
  · cases operator with
    | nullish => exact (hoperator rfl).elim
    | _ => exact hjoined
  · have hfirst := hcarries.lacking name (hlacking name hname fun i hi =>
      hfree i (List.mem_append_left _ hi))
    have hsecond := hcarries'.lacking name (hlacking' name hname fun i hi =>
      hfree i (List.mem_append_right _ hi))
    rw [← List.cons_append, List.mem_append] at hR
    exact hR.elim (hfirst R) (hsecond R)
  · rw [hchained]
    exact (hcarries.tells α β m _ (htells α β m hm tell fun i hi =>
      hholds i (List.mem_append_left _ hi))).append (hcarries'.tells α β m _
        (htells' α β m hm tell fun i hi => hholds i (List.mem_append_right _ hi)))

end Rendering

namespace Condition

variable {γ : Type}

/-- The tests of a condition. -/
def tests : Condition γ → List γ
  | .test a => [a]
  | .orElse a rest | .unless a rest => a :: rest.tests

/-- The tests that have to fail. -/
def denied : Condition γ → List γ
  | .test _ => []
  | .orElse _ rest => rest.denied
  | .unless a rest => a :: rest.denied

/-- What a condition says, if this is what the tests say. -/
def tell (m : Interpretation α β) (said : γ → β) : Condition γ → β
  | .test a => said a
  | .orElse a rest => m.or (said a) (rest.tell m said)
  | .unless a rest => m.and (m.not (said a)) (rest.tell m said)

/-- With truth tables it is whether the condition holds. -/
theorem tell_boolean (value : Tree → NodeId → α) (truth : α → Bool)
    (strictlyEqual equal : α → α → Bool) (said : γ → Bool) (c : Condition γ) :
    c.tell (.boolean value truth strictlyEqual equal) said = c.eval said := by
  induction c with
  | test a => rfl
  | orElse a rest ih =>
    rw [tell, ih]
    rfl
  | «unless» a rest ih =>
    rw [tell, ih]
    rfl

end Condition

namespace Rendering

variable {r : Rendering} {room : Nat}
  (hoperands : ∀ j ∈ e.nodes, (r.document.tree.node j).isOperand = true)

end Rendering
end ScriptLint
