import ScriptLint.Proofs.Parse.Later

namespace ScriptLint
namespace Parse

open ScriptLint.Parser

variable {α β σ : Type} {g : Grammar} {s s' : State}

/-- What every turn of a loop keeps holds where the loop ends. -/
theorem of_loop {P : σ → State → Prop} {body : σ → Parser (Loop σ)} {init value : σ}
    (hinit : P init s) (hstop : ∀ v s v' s', P v s → body v s = (.ok (.stop v'), s') → P v' s')
    (hnext : ∀ v s v' s', P v s → body v s = (.ok (.next v'), s') → P v' s')
    (hrun : Parser.loop init body s = (.ok value, s')) : P value s' := by
  have hturns : ∀ fuel v s, P v s → loopUpTo body fuel v s = (.ok value, s') → P value s' := by
    intro fuel
    induction fuel with
    | zero =>
      intro v s _ hrun
      cases (Prod.mk.inj hrun).1
    | succ fuel ih =>
      intro v s hv hrun
      obtain ⟨turn, s₁, hbody, hrun⟩ := exists_of_bind hrun
      cases turn with
      | stop v' =>
        obtain ⟨rfl, rfl⟩ := eq_of_pure hrun
        exact hstop v s v' s₁ hv hbody
      | next v' => exact ih v' s₁ (hnext v s v' s₁ hv hbody) hrun
  exact hturns _ init s hinit hrun

/-- A parser that moves does so when it gives a value. -/
theorem pos_lt_of_grows {p : Parser α} {out : α → List NodeId} {m : Bool} {a : α}
    (h : Grows p m out)
    (hs : s.Ready) (hrun : p s = (.ok a, s')) (hmoves : m = true ∨ out a ≠ []) :
    s.pos < s'.pos := by
  have hgrown := h s
  simp only [Leads, hrun] at hgrown
  exact hgrown.moved hs hmoves

/-- The range of a construct reaches from its first token to its last. -/
theorem Later.spanFrom (h : Later s s') (hs : s.Ready) (hlt : s.pos < s'.pos) :
    (s'.spanFrom s.currentSpan).On s.source ∧
      (s'.spanFrom s.currentSpan).start = s.here ∧ (s'.spanFrom s.currentSpan).stop = s'.passed :=
  h.frame.spanFrom hs hlt

theorem Later.here_le (h : Later s s') (hs : s.Ready) : s.here ≤ s'.here := h.frame.here_le hs

theorem later_skip (s : State) : Later s (Parser.skip s).2 := .of_frame (.advance s)

/-- The parser gives nodes that are no types with arguments. -/
def Nullary (p : Parser NodeId) : Prop :=
  ∀ s id s', p s = (.ok id, s') → (s'.tree.node id).typeArguments = []

namespace Nullary

variable {p q : Parser NodeId}

theorem bind {p : Parser α} {f : α → Parser NodeId} (hf : ∀ a, Nullary (f a)) :
    Nullary (p >>= f) := by
  intro s id s' hrun
  obtain ⟨a, s'', -, hrun⟩ := exists_of_bind hrun
  exact hf a s'' id s' hrun

theorem alloc {node : Node} (h : node.typeArguments = []) (span : Span) :
    Nullary (Parser.alloc node span) := by
  intro s id s' hrun
  obtain ⟨rfl, rfl⟩ := eq_of_alloc hrun
  rw [Tree.node_alloc, if_pos rfl, h]

theorem finish {node : Node} (h : node.typeArguments = []) (start : Span) :
    Nullary (Parser.finish start node) := fun s => alloc h (s.spanFrom start) s

theorem unexpected (expected : List Token) : Nullary (Parser.unexpected expected) := by
  intro s id s' hrun
  cases (Prod.mk.inj hrun).1

end Nullary

theorem nullary_wordType (word : TypeWord) : Nullary (wordType word) :=
  .bind fun _ => .bind fun _ => .alloc rfl _

theorem nullary_wordReference (name : String) : Nullary (wordReference name) :=
  .bind fun _ => .bind fun _ => .bind fun _ => .alloc rfl _

theorem nullary_literalType (value : LiteralValue) : Nullary (literalType value) :=
  .bind fun _ => .bind fun _ => .alloc rfl _

theorem nullary_negativeLiteralType (value : Binary64) : Nullary (negativeLiteralType value) :=
  .bind fun _ => .bind fun _ => .bind fun _ => .bind fun _ => .bind fun _ => .bind fun _ =>
    .alloc rfl _

theorem nullary_functionType : Nullary (functionType g) :=
  .bind fun _ => .bind fun _ => .bind fun _ => .bind fun _ => .bind fun _ => .finish rfl _

theorem nullary_tupleType : Nullary (tupleType g) :=
  .bind fun _ => .bind fun _ => .bind fun _ => .bind fun _ => .finish rfl _

/-- A closing parenthesis has just been taken. -/
def State.AfterParen (s : State) : Prop :=
  ∃ i span, s.pos = i + 1 ∧ s.tokens[i]? = some (.punct .rightParen, span)

/-- A node that is a type with arguments ends where the cursor stands, or a closing parenthesis does
so. -/
def EndsAt (s : State) (id : NodeId) : Prop :=
  (s.tree.node id).typeArguments ≠ [] →
    (∃ range, s.tree.range id = some range ∧ range.stop = s.passed) ∨ s.AfterParen

/-- After the parser its node ends at the cursor. -/
def TypeEnds (p : Parser NodeId) : Prop :=
  ∀ s id s', s.Ready → p s = (.ok id, s') → EndsAt s' id

theorem Nullary.typeEnds {p : Parser NodeId} (h : Nullary p) : TypeEnds p :=
  fun s id s' _ hrun hne => absurd (h s id s' hrun) hne

namespace TypeEnds

variable {p q : Parser NodeId}

/-- What follows a parser that reads on. -/
theorem bind {p : Parser α} {f : α → Parser NodeId} (hp : ∀ s, s.Ready → Later s (p s).2)
    (hf : ∀ a, TypeEnds (f a)) : TypeEnds (p >>= f) := by
  intro s id s' hs hrun
  obtain ⟨a, s'', hfirst, hrun⟩ := exists_of_bind hrun
  exact hf a s'' id s' (((hp s hs).of_run hfirst).ready hs) hrun

theorem ask {f : State → α} {k : α → Parser NodeId} (h : ∀ a, TypeEnds (k a)) :
    TypeEnds (Parser.ask f >>= k) :=
  .bind (fun s _ => .refl s) h

theorem ite {condition : Prop} [Decidable condition] (hp : TypeEnds p) (hq : TypeEnds q) :
    TypeEnds (if condition then p else q) := by
  split
  · exact hp
  · exact hq

theorem nested (h : TypeEnds p) : TypeEnds (Parser.nested p) := by
  intro s id s' hs hrun
  by_cases hdeep : maxDepth ≤ s.depth
  · simp [Parser.nested, enter, if_pos hdeep] at hrun
  · rcases hinner : p { s with depth := s.depth + 1 } with ⟨result, r⟩
    simp only [Parser.nested, enter, if_neg hdeep, hinner, Prod.mk.injEq] at hrun
    obtain ⟨rfl, rfl⟩ := hrun
    exact h { s with depth := s.depth + 1 } id r (hs.congr rfl rfl hs.pos_lt) hinner

end TypeEnds

/-- A reference ends with its name or its arguments. -/
theorem typeEnds_typeReference (hg : g.Sound) : TypeEnds (typeReference g) := by
  intro s id s' hs hrun hne
  obtain ⟨start, s₀, hstart, hrun⟩ := exists_of_bind hrun
  obtain ⟨rfl, rfl⟩ := eq_of_ask hstart
  obtain ⟨name, s₁, hname, hrun⟩ := exists_of_bind hrun
  have hlater : Later s s₁ := (Later.of_grows grows_entityName s).of_run hname
  have hlt : s.pos < s₁.pos := pos_lt_of_grows grows_entityName hs hname (.inr (by simp))
  have hfinish : ∀ arguments s₂, Later s₁ s₂ →
      Parser.finish s.currentSpan (.typeReference name arguments) s₂ = (.ok id, s') →
      ∃ range, s'.tree.range id = some range ∧ range.stop = s'.passed := by
    intro arguments s₂ hlater₂ hfinish
    obtain ⟨rfl, rfl⟩ := eq_of_alloc hfinish
    refine ⟨s₂.spanFrom s.currentSpan, by simp [Tree.range, Tree.entry?_alloc], ?_⟩
    have hlt₂ : s.pos < s₂.pos := by
      have := hlater₂.pos_le
      omega
    exact ((hlater.trans hlater₂).spanFrom hs hlt₂).2.2
  left
  obtain ⟨angle, s₂, hangle, hrun⟩ := exists_of_bind hrun
  obtain ⟨-, rfl⟩ := eq_of_ask hangle
  obtain ⟨newline, s₂, hnewline, hrun⟩ := exists_of_bind hrun
  obtain ⟨-, rfl⟩ := eq_of_ask hnewline
  split at hrun
  · obtain ⟨arguments, s₂, harguments, hrun⟩ := exists_of_bind hrun
    exact hfinish arguments s₂ ((Later.of_grows (grows_typeArguments hg) s₁).of_run harguments) hrun
  · obtain ⟨arguments, s₂, harguments, hrun⟩ := exists_of_bind hrun
    obtain ⟨rfl, rfl⟩ := eq_of_pure harguments
    exact hfinish [] s₁ (.refl s₁) hrun

/-- A type in parentheses ends with the closing one. -/
theorem typeEnds_parenthesized (hg : g.Sound) : TypeEnds (do
    let inner ← g.type
    expect .rightParen
    return inner) := by
  intro s id s' hs hrun _
  obtain ⟨inner, s₁, hinner, hrun⟩ := exists_of_bind hrun
  obtain ⟨_, s₂, hparen, hrun⟩ := exists_of_bind hrun
  obtain ⟨hcurrent, rfl⟩ := eq_of_expect hparen
  obtain ⟨rfl, rfl⟩ := eq_of_pure hrun
  have hs₁ : s₁.Ready := ((Later.of_grows hg.type s).of_run hinner).ready hs
  obtain ⟨a, ha, -, ha'⟩ := hs₁.token
  right
  refine ⟨s₁.pos, a.2, pos_advance hs₁ (by rw [hcurrent]; rfl), ?_⟩
  rw [tokens_advance, ha, ← hcurrent, ha']

theorem typeEnds_primaryType (hg : g.Sound) (htype : TypeEnds g.type) :
    TypeEnds (primaryType g) := by
  refine .ask fun start => .ask fun t => ?_
  split
  · refine .ask fun next => ?_
    split
    · exact (nullary_wordType _).typeEnds
    · intro s id s' hs hrun
      obtain ⟨reference, s₁, hreference, hrun⟩ := exists_of_bind hrun
      obtain ⟨asserts, s₂, hasserts, hrun⟩ := exists_of_bind hrun
      obtain ⟨-, rfl⟩ := eq_of_ask hasserts
      obtain ⟨newline, s₂, hnewline, hrun⟩ := exists_of_bind hrun
      obtain ⟨-, rfl⟩ := eq_of_ask hnewline
      have hs₁ := ((Later.of_grows (grows_typeReference hg) s).of_run hreference).ready hs
      split at hrun
      · exact TypeEnds.bind (fun s _ => later_skip s) (fun _ => htype) s₁ id s' hs₁ hrun
      · obtain ⟨rfl, rfl⟩ := eq_of_pure hrun
        exact typeEnds_typeReference hg s reference s₁ hs hreference
  · exact (nullary_wordType _).typeEnds
  · exact (nullary_wordType _).typeEnds
  · exact (nullary_wordReference _).typeEnds
  · exact (nullary_wordReference _).typeEnds
  · exact Nullary.typeEnds (.bind fun _ => .bind fun _ => .finish rfl _)
  · exact (nullary_literalType _).typeEnds
  · exact (nullary_literalType _).typeEnds
  · exact (nullary_literalType _).typeEnds
  · exact (nullary_literalType _).typeEnds
  · refine .ask fun next => ?_
    split
    · exact (nullary_negativeLiteralType _).typeEnds
    · exact (Nullary.unexpected _).typeEnds
  · exact Nullary.typeEnds (.bind fun _ => .finish rfl _)
  · exact nullary_tupleType.typeEnds
  · refine .ask fun isFunction => .ite nullary_functionType.typeEnds
      (.bind (fun s _ => later_skip s) ?_)
    exact fun _ => typeEnds_parenthesized hg
  · exact nullary_functionType.typeEnds
  · exact .bind (fun s _ => later_skip s) fun _ => nullary_functionType.typeEnds
  · exact (Nullary.unexpected _).typeEnds

/-- Behind brackets a type has no arguments of its own. -/
theorem typeEnds_postfixType (hg : g.Sound) (htype : TypeEnds g.type) :
    TypeEnds (postfixType g) := by
  refine .ask fun start => ?_
  intro s id s' hs hrun
  obtain ⟨first, s₁, hfirst, hrun⟩ := exists_of_bind hrun
  refine of_loop (P := fun type s => EndsAt s type)
    (typeEnds_primaryType hg htype s first s₁ hs hfirst)
    ?_ ?_ hrun
  · intro type s v s' hends hbody
    obtain ⟨bracket, s₂, hbracket, hbody⟩ := exists_of_bind hbody
    obtain ⟨-, rfl⟩ := eq_of_ask hbracket
    obtain ⟨newline, s₂, hnewline, hbody⟩ := exists_of_bind hbody
    obtain ⟨-, rfl⟩ := eq_of_ask hnewline
    split at hbody
    · obtain ⟨_, s₂, -, hbody⟩ := exists_of_bind hbody
      obtain ⟨closed, s₃, -, hbody⟩ := exists_of_bind hbody
      split at hbody
      · obtain ⟨array, s₄, -, hbody⟩ := exists_of_bind hbody
        cases (eq_of_pure hbody).1
      · obtain ⟨index, s₄, -, hbody⟩ := exists_of_bind hbody
        obtain ⟨_, s₅, -, hbody⟩ := exists_of_bind hbody
        obtain ⟨access, s₆, -, hbody⟩ := exists_of_bind hbody
        cases (eq_of_pure hbody).1
    · obtain ⟨hstop, rfl⟩ := eq_of_pure hbody
      cases hstop
      exact hends
  · intro type s v s' _ hbody
    obtain ⟨bracket, s₂, hbracket, hbody⟩ := exists_of_bind hbody
    obtain ⟨newline, s₂, hnewline, hbody⟩ := exists_of_bind hbody
    split at hbody
    · obtain ⟨_, s₂, -, hbody⟩ := exists_of_bind hbody
      obtain ⟨closed, s₃, -, hbody⟩ := exists_of_bind hbody
      split at hbody
      · obtain ⟨array, s₄, harray, hbody⟩ := exists_of_bind hbody
        obtain ⟨hnext, rfl⟩ := eq_of_pure hbody
        cases hnext
        exact fun hne => absurd (Nullary.finish rfl start _ _ _ harray) hne
      · obtain ⟨index, s₄, -, hbody⟩ := exists_of_bind hbody
        obtain ⟨_, s₅, -, hbody⟩ := exists_of_bind hbody
        obtain ⟨access, s₆, haccess, hbody⟩ := exists_of_bind hbody
        obtain ⟨hnext, rfl⟩ := eq_of_pure hbody
        cases hnext
        exact fun hne => absurd (Nullary.finish rfl start _ _ _ haccess) hne
    · cases (eq_of_pure hbody).1

theorem typeEnds_typeOperator (hg : g.Sound) (htype : TypeEnds g.type) :
    TypeEnds (typeOperator g) := by
  refine .ask fun start => .ask fun t => ?_
  split
  · refine .ask fun next => .ite ?_ (typeEnds_postfixType hg htype)
    exact Nullary.typeEnds (.bind fun _ => .bind fun _ => .finish rfl _)
  · exact typeEnds_postfixType hg htype

/-- One type alone ends where it does by itself. -/
theorem typeEnds_joinedTypes (mark : Punct) {operand : Parser NodeId} {join : List NodeId → Node}
    (hoperand : TypeEnds operand) (hjoin : ∀ types, (join types).typeArguments = []) :
    TypeEnds (joinedTypes mark operand join) := by
  refine .ask fun start => .bind (fun s _ => .of_grows (grows_eatIf _) s) fun _ => ?_
  intro s id s' hs hrun
  obtain ⟨types, s₁, htypes, hrun⟩ := exists_of_bind hrun
  obtain ⟨first, s₀, hfirst, htypes⟩ := exists_of_bind htypes
  obtain ⟨items, s₂, hitems, htypes⟩ := exists_of_bind htypes
  obtain ⟨rfl, rfl⟩ := eq_of_pure htypes
  have hends : items ≠ [] ∧ ∀ type, items = [type] → EndsAt s₂ type := by
    refine of_loop (P := fun items s => items ≠ [] ∧ ∀ type, items = [type] → EndsAt s type)
      ?_ ?_ ?_ hitems
    · refine ⟨List.cons_ne_nil _ _, ?_⟩
      rintro type ⟨⟩
      exact hoperand s first s₀ hs hfirst
    · intro items s v s' hends hbody
      obtain ⟨eaten, s₃, heaten, hbody⟩ := exists_of_bind hbody
      have hstate := eq_of_eat heaten
      split at hbody
      · obtain ⟨item, s₄, -, hbody⟩ := exists_of_bind hbody
        cases (eq_of_pure hbody).1
      · next hnot =>
        obtain ⟨hstop, rfl⟩ := eq_of_pure hbody
        cases hstop
        rw [if_neg hnot] at hstate
        rwa [hstate]
    · intro items s v s' hends hbody
      obtain ⟨eaten, s₃, heaten, hbody⟩ := exists_of_bind hbody
      split at hbody
      · obtain ⟨item, s₄, -, hbody⟩ := exists_of_bind hbody
        obtain ⟨hnext, rfl⟩ := eq_of_pure hbody
        cases hnext
        refine ⟨List.cons_ne_nil _ _, fun type htype => ?_⟩
        exact absurd (List.cons.inj htype).2 hends.1
      · cases (eq_of_pure hbody).1
  generalize hreverse : items.reverse = types at hrun
  split at hrun
  · next type =>
    obtain ⟨rfl, rfl⟩ := eq_of_pure hrun
    exact hends.2 type (by simpa using congrArg List.reverse hreverse)
  · exact fun hne => absurd (Nullary.finish (hjoin _) start _ _ _ hrun) hne

theorem typeEnds_type (hg : g.Sound) (htype : TypeEnds g.type) : TypeEnds (type g) := by
  refine .nested (typeEnds_joinedTypes .pipe ?_ fun _ => rfl)
  exact typeEnds_joinedTypes .amp (typeEnds_typeOperator hg htype) fun _ => rfl

/-- However deep types are nested, they end where their parser stops. -/
theorem typeEnds_upTo (n : Nat) : TypeEnds (Grammar.upTo n).type := by
  induction n with
  | zero =>
    intro s id s' _ hrun
    cases (Prod.mk.inj hrun).1
  | succ n ih => exact typeEnds_type (Grammar.sound_upTo n) ih

end Parse
end ScriptLint
