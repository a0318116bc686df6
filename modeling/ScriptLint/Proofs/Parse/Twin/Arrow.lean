import ScriptLint.Proofs.Parse.Nesting.Tower
import ScriptLint.Proofs.Parse.Speculation
import ScriptLint.Proofs.Parse.Twin.Balance
import ScriptLint.Proofs.Parse.Climbing
import ScriptLint.Proofs.Parse.Composed

namespace ScriptLint
namespace Parse
namespace Embedded

variable {α : Type} {e : Embedded} {least : Precedence} {ceiling depth n n' : Nat} {a : α} {s' : State}
  {p : Grammar → Parser α}

/-- At the start of the text alone. -/
def stateAlone (e : Embedded) (depth : Nat) : State :=
  { source := e.text, tokens := e.tokens .left, depth }

/-- At the start of the other text. -/
def stateAmid (e : Embedded) (depth : Nat) : State :=
  { source := e.whole, tokens := e.tokens .right, depth }

/-- The text alone and in the middle of the other one, where each of them begins. -/
theorem twin (hbalanced : e.Balanced) (hangles : e.Angleless) (hlooser : e.Looser ceiling)
    (depth : Nat) (tree : Tree) : (e.passage ceiling tree.size).Twin
      (Side.pick (e.stateAlone depth) ((e.stateAmid depth).reading e.front.length tree)) where
  ready i := by
    cases i with
    | left => exact State.ready_of_placed (tokenize_placed e.alone) rfl rfl
    | right =>
      have hfirst : (e.stateAmid depth).Ready :=
        State.ready_of_placed (tokenize_placed e.amid) rfl rfl
      refine hfirst.congr rfl rfl ?_
      change e.front.length < (e.tokens .right).size
      simp [tokens]
  source i := by cases i <;> rfl
  tokens := by
    have hholds := e.holds hbalanced hangles hlooser tree.size
    rwa [show (fun i => (Side.pick (e.stateAlone depth)
      ((e.stateAmid depth).reading e.front.length tree) i).tokens) = e.tokens by
        funext i
        cases i <;> rfl]
  pos i := by cases i <;> rfl
  pos_le := Nat.zero_le _
  tree := by
    refine ⟨rfl, fun id => .inl ?_⟩
    have hnone : tree.node (tree.size + id) = .missing := by
      rw [Tree.node, Tree.entry?_eq_none_iff.mpr (Nat.le_add_right _ _)]
      rfl
    exact hnone
  depth i := by cases i <;> rfl
  allowIn i := by cases i <;> rfl

variable [Renumber α]

theorem balanced (h : ReadAlone p n (e.stateAlone depth) a s') (hp : Paired least p) : e.Balanced := by
  have hbalanced := h.balanced hp
  simpa [stateAlone, tokens, openBefore, Balanced] using hbalanced

/-- The text is read to its end, and its nodes come after those that are there. -/
theorem read (hid : ∀ b : α, renumber (fun i => i) b = b) (hp : Paired least p)
    (h : ReadAlone p n (e.stateAlone depth) a s') (hangles : e.Angleless)
    (huncut : ∀ b ∈ e.tokens .right, afterClosingAngle b.1 = none) (hlooser : e.Looser least.level)
    (hreach : (e.stateAlone depth).reach ≤ n') (tree : Tree) :
    ∃ tree', p (Grammar.upTo n') ((e.stateAmid depth).reading e.front.length tree) =
        (.ok (renumber (tree.size + ·) a),
          (e.stateAmid depth).reading (e.front.length + e.inner.length) tree') ∧
      tree.Continues tree' ∧ Tree.Twin true tree.size s'.tree tree' := by
  have htwin := twin (balanced h hp) hangles hlooser depth tree
  obtain ⟨levels, hlevels⟩ :=
    Nat.exists_eq_add_one_of_ne_zero (State.reach_pos (htwin.pos_lt_size .left)).ne'
  have hlevels : (e.stateAlone depth).reach = levels + 1 := hlevels
  have hg := grammars_upTo levels (n := Side.pick n n') fun i => by
    cases i with
    | left => exact hlevels ▸ h.reach_le
    | right => exact hlevels ▸ hreach
  let m : Mark := ⟨levels + 1, (e.stateAlone depth).steps, 0, false, fun _ => True⟩
  have hm : m.Holds (e.passage least.level tree.size) (e.stateAlone depth) := by
    refine ⟨hlevels.le, le_rfl, ?_, nofun, trivial⟩
    rintro f ⟨⟩
    rfl
  cases hp.agrees hg (m := m) le_rfl (fun _ => .inr le_rfl) _ htwin hm with
  | error _ r hrun _ => cases (hrun .left).symm.trans h.run
  | value b r hrun hafter _ =>
    obtain ⟨rfl, rfl⟩ : b = a ∧ r .left = s' := by
      have heq := (hrun .left).symm.trans h.run
      rw [Prod.mk.injEq, Except.ok.injEq] at heq
      exact ⟨(hid b).symm.trans heq.1, heq.2⟩
    have hright : p (Grammar.upTo n') ((e.stateAmid depth).reading e.front.length tree) =
        (.ok _, r .right) := hrun .right
    have hframe := hp.frame (Grammar.sound_upTo n') ((e.stateAmid depth).reading e.front.length tree)
    rw [hright] at hframe
    have hpos : (r .right).pos = e.front.length + e.inner.length := by
      have hend : (r .left).pos + 1 = (e.tokens .left).size := h.pos_succ hp
      have hsize : (e.tokens .left).size = e.inner.length + 1 := by simp [tokens]
      rw [hsize, Nat.add_right_cancel_iff] at hend
      rw [hafter.pos .right, hend]
      rfl
    have hsame : r .right = (e.stateAmid depth).reading (e.front.length + e.inner.length)
        (r .right).tree := by
      obtain ⟨hsource, htokens, -, -, -, herrors, hdepth, hallow⟩ := hframe
      have htokens := htokens.eq_of_uncut huncut
      generalize r .right = state at *
      cases state
      simp_all [State.reading]
    exact ⟨(r .right).tree, hright.trans (congrArg (Prod.mk _) hsame), hframe.kept.tree,
      hafter.tree⟩

end Embedded

open ScriptLint.Parser

variable {s s' : State} {first close n : Nat} {tree : Tree}

/-- A parenthesis and the one that closes it, in tokens of which none can be taken apart. -/
structure Enclosed (s : State) (first close : Nat) : Prop where
  scan : tokenize s.source = .ok s.tokens.toList
  angleless : ∀ a ∈ s.tokens, a.1.isPunct .less = true → ∀ b ∈ s.tokens, beginsAngle b.1 = false
  uncut : ∀ a ∈ s.tokens, afterClosingAngle a.1 = none
  lt : first < close
  lt_size : close + 1 < s.tokens.size
  opens : s.tokenAt first = .punct .leftParen
  closes : s.tokenAt close = .punct .rightParen
  inside : ∀ p, first < p → p ≤ close →
    openBefore s.tokens.toList first < openBefore s.tokens.toList p
  level_close : openBefore s.tokens.toList close = openBefore s.tokens.toList first + 1

/-- An arrow function that begins with a parenthesis is made of parameters, a return type, an arrow
and a body. -/
theorem exists_of_arrowFunction {g : Grammar} {arrow : NodeId}
    (hopen : s.tokenAt first = .punct .leftParen)
    (hrun : arrowFunction g (s.reading first tree) = (.ok arrow, s')) :
    ∃ params s₁ returnType s₂, formalParameters g (s.reading first tree) = (.ok params, s₁) ∧
      typeAscription? g s₁ = (.ok returnType, s₂) ∧ s₂.current.isPunct .arrow = true := by
  have hname : checkName "async" (s.reading first tree) = (.ok false, s.reading first tree) := by
    simp [checkName, ask, hopen, Token.isName]
  have hpeek : Parser.peek (s.reading first tree) =
      (.ok (s.reading first tree).peek, s.reading first tree) := rfl
  have hless : eat .less (s.reading first tree) = (.ok false, s.reading first tree) :=
    eat_reading (by simp [hopen, Token.isPunct])
  have htypes : skipTypeParameters (s.reading first tree) = (.ok (), s.reading first tree) := by
    rw [skipTypeParameters, bind_of_ok hless]
    rfl
  have hidentifier : atIdentifier (s.reading first tree) = (.ok false, s.reading first tree) := by
    simp [atIdentifier, ask, hopen]
  rw [arrowFunction, bind_of_ok (currentSpan_apply _), bind_of_ok hname, bind_of_ok hpeek] at hrun
  change (skipTypeParameters >>= _) (s.reading first tree) = _ at hrun
  rw [bind_of_ok htypes, bind_of_ok hidentifier] at hrun
  obtain ⟨params, s₁, hparams, hrun⟩ := exists_of_bind hrun
  obtain ⟨returnType, s₂, htype, hrun⟩ := exists_of_bind hrun
  obtain ⟨_, s₃, hexpect, -⟩ := exists_of_bind hrun
  refine ⟨params, s₁, returnType, s₂, hparams, htype, ?_⟩
  by_contra hnot
  simp [expect, hnot] at hexpect

namespace Enclosed

theorem level_succ {p : Nat} (hp : p < s.tokens.size) :
    openBefore s.tokens.toList (p + 1) =
      openBefore s.tokens.toList p + bracketStep (s.tokenAt p) := by
  have hget : s.tokens.toList[p]? = some s.tokens[p] := by simp [hp]
  have hstep := openBefore_succ hget
  simpa [State.tokenAt, hp] using hstep

/-- From inside the parentheses the closing one is found. -/
theorem closeAt (h : Enclosed s first close) {p depth : Nat} (hfirst : first < p) (hp : p ≤ close)
    (hdepth : openBefore s.tokens.toList p = openBefore s.tokens.toList first + depth) :
    s.closeAt p depth = some close := by
  have hsize := h.lt_size
  have hlt : p < s.tokens.size := by omega
  have hinside := h.inside p hfirst hp
  have hstep := level_succ hlt
  have htoken : s.tokenAt p = s.tokens[p].1 := by simp [State.tokenAt, hlt]
  rw [s.closeAt_eq depth (Array.getElem?_eq_getElem hlt)]
  rw [htoken, bracketStep] at hstep
  rcases hp.lt_or_eq with hbefore | rfl
  · have heof : s.tokens[p].1.isEof = false :=
      (tokenize_placed h.scan).isEof_of_lt (i := p) (by simp [hlt])
        (by simp only [Array.length_toList]; omega)
    have hnext := h.inside (p + 1) (by omega) hbefore
    simp only [heof, Bool.false_eq_true, if_false]
    split_ifs at hstep ⊢ with hopens hcloses hlast
    · exact h.closeAt (by omega) hbefore (by omega)
    · omega
    · exact h.closeAt (by omega) hbefore (by omega)
    · exact h.closeAt (by omega) hbefore (by omega)
  · have hlevel := h.level_close
    have hone : depth ≤ 1 := by omega
    rw [← htoken, h.closes]
    simp [Token.isEof, State.opensBracket, State.closesBracket, hone]
termination_by close - p

theorem matchingClose (h : Enclosed s first close) : s.matchingClose first = some close := by
  have hlt : first < s.tokens.size := by
    have := h.lt
    have := h.lt_size
    omega
  have htoken : s.tokens[first].1 = .punct .leftParen := by
    rw [← h.opens]
    simp [State.tokenAt, hlt]
  have hopens : State.opensBracket s.tokens[first].1 = true := by rw [htoken]; rfl
  rw [s.matchingClose_eq (Array.getElem?_eq_getElem hlt) hopens]
  refine h.closeAt (Nat.lt_succ_self _) h.lt ?_
  rw [level_succ hlt, h.opens]
  rfl

/-- The parentheses, from the first one on, as a passage of the text itself. -/
theorem stretch (h : Enclosed s first close) (tree : Tree) :
    Stretch (s.reading first tree) (s.tokens.size - 1)
      fun p => openBefore s.tokens.toList p - openBefore s.tokens.toList first where
  scan := h.scan
  pos_le := by
    have := h.lt
    have := h.lt_size
    change first ≤ _
    omega
  lt_size := by
    have := h.lt_size
    change s.tokens.size - 1 < s.tokens.size
    omega
  ends := .inl (by
    have := h.lt_size
    change s.tokens.size - 1 + 1 = s.tokens.size
    omega)
  level_pos := Int.sub_self _
  level_succ p a ha := by
    have hget : s.tokens.toList[p]? = some a := Array.getElem?_toList.trans ha
    rw [openBefore_succ hget]
    omega
  angleless := h.angleless

/-- The parameters end after the closing parenthesis. -/
theorem formalParameters_pos (h : Enclosed s first close) (hn : (s.reading first tree).reach ≤ n)
    {params : List NodeId}
    (hrun : formalParameters (Grammar.upTo n) (s.reading first tree) = (.ok params, s')) :
    close < s'.pos := by
  have hlevel := ((h.stretch tree).run paired_formalParameters hn hrun).2
  have hgrown := grows_formalParameters (Grammar.sound_upTo n) (s.reading first tree)
  rw [Leads, hrun] at hgrown
  have hmoved : first < s'.pos := hgrown.moved (h.stretch tree).ready (.inl rfl)
  by_contra hle
  have hinside := h.inside s'.pos hmoved (Nat.le_of_not_lt hle)
  omega

/-- Where no arrow stands after the parentheses, no arrow function begins with them. -/
theorem attempt_arrowFunction (h : Enclosed s first close) (hn : (s.reading first tree).reach ≤ n)
    (harrow : ∀ p, close < p → (s.tokenAt p).isPunct .arrow = false) :
    attempt (arrowFunction (Grammar.upTo n)) (s.reading first tree) =
      (.ok none, s.reading first tree) := by
  rcases run_cases (arrowFunction (Grammar.upTo n)) (s.reading first tree) with
    ⟨arrow, s', hrun⟩ | ⟨e, s', hrun⟩
  · exfalso
    obtain ⟨params, s₁, returnType, s₂, hparams, htype, hfound⟩ :=
      exists_of_arrowFunction h.opens hrun
    -- the tokens are still the same, and the cursor is after the parenthesis
    have hpos := h.formalParameters_pos hn hparams
    have hframe := paired_formalParameters.frame (Grammar.sound_upTo n) (s.reading first tree)
    have hframe' := (grows_typeAscription? (Grammar.sound_upTo n)).frame s₁
    rw [hparams] at hframe
    rw [htype] at hframe'
    have htokens : s₂.tokens = s.tokens := (hframe.trans hframe').tokens.eq_of_uncut h.uncut
    have hcurrent : s₂.current = s.tokenAt s₂.pos := by
      rw [State.current, State.tokenAt, htokens]
      rfl
    rw [hcurrent, harrow s₂.pos (hpos.trans_le hframe'.pos_le)] at hfound
    cases hfound
  · have hproduction : Production (Grammar.upTo n) (arrowFunction (Grammar.upTo n)) :=
      .arrowFunction
    have hkept := hproduction.keepsOnError (Grammar.sound_upTo n) _ e s' hrun
    have htokens : s'.tokens = s.tokens := hkept.tokens.eq_of_uncut h.uncut
    rw [attempt_eq hkept hrun, htokens]
    rfl

end Enclosed

end Parse
end ScriptLint
