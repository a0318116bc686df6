import ScriptLint.Proofs.Parse.Gathers

namespace ScriptLint
namespace Parse

open ScriptLint.Parser

variable {w : Passage} {m : Mark} {k : Nat} {g : Side → Grammar} {s : Side → State}
  {least : Precedence} {left id : NodeId} {b : Side → State} {moved : Bool}
  {s' : State}

/-- In fewer steps the cursor stands further on among the same tokens. -/
theorem State.pos_lt_of_steps_lt {s s' : State} (htokens : s'.tokens = s.tokens)
    (hsteps : s'.steps < s.steps) : s.pos < s'.pos := by
  by_contra hle
  have hjump := s'.total_jump_le pieces (Nat.le_of_not_lt hle)
  have hsame : State.total { s' with pos := s.pos } pieces = s.total pieces := by
    simp [State.total, State.tokenAt, htokens]
  rw [hsame] at hjump
  exact absurd hsteps (Nat.not_lt_of_le hjump)

/-- Where the passage goes on parsers are nested at least as deep as where it ends. -/
theorem Passage.Twin.reach_le (hs : w.Twin s) : (s .left).reach ≤ (s .right).reach := by
  have hpos : (s .right).pos = w.offset + (s .left).pos := hs.pos .right
  have hinside : w.offset + (w.count + 1) ≤ (s .right).tokens.size := by
    obtain ⟨c, hc, -⟩ := hs.tokens.reads w.count le_rfl
    have hlt := (Array.getElem?_eq_some_iff.mp (hc .right)).1
    simp only [place_right] at hlt
    omega
  have htoken : ∀ i ∈ Finset.Ico (s .left).pos (w.count + 1),
      mass ((s .left).tokenAt i) ≤ mass ((s .right).tokenAt (w.offset + i)) := by
    intro i hi
    cases hs.reads (Nat.le_of_lt_succ (Finset.mem_Ico.mp hi).2) with
    | token _ htwin => exact htwin.mass.ge
    | ending _ hleft =>
      have hend : (s .left).tokenAt i = .eof := hleft
      rw [hend]
      exact mass_pos _
  have hsubset : Finset.Ico (w.offset + (s .left).pos) (w.offset + (w.count + 1)) ⊆
      Finset.Ico (s .right).pos (s .right).tokens.size :=
    Finset.Ico_subset_Ico hpos.le hinside
  have htotal : (s .left).total mass ≤ (s .right).total mass := by
    rw [State.total, hs.tokens.size]
    refine (Finset.sum_le_sum htoken).trans ?_
    rw [Finset.sum_Ico_add (fun i => mass ((s .right).tokenAt i))]
    exact Finset.sum_le_sum_of_subset (by rwa [Nat.add_comm _ w.offset, Nat.add_comm _ w.offset])
  rw [State.reach, State.reach, hs.depth .right]
  exact Nat.add_le_add_left htotal _

/-- A turn of the loop of `binary` before the end of a passage is the same turn on both sides. -/
theorem Passage.Twin.infixTail? (start : Side → Span) (hs : w.Twin s) (hg : Grammars k g) (hm : m.Within k)
    (hmoved : m.moved = true) (hmark : m.Holds w (s .left))
    (hceiling : ∀ operator : InfixOperator, least.level ≤ operator.level →
      w.ceiling ≤ operator.operandLevel.level)
    (hinside : (s .left).current ≠ .eof) {e : NodeId}
    (hrun : Parse.infixTail? (g .left) least (start .left) left (s .left) = (.ok (some e), s')) :
    ∃ r, r .left = s' ∧ w.Twin r ∧ m.step.Holds w (r .left) ∧
      Parse.infixTail? (g .right) least (start .right) (w.id .right left) (s .right) =
        (.ok (some (w.id .right e)), r .right) := by
  have hagrees := agrees_infixTail? hg (m := m.knowing fun s => s.current ≠ .eof) hm hmoved
    (.inr fun _ h => h.2) (fun operator hle _ => .inr (hceiling operator hle)) start left
  cases hagrees s hs { hmark with known := ⟨hmark.known, hinside⟩ } with
  | error _ r hrun' _ => cases (hrun' .left).symm.trans hrun
  | value found r hrun' htwin hmark' =>
    have hleft := (hrun' .left).symm.trans hrun
    rw [Prod.mk.injEq, Except.ok.injEq] at hleft
    obtain ⟨hfound, hsame⟩ := hleft
    obtain rfl : found = some e := by
      cases found with
      | none => cases hfound
      | some found => exact hfound
    exact ⟨r, hsame, htwin, hmark', hrun' .right⟩

/-- Where the loop of `binary` ends at the end of a passage, it gets so far where the passage goes
on too, whatever it does there. -/
theorem Passage.Twin.gathers (hs : w.Twin s) (hg : Grammars k g) (hm : m.Within k)
    (hmoved : m.moved = true) (hmark : m.Holds w (s .left))
    (hceiling : ∀ operator : InfixOperator, least.level ≤ operator.level →
      w.ceiling ≤ operator.operandLevel.level)
    (huncut : ∀ i, ∀ a ∈ (b i).tokens, afterClosingAngle a.1 = none)
    (hgrown : ∀ i, Grown (b i) (s i) moved [w.id i left])
    {fuel : Nat}
    (hrun : loopUpTo (turnBinary (g .left) least (b .left).currentSpan) fuel left (s .left) =
      (.ok id, s')) :
    ∃ turns r, r .left = s' ∧ w.Twin r ∧ (s .left).pos + turns ≤ (r .left).pos ∧
      (∀ i, Frame (b i) (r i)) ∧
      ∀ floor : Precedence, floor.level ≤ least.level → ∀ fuel,
        loopUpTo (turnBinary (g .right) floor (b .right).currentSpan) (fuel + turns)
            (w.id .right left) (s .right) =
          loopUpTo (turnBinary (g .right) floor (b .right).currentSpan) fuel (w.id .right id)
            (r .right) := by
  induction fuel generalizing s left m moved with
  | zero => cases hrun
  | succ fuel ih =>
    rw [loopUpTo] at hrun
    obtain ⟨turn, s₁, hturn, hrun⟩ := exists_of_bind hrun
    rw [turnBinary] at hturn
    obtain ⟨found, s₂, htail, hturn⟩ := exists_of_bind hturn
    cases found with
    | none =>
      cases hturn
      cases hrun
      have hsame := eq_of_infixTail?_none htail
      exact ⟨0, s, hsame.symm, hs, le_rfl, fun i => (hgrown i).frame, fun _ _ _ => rfl⟩
    | some e =>
      cases hturn
      have hinside : (s .left).current ≠ .eof := by
        intro hend
        have hnone := infixTail?_apply (g .left) least (b .left).currentSpan left (s .left)
        rw [hend] at hnone
        cases htail.symm.trans (hnone.trans rfl)
      -- the steps that are left tell that the cursor moves
      have hhere : (m.turn (s .left).steps).Holds w (s .left) :=
        ⟨hmark.budget, le_rfl, hmark.level, hmark.moved, trivial⟩
      obtain ⟨r, rfl, htwin, hmark', hright⟩ :=
        hs.infixTail? (m := m.turn (s .left).steps) (fun i => (b i).currentSpan) hg hm hmoved hhere
          hceiling hinside htail
      have hgrown' : ∀ i, Grown (b i) (r i) false [w.id i e] := by
        intro i
        have hleads := leads_infixTail? (hg.sound i) least (hgrown i)
        cases i with
        | left =>
          rw [Leads, show w.id .left left = left from rfl, htail] at hleads
          exact hleads
        | right =>
          rw [Leads, hright] at hleads
          exact hleads
      obtain ⟨turns, r', hend, htwin', hpos, hframe, hloop⟩ :=
        ih htwin (m := (m.turn (s .left).steps).step) hm.step rfl hmark' hgrown' hrun
      have htokens : (r .left).tokens = (s .left).tokens :=
        ((hgrown' .left).frame.tokens.eq_of_uncut (huncut .left)).trans
          ((hgrown .left).frame.tokens.eq_of_uncut (huncut .left)).symm
      have hfewer : (r .left).steps ≤ (s .left).steps - 1 := hmark'.steps
      have hsteps := State.steps_pos (hs.pos_lt_size .left)
      have hlt := State.pos_lt_of_steps_lt htokens (by omega)
      refine ⟨turns + 1, r', hend, htwin', by omega, hframe, fun floor hfloor fuel => ?_⟩
      have hturn : turnBinary (g .right) floor (b .right).currentSpan (w.id .right left) (s .right) =
          (.ok (.next (w.id .right e)), r .right) := by
        rw [turnBinary, bind_of_ok (infixTail?_mono hright hfloor)]
        rfl
      rw [← Nat.add_assoc, loopUpTo, bind_of_ok hturn]
      exact hloop floor hfloor fuel

/-- Between the same tokens a state stands elsewhere and has another tree. -/
theorem Frame.eq_reading {s s' : State} (h : Frame s s')
    (huncut : ∀ a ∈ s.tokens, afterClosingAngle a.1 = none) : s' = s.reading s'.pos s'.tree := by
  obtain ⟨hsource, htokens, -, -, -, herrors, hdepth, hallow⟩ := h
  have htokens := htokens.eq_of_uncut huncut
  cases s'
  simp_all [State.reading]

theorem paired_binary (least : Precedence) : Paired least fun g => Parse.binary g least where
  agrees hg hm hclear := (agrees_binary hg hm least hclear).relax
  frame hg := (grows_binary hg least).frame

theorem paired_unary (least : Precedence) : Paired least unary where
  agrees hg hm hclear := (agrees_unary hg (Nat.le_succ_of_le hm) hclear.exponentiation).relax
  frame hg := (grows_unary hg).frame

namespace Embedded

variable {e : Embedded} {depth n : Nat} {a : NodeId}

/-- A construct that is all of a text is read where the text stands in the middle of another one. -/
theorem makes {p : Grammar → Parser NodeId} (hp : Paired least p)
    (hgrows : GrowsNode (p (Grammar.upTo n))) (h : ReadAlone p n (e.stateAlone depth) a s')
    (hangles : e.Angleless) (huncut : ∀ b ∈ e.tokens .right, afterClosingAngle b.1 = none)
    (hlooser : e.Looser least.level) :
    Makes p (e.stateAmid depth) e.front.length (e.front.length + e.inner.length)
      fun t id => t.SameBelow id s'.tree a := by
  intro k hk tree
  have htwin := twin (balanced h hp) hangles hlooser depth tree
  obtain ⟨tree', hrun, hcontinues, htwin'⟩ :=
    read (fun _ => rfl) hp h hangles huncut hlooser (htwin.reach_le.trans hk) tree
  have hready : (e.stateAlone depth).Ready :=
    State.ready_of_placed (tokenize_placed e.alone) rfl rfl
  exact ⟨_, tree', hrun, hcontinues,
    Tree.sameBelow_of_twin htwin' (hgrows.lt_size hready h.run)⟩

/-- None of the tokens of a text can be taken apart if none of all tokens can. -/
theorem uncut_left (e : Embedded) (huncut : ∀ b ∈ e.tokens .right, afterClosingAngle b.1 = none) :
    ∀ b ∈ e.tokens .left, afterClosingAngle b.1 = none := by
  intro b hb
  simp only [tokens, List.mem_toArray, List.mem_append, List.mem_singleton] at hb
  rcases hb with hb | rfl
  · have hmoved := huncut (b.1.movedTo e.place, b.2.movedTo e.place) (by
      simp only [tokens, tokensMovedTo_eq_map, List.mem_toArray, List.mem_append, List.mem_map]
      exact .inr (.inl ⟨b, hb, rfl⟩))
    generalize b.1 = t at hmoved
    cases t <;> exact hmoved
  · rfl

/-- Operands that are all of a text are gathered where it stands in the middle of another one,
also before an operator that `binary` takes too. -/
theorem gathers (h : ReadAlone (fun g => Parse.binary g least) n (e.stateAlone depth) a s')
    (hangles : e.Angleless) (huncut : ∀ b ∈ e.tokens .right, afterClosingAngle b.1 = none)
    {ceiling : Precedence} (hlooser : e.Looser ceiling.level)
    (hceiling : ∀ operator : InfixOperator, least.level ≤ operator.level →
      ceiling.level ≤ operator.operandLevel.level) :
    Gathers (e.stateAmid depth) least e.front.length (e.front.length + e.inner.length)
      fun t id => t.SameBelow id s'.tree a := by
  intro k hk tree
  have hp := paired_binary least
  have htwin := twin (balanced h hp) hangles hlooser depth tree
  have hle : (e.stateAlone depth).reach ≤ k := htwin.reach_le.trans hk
  obtain ⟨levels, hlevels⟩ :=
    Nat.exists_eq_add_one_of_ne_zero (State.reach_pos (htwin.pos_lt_size .left)).ne'
  have hlevels : (e.stateAlone depth).reach = levels + 1 := hlevels
  have hg := grammars_upTo levels (n := Side.pick n k) fun i => by
    cases i with
    | left => exact hlevels ▸ h.reach_le
    | right => exact hlevels ▸ hle
  let m : Mark := ⟨levels + 1, (e.stateAlone depth).steps, 0, false, fun _ => True⟩
  have hm : m.Holds (e.passage ceiling.level tree.size) (e.stateAlone depth) := by
    refine ⟨hlevels.le, le_rfl, ?_, nofun, trivial⟩
    rintro f ⟨⟩
    rfl
  obtain ⟨_, _, ⟨⟩, hrun⟩ := exists_of_bind h.run
  obtain ⟨first, s₁, hfirst, hrun⟩ := exists_of_bind hrun
  have hclear : m.Clears (e.passage ceiling.level tree.size) .exponentiation := fun _ =>
    .inr (Mark.level_le_exponentiation ceiling)
  cases agrees_unary hg (m := m) (Nat.le_succ_of_le le_rfl) hclear _ htwin hm with
  | error _ r hunary _ => cases (hunary .left).symm.trans hfirst
  | value b r hunary hafter hmark =>
    obtain ⟨rfl, rfl⟩ : b = first ∧ r .left = s₁ := by
      have heq := (hunary .left).symm.trans hfirst
      rw [Prod.mk.injEq, Except.ok.injEq] at heq
      exact heq
    let start : Side → State :=
      Side.pick (e.stateAlone depth) ((e.stateAmid depth).reading e.front.length tree)
    have hgrown : ∀ i, Grown (start i) (r i) false [(e.passage ceiling.level tree.size).id i b] := by
      intro i
      have hrun : unary (Grammar.upTo (Side.pick n k i)) (start i) = (.ok _, r i) := hunary i
      have hleads := grows_unary (Grammar.sound_upTo (Side.pick n k i)) (start i)
      rwa [Leads, hrun] at hleads
    have huncut' : ∀ i, ∀ a ∈ (start i).tokens, afterClosingAngle a.1 = none := by
      intro i
      cases i with
      | left => exact e.uncut_left huncut
      | right => exact huncut
    obtain ⟨turns, r', hend, htwin', hpos, hframe, hloop⟩ :=
      hafter.gathers hg (m := m.step) (Nat.sub_le _ _) rfl hmark hceiling huncut' hgrown hrun
    have hright := (hgrown .right).frame.eq_reading huncut
    have hright' := (hframe .right).eq_reading huncut
    have hlast : (r' .left).pos = e.inner.length := by
      have hsucc := h.pos_succ hp
      have hsize : (e.stateAlone depth).tokens.size = e.inner.length + 1 := by
        simp [stateAlone, tokens]
      rw [← hend] at hsucc
      omega
    have hpos' : (r' .right).pos = e.front.length + e.inner.length := by
      rw [htwin'.pos .right, hlast]
      rfl
    have hroot : a < s'.tree.size := by
      refine (grows_binary (Grammar.sound_upTo n) least).lt_size ?_ h.run
      exact State.ready_of_placed (tokenize_placed e.alone) rfl rfl
    have hfirst' : unary (Grammar.upTo k) ((e.stateAmid depth).reading e.front.length tree) =
        (.ok (tree.size + b), r .right) := hunary .right
    have hturns : (r .right).pos + turns ≤ e.front.length + e.inner.length := by
      rw [hafter.pos .right]
      change e.front.length + (r .left).pos + turns ≤ _
      omega
    have hbelow : (r' .right).tree.SameBelow (tree.size + a) s'.tree a := by
      rw [← hend]
      exact Tree.sameBelow_of_twin htwin'.tree (hend ▸ hroot)
    refine ⟨tree.size + b, (r .right).pos, (r .right).tree, turns, tree.size + a, (r' .right).tree,
      hfirst'.trans (congrArg (Prod.mk _) hright), hturns, fun floor hfloor fuel => ?_,
      (hframe .right).tree.toContinues, hbelow⟩
    have hloop := hloop floor hfloor fuel
    rw [hright, hright', hpos'] at hloop
    exact hloop

end Embedded

end Parse
end ScriptLint
