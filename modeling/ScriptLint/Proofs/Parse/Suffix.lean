import ScriptLint.Proofs.Parse.Phrase

namespace ScriptLint
namespace Parse

open ScriptLint.Parser

section Alone

variable {w : Passage} {m : Mark} {k : Nat} {g : Grammar} {s : Side → State} {b : Side → State}
  {left object id : NodeId} {moved inChain inChain' : Bool} {s' : State}

/-- The first part of an expression, which may be accessed and called. -/
def head (isNew : Bool) (g : Grammar) : Parser NodeId :=
  if isNew then newExpression g else primary g

theorem leftHandSide_apply (g : Grammar) (s : State) : leftHandSide g s =
    (head (s.current.isKeyword .newWord) g >>= suffixes g true s.currentSpan) s := by
  have hspan : currentSpan s = (.ok s.currentSpan, s) := rfl
  have hnew : checkKeyword .newWord s = (.ok (s.current.isKeyword .newWord), s) := rfl
  rw [leftHandSide, bind_of_ok hspan, bind_of_ok hnew, head]
  split <;> rfl

theorem grows_head (hg : g.Sound) (isNew : Bool) : GrowsNode (head isNew g) := by
  cases isNew with
  | true => exact grows_newExpression hg
  | false => exact grows_primary hg

theorem agrees_head {g : Side → Grammar} (hg : Grammars k g) (hm : m.Within k) (isNew : Bool) :
    Agrees w m (fun _ => m.step) fun i => head isNew (g i) := by
  cases isNew with
  | true => exact agrees_newExpression hg hm
  | false => exact agrees_primary hg hm

theorem paired_leftHandSide : Paired .exponentiation leftHandSide where
  agrees hg hm hclear := (agrees_leftHandSide hg hm hclear).relax
  frame hg := (grows_leftHandSide hg).frame

/-- Where nothing follows directly, nothing is read. -/
theorem eq_of_suffix?_none {calls : Bool} {start : Span} {s : State}
    (h : suffix? g calls start object s = (.ok none, s')) : s' = s := by
  have hcurrent : Parser.current s = (.ok s.current, s) := rfl
  have hsome : ∀ {node : Node} {optional : Bool} {s₁ : State}, (do
      let e ← finish start node
      return some (e, optional) : Parser (Option (NodeId × Bool))) s₁ ≠ (.ok none, s') := fun h => by
    obtain ⟨_, s₂, -, h⟩ := exists_of_bind h
    cases h
  rw [suffix?, bind_of_ok hcurrent] at h
  generalize s.current = t at h
  cases t with
  | punct mark =>
    cases mark with
    | dot =>
      obtain ⟨_, s₁, -, h⟩ := exists_of_bind h
      obtain ⟨_, s₂, -, h⟩ := exists_of_bind h
      exact (hsome h).elim
    | questionDot =>
      cases calls with
      | false =>
        cases h
        rfl
      | true =>
        obtain ⟨_, s₁, -, h⟩ := exists_of_bind h
        obtain ⟨t, s₂, -, h⟩ := exists_of_bind h
        have hnamed : ∀ {s₃ : State}, (do
            let property ← propertyIdentifier
            let e ← finish start (.memberExpression { object, property, computed := false, optional := true })
            return some (e, true) : Parser (Option (NodeId × Bool))) s₃ ≠ (.ok none, s') := fun h => by
          obtain ⟨_, s₄, -, h⟩ := exists_of_bind h
          exact hsome h
        cases t with
        | punct mark =>
          cases mark with
          | leftParen | leftBracket =>
            obtain ⟨_, s₃, -, h⟩ := exists_of_bind h
            exact (hsome h).elim
          | _ => exact (hnamed h).elim
        | _ => exact (hnamed h).elim
    | leftBracket =>
      obtain ⟨_, s₁, -, h⟩ := exists_of_bind h
      exact (hsome h).elim
    | leftParen =>
      cases calls with
      | false =>
        cases h
        rfl
      | true =>
        obtain ⟨_, s₁, -, h⟩ := exists_of_bind h
        exact (hsome h).elim
    | bang =>
      obtain ⟨newline, s₁, hnewline, h⟩ := exists_of_bind h
      cases hnewline
      cases hline : s.newlineBefore with
      | true =>
        rw [hline] at h
        cases h
        rfl
      | false =>
        rw [hline] at h
        obtain ⟨_, s₂, -, h⟩ := exists_of_bind h
        exact (hsome h).elim
    | _ =>
      cases h
      rfl
  | template parts =>
    obtain ⟨_, s₁, -, h⟩ := exists_of_bind h
    exact (hsome h).elim
  | _ =>
    cases h
    rfl

/-- What follows directly before the end of a passage is the same on both sides. -/
theorem Passage.Twin.suffix? {g : Side → Grammar} (start : Side → Span) (hs : w.Twin s)
    (hg : Grammars k g) (hm : m.Within k) (hmoved : m.moved = true) (hmark : m.Holds w (s .left))
    {e : NodeId} {optional : Bool}
    (hrun : Parse.suffix? (g .left) true (start .left) object (s .left) =
      (.ok (some (e, optional)), s')) :
    ∃ r, r .left = s' ∧ w.Twin r ∧ m.step.Holds w (r .left) ∧
      Parse.suffix? (g .right) true (start .right) (w.id .right object) (s .right) =
        (.ok (some (w.id .right e, optional)), r .right) := by
  have hinside : (s .left).current ≠ .eof := fun hend => by
    have hcurrent : Parser.current (s .left) = (.ok (s .left).current, s .left) := rfl
    rw [Parse.suffix?, bind_of_ok hcurrent, hend] at hrun
    cases hrun
  have hagrees := agrees_suffix? (w := w) hg (m := m.knowing fun s => s.current ≠ .eof) hm hmoved true
    (fun _ => .inr fun _ h => h.2) start object
  cases hagrees s hs { hmark with known := ⟨hmark.known, hinside⟩ } with
  | error _ r hrun' _ => cases (hrun' .left).symm.trans hrun
  | value found r hrun' htwin hmark' =>
    have hleft := (hrun' .left).symm.trans hrun
    rw [Prod.mk.injEq, Except.ok.injEq] at hleft
    obtain ⟨hfound, hsame⟩ := hleft
    obtain rfl : found = some (e, optional) := by
      cases found with
      | none => cases hfound
      | some found => exact hfound
    exact ⟨r, hsame, htwin, hmark', hrun' .right⟩

/-- Where the accesses and calls of a passage end with it, they get so far where it goes on too. -/
theorem Passage.Twin.accesses {g : Side → Grammar} (hs : w.Twin s) (hg : Grammars k g)
    (hm : m.Within k) (hmoved : m.moved = true) (hmark : m.Holds w (s .left))
    (huncut : ∀ i, ∀ a ∈ (b i).tokens, afterClosingAngle a.1 = none)
    (hgrown : ∀ i, Grown (b i) (s i) moved [w.id i left]) {fuel : Nat}
    (hrun : loopUpTo (turnSuffix (g .left) true (b .left).currentSpan) fuel (left, inChain) (s .left) =
      (.ok (id, inChain'), s')) :
    ∃ turns r, r .left = s' ∧ w.Twin r ∧ (s .left).pos + turns ≤ (r .left).pos ∧
      (∀ i, Frame (b i) (r i)) ∧ ∀ fuel,
        loopUpTo (turnSuffix (g .right) true (b .right).currentSpan) (fuel + turns)
            (w.id .right left, inChain) (s .right) =
          loopUpTo (turnSuffix (g .right) true (b .right).currentSpan) fuel
            (w.id .right id, inChain') (r .right) := by
  induction fuel generalizing s left inChain m moved with
  | zero => cases hrun
  | succ fuel ih =>
    rw [loopUpTo] at hrun
    obtain ⟨turn, s₁, hturn, hrun⟩ := exists_of_bind hrun
    rw [turnSuffix] at hturn
    obtain ⟨found, s₂, hsuffix, hturn⟩ := exists_of_bind hturn
    cases found with
    | none =>
      cases hturn
      cases hrun
      have hsame := eq_of_suffix?_none hsuffix
      exact ⟨0, s, hsame.symm, hs, le_rfl, fun i => (hgrown i).frame, fun _ => rfl⟩
    | some found =>
      obtain ⟨e, optional⟩ := found
      cases hturn
      -- the steps that are left tell that the cursor moves
      have hhere : (m.turn (s .left).steps).Holds w (s .left) :=
        ⟨hmark.budget, le_rfl, hmark.level, hmark.moved, trivial⟩
      obtain ⟨r, rfl, htwin, hmark', hright⟩ :=
        hs.suffix? (m := m.turn (s .left).steps) (fun i => (b i).currentSpan) hg hm hmoved hhere hsuffix
      have hgrown' : ∀ i, Grown (b i) (r i) false [w.id i e] := by
        intro i
        have hleads := leads_suffix? (hg.sound i) true (hgrown i)
        cases i with
        | left =>
          rw [Leads, show w.id .left left = left from rfl, hsuffix] at hleads
          exact hleads
        | right =>
          rw [Leads, hright] at hleads
          exact hleads
      obtain ⟨turns, r', hend, htwin', hpos, hframe, hloop⟩ :=
        ih htwin (m := (m.turn (s .left).steps).step) hm.step rfl hmark' hgrown' hrun
      have htokens : (r .left).tokens = (s .left).tokens :=
        ((hgrown' .left).frame.tokens.eq_of_uncut (huncut .left)).trans
          ((hgrown .left).frame.tokens.eq_of_uncut (huncut .left)).symm
      have hfewer : (r .left).steps ≤ (s .left).steps - 1 := hmark'.steps
      have hsteps := State.steps_pos (hs.pos_lt_size .left)
      have hlt := State.pos_lt_of_steps_lt htokens (by omega)
      refine ⟨turns + 1, r', hend, htwin', by omega, hframe, fun fuel => ?_⟩
      have hturn : turnSuffix (g .right) true (b .right).currentSpan (w.id .right left, inChain)
          (s .right) = (.ok (.next (w.id .right e, inChain || optional)), r .right) := by
        rw [turnSuffix, bind_of_ok hright]
        rfl
      rw [← Nat.add_assoc, loopUpTo, bind_of_ok hturn]
      exact hloop fuel

end Alone

variable {s : State} {pos pos' stop : Nat} {name : String} {P Q : Tree → NodeId → Prop}

/-- A token that names a property after a dot. -/
def names : Token → Option String
  | .identifier name => some name
  | .keyword word => some word.spelling
  | _ => none

/-- From one place of the tokens to another stand an expression and what follows it directly, and more
may follow. It is told whether an access or a call of these is optional. -/
def Accesses (s : State) (optional : Bool) (pos pos' : Nat) (P : Tree → NodeId → Prop) : Prop :=
  ∀ k, (s.reading pos {}).reach ≤ k → ∀ tree, ∃ first pos₁ tree₁ turns e tree',
    leftHandSide (Grammar.upTo k) (s.reading pos tree) =
        (loop (first, false) (turnSuffix (Grammar.upTo k) true (s.spanAt pos)) >>=
          chained (s.spanAt pos)) (s.reading pos₁ tree₁) ∧
      pos < pos₁ ∧ pos₁ + turns ≤ pos' ∧
      (∀ fuel, loopUpTo (turnSuffix (Grammar.upTo k) true (s.spanAt pos)) (fuel + turns)
          (first, false) (s.reading pos₁ tree₁) =
        loopUpTo (turnSuffix (Grammar.upTo k) true (s.spanAt pos)) fuel (e, optional)
          (s.reading pos' tree')) ∧
      tree.Continues tree' ∧ P tree' e

/-- From one place of the tokens to another stands what may follow an expression directly. -/
def Follows (s : State) (optional : Bool) (pos pos' : Nat) (P Q : Tree → NodeId → Prop) : Prop :=
  ∀ k, (s.reading pos {}).reach ≤ k → ∀ start tree e, P tree e → ∃ e' tree',
    suffix? (Grammar.upTo k) true start e (s.reading pos tree) =
        (.ok (some (e', optional)), s.reading pos' tree') ∧
      tree.Continues tree' ∧ Q tree' e'

theorem Accesses.of_primary (hnew : (s.tokenAt pos).isKeyword .newWord = false)
    (h : ∀ g tree, ∃ e tree', primary g (s.reading pos tree) = (.ok e, s.reading (pos + 1) tree') ∧
      tree.Continues tree' ∧ P tree' e) : Accesses s false pos (pos + 1) P := by
  intro k hk tree
  obtain ⟨e, tree', hrun, hcontinues, hp⟩ := h (Grammar.upTo k) tree
  refine ⟨e, pos + 1, tree', 0, e, tree', ?_, Nat.lt_succ_self _, le_rfl, fun _ => rfl, hcontinues, hp⟩
  rw [leftHandSide_eq hnew, bind_of_ok hrun, suffixes_eq]

theorem Accesses.weaken {optional : Bool} (h : Accesses s optional pos pos' P)
    (himplies : ∀ t i, P t i → Q t i) : Accesses s optional pos pos' Q := by
  intro k hk tree
  obtain ⟨first, pos₁, tree₁, turns, e, tree', hrest⟩ := h k hk tree
  obtain ⟨hleft, hpos, hturns, hloop, hcontinues, hp⟩ := hrest
  exact ⟨first, pos₁, tree₁, turns, e, tree', hleft, hpos, hturns, hloop, hcontinues,
    himplies _ _ hp⟩

theorem Accesses.identifier (hname : s.tokenAt pos = .identifier name)
    (hnext : (s.tokenAt (pos + 1)).isKeyword .functionWord = false)
    (hsize : pos + 1 < s.tokens.size) :
    Accesses s false pos (pos + 1) fun t i => t.node i = .identifier { name } :=
  .of_primary (by rw [hname]; rfl) fun _ tree =>
    ⟨tree.size, _, primary_reading hname hnext hsize, .alloc (.refl _) _ _, tree.node_alloc_self _ _⟩

theorem Accesses.this (hthis : s.tokenAt pos = .keyword .thisWord)
    (hsize : pos + 1 < s.tokens.size) :
    Accesses s false pos (pos + 1) fun t i => t.node i = .thisExpression := by
  refine .of_primary (by rw [hthis]; rfl) fun g tree => ⟨tree.size,
    (tree.alloc .thisExpression (some (s.spanAt pos))).2, ?_, .alloc (.refl _) _ _,
    tree.node_alloc_self _ _⟩
  have hskip : skip (s.reading pos tree) = (.ok (), s.reading (pos + 1) tree) := by
    simp [skip, update, State.advance_reading hsize]
  rw [primary, bind_of_ok (currentSpan_apply _), bind_of_ok (current_apply s pos tree), hthis]
  change word .thisExpression (s.reading pos tree) = _
  rw [word, bind_of_ok (currentSpan_apply _), bind_of_ok hskip]
  rfl

theorem Accesses.follows {optional found : Bool} (h : Accesses s optional pos pos' P)
    (h' : Follows s found pos' stop P Q) (hlt : pos' < stop) :
    Accesses s (optional || found) pos stop Q := by
  intro k hk tree
  obtain ⟨first, pos₁, tree₁, turns, e, tree₂, hleft, hpos, hturns, hloop, hcontinues, hp⟩ :=
    h k hk tree
  have hreach := (State.reach_reading_le (s := s) (show pos ≤ pos' by omega) {} {}).trans hk
  obtain ⟨e', tree', hsuffix, hcontinues', hq⟩ := h' k hreach (s.spanAt pos) tree₂ e hp
  have hturn : turnSuffix (Grammar.upTo k) true (s.spanAt pos) (e, optional) (s.reading pos' tree₂) =
      (.ok (.next (e', optional || found)), s.reading stop tree') := by
    rw [turnSuffix, bind_of_ok hsuffix]
    rfl
  refine ⟨first, pos₁, tree₁, turns + 1, e', tree', hleft, hpos, by omega, fun fuel => ?_,
    hcontinues.trans hcontinues', hq⟩
  rw [show fuel + (turns + 1) = fuel + 1 + turns by omega, hloop, loopUpTo, bind_of_ok hturn]

/-- An access of a property by its name. -/
def Accessed (optional : Bool) (name : String) (P : Tree → NodeId → Prop) (t : Tree) (i : NodeId) :
    Prop :=
  ∃ object property, t.node i = .memberExpression { object, property, computed := false, optional } ∧
    t.node property = .identifier { name } ∧ P t object

theorem lasting_accessed (optional : Bool) (name : String) (h : Lasting P) :
    Lasting (Accessed optional name P) := by
  rintro t t' i ⟨object, property, hnode, hproperty, hp⟩ hsize hsame
  exact ⟨object, property, Tree.node_of_kept hsame hnode (by simp [Node.missing]),
    Tree.node_of_kept hsame hproperty (by simp [Node.missing]), h _ _ _ hp hsize hsame⟩

theorem propertyIdentifier_reading (hname : names (s.tokenAt pos) = some name)
    (hsize : pos + 1 < s.tokens.size) (tree : Tree) :
    propertyIdentifier (s.reading pos tree) = (.ok tree.size, s.reading (pos + 1)
      (tree.alloc (.identifier { name }) (some (s.spanAt pos))).2) := by
  have hskip : skip (s.reading pos tree) = (.ok (), s.reading (pos + 1) tree) := by
    simp [skip, update, State.advance_reading hsize]
  rw [propertyIdentifier, bind_of_ok (currentSpan_apply _), bind_of_ok (current_apply s _ tree)]
  generalize s.tokenAt pos = t at hname
  cases t with
  | identifier other =>
    cases hname
    change (skip >>= _) (s.reading pos tree) = _
    rw [bind_of_ok hskip]
    rfl
  | keyword word =>
    cases hname
    change (skip >>= _) (s.reading pos tree) = _
    rw [bind_of_ok hskip]
    rfl
  | _ => cases hname

/-- The mark of an access by a name. -/
def dotMark (optional : Bool) : Punct := if optional then .questionDot else .dot

theorem Follows.access {optional : Bool} (hdot : s.tokenAt pos = .punct (dotMark optional))
    (hname : names (s.tokenAt (pos + 1)) = some name) (hsize : pos + 2 < s.tokens.size)
    (hlasting : Lasting P) : Follows s optional pos (pos + 2) P (Accessed optional name P) := by
  intro k hk start tree e hp
  have hskip : skip (s.reading pos tree) = (.ok (), s.reading (pos + 1) tree) := by
    simp [skip, update, State.advance_reading (Nat.lt_of_succ_lt hsize)]
  let named := (tree.alloc (.identifier { name }) (some (s.spanAt (pos + 1)))).2
  have hproperty : propertyIdentifier (s.reading (pos + 1) tree) =
      (.ok tree.size, s.reading (pos + 2) named) := propertyIdentifier_reading hname hsize tree
  let node : Node := .memberExpression { object := e, property := tree.size, computed := false, optional }
  let span := (s.reading (pos + 2) named).spanFrom start
  have hnamed : tree.Continues named := .alloc (.refl _) _ _
  have hlast : named.Continues (named.alloc node (some span)).2 := .alloc (.refl _) _ _
  refine ⟨named.size, (named.alloc node (some span)).2, ?_, hnamed.trans hlast, e, tree.size,
    named.node_alloc_self _ _, ?_, hlasting.continues hp (hnamed.trans hlast)⟩
  · rw [suffix?, bind_of_ok (current_apply s pos tree), hdot]
    cases optional with
    | false =>
      change (skip >>= _) (s.reading pos tree) = _
      rw [bind_of_ok hskip, bind_of_ok hproperty]
      rfl
    | true =>
      change (skip >>= _) (s.reading pos tree) = _
      rw [bind_of_ok hskip, bind_of_ok (current_apply s _ tree)]
      generalize s.tokenAt (pos + 1) = t at hname
      cases t with
      | identifier | keyword =>
        change (propertyIdentifier >>= _) (s.reading (pos + 1) tree) = _
        rw [bind_of_ok hproperty]
        rfl
      | _ => cases hname
  · exact (hlast.node_of_lt (by simp [named])).trans (tree.node_alloc_self _ _)

/-- An optional access or call makes a chain of the whole. -/
def Chained (optional : Bool) (P : Tree → NodeId → Prop) (t : Tree) (i : NodeId) : Prop :=
  if optional then ∃ e, t.node i = .chainExpression e ∧ P t e else P t i

theorem lasting_chained (optional : Bool) (h : Lasting P) : Lasting (Chained optional P) := by
  cases optional with
  | false => exact h
  | true =>
    rintro t t' i ⟨e, hnode, hp⟩ hsize hsame
    exact ⟨e, Tree.node_of_kept hsame hnode (by simp [Node.missing]), h _ _ _ hp hsize hsame⟩

/-- Where nothing more follows directly, what is accessed and called is an operand. -/
theorem Accesses.unary {optional : Bool} (h : Accesses s.deeper optional pos pos' P)
    (hbegins : BeginsOperand (s.tokenAt pos)) (hdepth : s.depth < maxDepth)
    (hsize : pos' ≤ s.tokens.size) (hleaves : leavesOperand (s.tokenAt pos') = true)
    (hupdate : UpdateOperator.ofToken? (s.tokenAt pos') = none) (hlasting : Lasting P) :
    Makes unary s pos pos' (Chained optional P) := by
  intro k hk tree
  have hreach := (State.reach_deeper_le (s := s) (le_refl pos) {} {}).trans hk
  obtain ⟨first, pos₁, tree₁, turns, e, tree', hleft, hpos, hturns, hloop, hcontinues, hp⟩ :=
    h k hreach tree
  have hstop : turnSuffix (Grammar.upTo k) true (s.spanAt pos) (e, optional)
      (s.deeper.reading pos' tree') = (.ok (.stop (e, optional)), s.deeper.reading pos' tree') :=
    turnSuffix_stop (s := s.deeper) hleaves
  obtain ⟨fuel, hfuel⟩ : ∃ fuel, 4 * s.tokens.size + 1 = fuel + 1 + turns :=
    ⟨4 * s.tokens.size - turns, by omega⟩
  have hrun : loop (first, false) (turnSuffix (Grammar.upTo k) true (s.spanAt pos))
      (s.deeper.reading pos₁ tree₁) = (.ok (e, optional), s.deeper.reading pos' tree') := by
    change loopUpTo _ (4 * s.tokens.size + 1) _ _ = _
    rw [hfuel]
    refine (hloop (fuel + 1)).trans ?_
    rw [loopUpTo]
    exact bind_of_ok hstop
  have hchain : ∃ i tree'', chained (s.spanAt pos) (e, optional) (s.deeper.reading pos' tree') =
      (.ok i, s.deeper.reading pos' tree'') ∧ tree'.Continues tree'' ∧ Chained optional P tree'' i := by
    cases optional with
    | false => exact ⟨e, tree', rfl, .refl _, hp⟩
    | true =>
      have hlast := (Tree.Continues.refl tree').alloc (.chainExpression e)
        (some ((s.deeper.reading pos' tree').spanFrom (s.spanAt pos)))
      exact ⟨tree'.size, _, rfl, hlast, e, tree'.node_alloc_self _ _, hlasting.continues hp hlast⟩
  obtain ⟨i, tree'', hchain, hcontinues', hp'⟩ := hchain
  have hleft' : leftHandSide (Grammar.upTo k) (s.deeper.reading pos tree) =
      (.ok i, s.deeper.reading pos' tree'') := by
    refine hleft.trans ((bind_of_ok hrun).trans hchain)
  exact ⟨i, tree'', unary_of_leftHandSide hbegins hdepth hleft' hupdate, hcontinues.trans hcontinues', hp'⟩

/-- What is all of a text is read as far as an access in front of which the text stands, with its own
accesses and calls, if none of these is optional. -/
theorem Embedded.accesses {e : Embedded} {depth n ceiling : Nat} {a : NodeId} {s' : State}
    (h : ReadAlone leftHandSide n (e.stateAlone depth) a s') (hangles : e.Angleless)
    (huncut : ∀ b ∈ e.tokens .right, afterClosingAngle b.1 = none) (hlooser : e.Looser ceiling)
    (hchain : ∀ inner, s'.tree.node a ≠ .chainExpression inner) :
    Accesses (e.stateAmid depth) false e.front.length (e.front.length + e.inner.length)
      fun t id => t.SameBelow id s'.tree a := by
  intro k hk tree
  have hp := paired_leftHandSide
  have htwin := twin (balanced h hp) hangles hlooser depth tree
  have hle : (e.stateAlone depth).reach ≤ k := htwin.reach_le.trans hk
  obtain ⟨levels, hlevels⟩ :=
    Nat.exists_eq_add_one_of_ne_zero (State.reach_pos (htwin.pos_lt_size .left)).ne'
  have hlevels : (e.stateAlone depth).reach = levels + 1 := hlevels
  have hg := grammars_upTo levels (n := Side.pick n k) fun i => by
    cases i with
    | left => exact hlevels ▸ h.reach_le
    | right => exact hlevels ▸ hle
  let m : Mark := ⟨levels + 1, (e.stateAlone depth).steps, 0, false, fun _ => True⟩
  have hm : m.Holds (e.passage ceiling tree.size) (e.stateAlone depth) := by
    refine ⟨hlevels.le, le_rfl, ?_, nofun, trivial⟩
    rintro f ⟨⟩
    rfl
  let isNew := (e.stateAlone depth).current.isKeyword .newWord
  have hrun := h.run
  rw [leftHandSide_apply] at hrun
  obtain ⟨first, s₁, hfirst, hrun⟩ := exists_of_bind hrun
  rw [suffixes_eq] at hrun
  obtain ⟨⟨id, inChain⟩, s₂, hsuffixes, hrun⟩ := exists_of_bind hrun
  obtain ⟨rfl, rfl, rfl⟩ : inChain = false ∧ id = a ∧ s₂ = s' := by
    cases inChain with
    | false =>
      cases hrun
      exact ⟨rfl, rfl, rfl⟩
    | true =>
      cases hrun
      exact (hchain id (s₂.tree.node_alloc_self _ _)).elim
  cases agrees_head hg (m := m) le_rfl isNew _ htwin hm with
  | error _ r hhead _ => cases (hhead .left).symm.trans hfirst
  | value b r hhead hafter hmark =>
    obtain ⟨rfl, rfl⟩ : b = first ∧ r .left = s₁ := by
      have heq := (hhead .left).symm.trans hfirst
      rw [Prod.mk.injEq, Except.ok.injEq] at heq
      exact heq
    let start : Side → State :=
      Side.pick (e.stateAlone depth) ((e.stateAmid depth).reading e.front.length tree)
    have hgrown : ∀ i, Grown (start i) (r i) false [(e.passage ceiling tree.size).id i b] := by
      intro i
      have hrun : head isNew (Grammar.upTo (Side.pick n k i)) (start i) = (.ok _, r i) := hhead i
      have hleads := grows_head (Grammar.sound_upTo (Side.pick n k i)) isNew (start i)
      rwa [Leads, hrun] at hleads
    have huncut' : ∀ i, ∀ a ∈ (start i).tokens, afterClosingAngle a.1 = none := by
      intro i
      cases i with
      | left => exact e.uncut_left huncut
      | right => exact huncut
    obtain ⟨turns, r', hend, htwin', hpos, hframe, hloop⟩ :=
      hafter.accesses hg (m := m.step) (Nat.sub_le _ _) rfl hmark huncut' hgrown hsuffixes
    have hright := (hgrown .right).frame.eq_reading huncut
    have hright' := (hframe .right).eq_reading huncut
    have hlast : (r' .left).pos = e.inner.length := by
      have hsucc := h.pos_succ hp
      have hsize : (e.stateAlone depth).tokens.size = e.inner.length + 1 := by
        simp [stateAlone, tokens]
      rw [← hend] at hsucc
      omega
    have hpos' : (r' .right).pos = e.front.length + e.inner.length := by
      rw [htwin'.pos .right, hlast]
      rfl
    have hmoved : 0 < (r .left).pos := by
      have htokens : (r .left).tokens = (e.stateAlone depth).tokens :=
        (hgrown .left).frame.tokens.eq_of_uncut (e.uncut_left huncut)
      have hfewer : (r .left).steps ≤ (e.stateAlone depth).steps - 1 := hmark.steps
      have hsteps := State.steps_pos (htwin.pos_lt_size .left)
      have hlt := State.pos_lt_of_steps_lt htokens (by
        change 0 < (e.stateAlone depth).steps at hsteps
        omega)
      exact hlt
    have hroot : id < s₂.tree.size := by
      refine (grows_leftHandSide (Grammar.sound_upTo n)).lt_size ?_ h.run
      exact State.ready_of_placed (tokenize_placed e.alone) rfl rfl
    have hnew : ((e.stateAmid depth).reading e.front.length tree).current.isKeyword .newWord = isNew :=
      (takes_keyword _ m .newWord).alike htwin hm
    have hhead' : head isNew (Grammar.upTo k) ((e.stateAmid depth).reading e.front.length tree) =
        (.ok (tree.size + b), r .right) := hhead .right
    have hturns : (r .right).pos + turns ≤ e.front.length + e.inner.length := by
      rw [hafter.pos .right]
      change e.front.length + (r .left).pos + turns ≤ _
      omega
    have hfront : e.front.length < (r .right).pos := by
      rw [hafter.pos .right]
      exact Nat.lt_add_of_pos_right hmoved
    refine ⟨tree.size + b, (r .right).pos, (r .right).tree, turns, tree.size + id, (r' .right).tree, ?_,
      hfront, hturns, fun fuel => ?_, (hframe .right).tree.toContinues, ?_⟩
    · rw [leftHandSide_apply, hnew, bind_of_ok hhead', suffixes_eq]
      exact congrArg _ hright
    · have hloop := hloop fuel
      rw [hright, hright', hpos'] at hloop
      exact hloop
    · rw [← hend]
      exact Tree.sameBelow_of_twin htwin'.tree (hend ▸ hroot)

end Parse
end ScriptLint
