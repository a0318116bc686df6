import ScriptLint.Proofs.Parse.Branches

namespace ScriptLint

namespace Tree

/-- Below a node of a tree stands what stands below a node of another one, as many places later. -/
def SameBelow (t : Tree) (id : NodeId) (part : Tree) (root : NodeId) : Prop :=
  ∃ base, id = base + root ∧ root < part.size ∧ base + part.size ≤ t.size ∧
    ∀ i < part.size, t.node (base + i) = (part.node i).renumber (base + ·)

/-- A conditional that `a` decides. What it decides between is what stands below the nodes of two
trees, and the first one is in parentheses. -/
def ShowsConditional (t : Tree) (id : NodeId) (consequent : Tree) (i : NodeId) (alternate : Tree)
    (j : NodeId) : Prop :=
  ∃ test parenthesis inner other,
    t.node id = .conditionalExpression test parenthesis other ∧
    t.node test = .identifier { name := "a" } ∧
    t.node parenthesis = .parenthesizedExpression inner ∧
    t.SameBelow inner consequent i ∧ t.SameBelow other alternate j

/-- A statement that assigns such a conditional to `x`. -/
def AssignsConditional (t : Tree) (statement : NodeId) (consequent : Tree) (i : NodeId)
    (alternate : Tree) (j : NodeId) : Prop :=
  ∃ assigned target conditional,
    t.node statement = .expressionStatement assigned ∧
    t.node assigned = .assignmentExpression .assign target conditional ∧
    t.node target = .identifier { name := "x" } ∧
    t.ShowsConditional conditional consequent i alternate j

variable {t t' part : Tree} {id root : NodeId}

theorem SameBelow.congr (h : t.SameBelow id part root) (hsize : t.size ≤ t'.size)
    (hnode : ∀ i < t.size, t'.node i = t.node i) : t'.SameBelow id part root := by
  obtain ⟨base, hid, hroot, hinside, hsame⟩ := h
  refine ⟨base, hid, hroot, hinside.trans hsize, fun i hi => ?_⟩
  rw [hnode _ ((Nat.add_lt_add_left hi base).trans_le hinside), hsame i hi]

theorem SameBelow.continues (h : t.SameBelow id part root) (hcontinues : t.Continues t') :
    t'.SameBelow id part root :=
  h.congr hcontinues.size_le fun _ => hcontinues.node_of_lt

theorem sameBelow_of_twin {base : Nat} (h : Twin true base part t) (hroot : root < part.size) :
    t.SameBelow (base + root) part root := by
  refine ⟨base, rfl, hroot, h.size.ge, fun i _ => ?_⟩
  rcases h.node i with heq | ⟨hfalse, -⟩
  · exact heq
  · cases hfalse

/-- A node that is there is the same one in a tree that keeps all nodes. -/
theorem node_of_kept {node : Node} (hnode : ∀ i < t.size, t'.node i = t.node i)
    (heq : t.node id = node) (hne : node ≠ .missing) : t'.node id = node :=
  (hnode id (lt_size_of_node_ne (heq ▸ hne))).trans heq

variable {consequent alternate : Tree} {i j : NodeId}

theorem ShowsConditional.congr (h : t.ShowsConditional id consequent i alternate j)
    (hsize : t.size ≤ t'.size) (hnode : ∀ i < t.size, t'.node i = t.node i) :
    t'.ShowsConditional id consequent i alternate j := by
  obtain ⟨test, parenthesis, inner, other, hconditional, htest, hparenthesis, hinner, hother⟩ := h
  exact ⟨test, parenthesis, inner, other, node_of_kept hnode hconditional (by simp [Node.missing]),
    node_of_kept hnode htest (by simp [Node.missing]),
    node_of_kept hnode hparenthesis (by simp [Node.missing]), hinner.congr hsize hnode,
    hother.congr hsize hnode⟩

theorem AssignsConditional.congr (h : t.AssignsConditional id consequent i alternate j)
    (hsize : t.size ≤ t'.size) (hnode : ∀ i < t.size, t'.node i = t.node i) :
    t'.AssignsConditional id consequent i alternate j := by
  obtain ⟨assigned, target, conditional, hstatement, hassigned, htarget, hconditional⟩ := h
  exact ⟨assigned, target, conditional, node_of_kept hnode hstatement (by simp [Node.missing]),
    node_of_kept hnode hassigned (by simp [Node.missing]),
    node_of_kept hnode htarget (by simp [Node.missing]), hconditional.congr hsize hnode⟩

end Tree

namespace Parse

open ScriptLint.Parser

variable {α : Type} {g : Grammar} {s : State} {pos pos' stop : Nat} {tree tree' tree'' : Tree}
  {id test right : NodeId} {x : String}

theorem withIn_reading {p : Parser α} {a : α} (hallow : s.allowIn = true)
    (hrun : p (s.reading pos tree) = (.ok a, s.reading pos' tree')) :
    withIn true p (s.reading pos tree) = (.ok a, s.reading pos' tree') := by
  have hsame : ∀ pos tree, { s.reading pos tree with allowIn := true } = s.reading pos tree :=
    fun pos tree => by
      rw [← hallow]
      rfl
  have hback : ∀ pos tree, { s.reading pos tree with allowIn := s.allowIn } = s.reading pos tree :=
    fun _ _ => rfl
  simp only [withIn, hsame, hrun]
  rw [← hback pos' tree']
  rfl

/-- An operand that no operator follows is all that is read. -/
theorem binary_reading {least : Precedence} (hallow : s.allowIn = true)
    (hrun : unary g (s.reading pos tree) = (.ok id, s.reading pos' tree'))
    (hname : (s.tokenAt pos').isName "as" = false)
    (hnone : InfixOperator.ofToken? true (s.tokenAt pos') = none) :
    Parse.binary g least (s.reading pos tree) = (.ok id, s.reading pos' tree') := by
  rw [Parse.binary, bind_of_ok (currentSpan_apply _), bind_of_ok hrun]
  exact loop_of_stop (turnBinary_none hallow hname hnone)

/-- A name that is left at once. -/
theorem binary_name (hallow : s.allowIn = true) (hdepth : s.depth < maxDepth)
    (hname : s.tokenAt pos = .identifier x) (hnext : LeavesName (s.tokenAt (pos + 1)))
    (hnone : InfixOperator.ofToken? true (s.tokenAt (pos + 1)) = none)
    (hsize : pos + 1 < s.tokens.size) (tree : Tree) :
    Parse.binary g .nullCoalescing (s.reading pos tree) = (.ok tree.size, s.reading (pos + 1)
      (tree.alloc (.identifier { name := x }) (some (s.spanAt pos))).2) := by
  refine binary_reading hallow ?_ (hnext.isName "as") hnone
  exact nested_reading hdepth (unaryOperand_reading hname hnext hsize)

theorem parenthesized_reading (hallow : s.allowIn = true)
    (hopen : s.tokenAt pos = .punct .leftParen) (hsize : pos + 1 < s.tokens.size)
    (hinside : expression g (s.reading (pos + 1) tree) = (.ok id, s.reading pos' tree'))
    (hclose : s.tokenAt pos' = .punct .rightParen) (hsize' : pos' + 1 < s.tokens.size) :
    ∃ span, parenthesized g (s.reading pos tree) = (.ok tree'.size,
      s.reading (pos' + 1) (tree'.alloc (.parenthesizedExpression id) (some span)).2) := by
  refine ⟨(s.reading (pos' + 1) tree').spanFrom (s.reading pos tree).currentSpan, ?_⟩
  rw [parenthesized, bind_of_ok (currentSpan_apply _), bind_of_ok (expect_reading hopen hsize),
    bind_of_ok (withIn_reading hallow hinside), bind_of_ok (expect_reading hclose hsize')]
  rfl

/-- An expression in parentheses that is left at once. -/
theorem unary_parenthesized (hallow : s.allowIn = true) (hdepth : s.depth < maxDepth)
    (hopen : s.tokenAt pos = .punct .leftParen) (hsize : pos + 1 < s.tokens.size)
    (hinside : expression g (State.reading { s with depth := s.depth + 1 } (pos + 1) tree) =
      (.ok id, State.reading { s with depth := s.depth + 1 } pos' tree'))
    (hclose : s.tokenAt pos' = .punct .rightParen) (hsize' : pos' + 1 < s.tokens.size)
    (hoperand : leavesOperand (s.tokenAt (pos' + 1)) = true)
    (hupdate : UpdateOperator.ofToken? (s.tokenAt (pos' + 1)) = none) :
    ∃ span, unary g (s.reading pos tree) = (.ok tree'.size,
      s.reading (pos' + 1) (tree'.alloc (.parenthesizedExpression id) (some span)).2) := by
  -- all is read one level deeper, where the tokens are the same
  let d : State := { s with depth := s.depth + 1 }
  have hopen : d.tokenAt pos = .punct .leftParen := hopen
  have hoperand : leavesOperand (d.tokenAt (pos' + 1)) = true := hoperand
  have hupdate : UpdateOperator.ofToken? (d.tokenAt (pos' + 1)) = none := hupdate
  obtain ⟨span, hparenthesized⟩ :=
    parenthesized_reading (s := d) hallow hopen hsize hinside hclose hsize'
  refine ⟨span, nested_reading hdepth ?_⟩
  have hnew : checkKeyword .newWord (d.reading pos tree) = (.ok false, d.reading pos tree) := by
    simp [checkKeyword, ask, hopen, Token.isKeyword]
  have hawait : eatKeyword .awaitWord (d.reading pos tree) = (.ok false, d.reading pos tree) := by
    simp [eatKeyword, eatIf, hopen, Token.isKeyword]
  have hprimary : primary g (d.reading pos tree) = parenthesized g (d.reading pos tree) := by
    rw [primary, bind_of_ok (currentSpan_apply _), bind_of_ok (current_apply d pos tree), hopen]
  have hlhs : leftHandSide g (d.reading pos tree) = (.ok tree'.size,
      d.reading (pos' + 1) (tree'.alloc (.parenthesizedExpression id) (some span)).2) := by
    rw [leftHandSide, bind_of_ok (currentSpan_apply _), bind_of_ok hnew]
    change (primary g >>= _) (d.reading pos tree) = _
    rw [bind_of_ok (hprimary.trans hparenthesized)]
    exact suffixes_reading hoperand
  rw [unaryOperand, bind_of_ok (currentSpan_apply _), bind_of_ok (current_apply d pos tree), hopen]
  change (eatKeyword .awaitWord >>= _) (d.reading pos tree) = _
  rw [bind_of_ok hawait]
  change postfixExpression g (d.reading pos tree) = _
  rw [postfixExpression, bind_of_ok (currentSpan_apply _), bind_of_ok hlhs,
    bind_of_ok (current_apply d _ _), hupdate]
  rfl

/-- A colon behind the parenthesis that closes this one may begin the return type of an arrow
function. -/
theorem arrowGuess_parenthesis {close : Nat} (hopen : s.tokenAt pos = .punct .leftParen)
    (hmatching : s.matchingClose pos = some close)
    (hcolon : s.tokenAt (close + 1) = .punct .colon) :
    ask arrowGuess (s.reading pos tree) = (.ok .maybe, s.reading pos tree) := by
  have hasync : isAsync (s.reading pos tree) = false := by simp [isAsync, hopen, Token.isName]
  have hopen : (s.reading pos tree).tokenAt pos = .punct .leftParen := hopen
  have hmatching : (s.reading pos tree).matchingClose pos = some close := hmatching
  have hcolon : (s.reading pos tree).tokenAt (close + 1) = .punct .colon := hcolon
  have hguess : arrowGuess (s.reading pos tree) = .maybe := by
    change guessAt (s.reading pos tree)
      (if isAsync (s.reading pos tree) then pos + 1 else pos) = .maybe
    rw [hasync, if_neg Bool.false_ne_true, guessAt, hopen]
    change guessAfterParen _ pos = _
    rw [guessAfterParen_eq, hmatching, Option.elim_some, hcolon]
    rfl
  simp [ask, hguess]

theorem eat_of_isPunct {mark : Punct} (htoken : s.tokenAt pos = .punct mark)
    (hsize : pos + 1 < s.tokens.size) :
    eat mark (s.reading pos tree) = (.ok true, s.reading (pos + 1) tree) := by
  simp [eat, eatIf, htoken, Token.isPunct, State.advance_reading hsize]

theorem conditional_branches (hallow : s.allowIn = true) {consequent alternate : NodeId}
    {colon stop : Nat} {tree₁ tree₂ tree₃ : Tree}
    (htest : Parse.binary g .nullCoalescing (s.reading pos tree) = (.ok test, s.reading pos' tree₁))
    (hquestion : s.tokenAt pos' = .punct .question) (hsize : pos' + 1 < s.tokens.size)
    (hconsequent : g.assignment (s.reading (pos' + 1) tree₁) =
      (.ok consequent, s.reading colon tree₂))
    (hcolon : s.tokenAt colon = .punct .colon) (hsize' : colon + 1 < s.tokens.size)
    (halternate : g.assignment (s.reading (colon + 1) tree₂) =
      (.ok alternate, s.reading stop tree₃)) :
    ∃ span, conditional g (s.reading pos tree) = (.ok tree₃.size, s.reading stop
      (tree₃.alloc (.conditionalExpression test consequent alternate) (some span)).2) := by
  refine ⟨(s.reading stop tree₃).spanFrom (s.reading pos tree).currentSpan, ?_⟩
  rw [conditional, bind_of_ok (currentSpan_apply _), bind_of_ok htest,
    bind_of_ok (eat_of_isPunct hquestion hsize)]
  change (withIn true g.assignment >>= _) (s.reading (pos' + 1) tree₁) = _
  rw [bind_of_ok (withIn_reading hallow hconsequent), bind_of_ok (expect_reading hcolon hsize'),
    bind_of_ok halternate]
  rfl

/-- A name is its own pattern. -/
theorem toPattern_name {fuel : Nat} (hname : tree.node id = .identifier { name := x }) :
    tree.toPattern fuel id = tree := by
  cases fuel with
  | zero => rfl
  | succ fuel => simp [Tree.toPattern, hname]

/-- Something is assigned to a name. -/
theorem plainAssignment_assign (hbegin : (s.tokenAt pos).isKeyword .yieldWord = false)
    (hleft : conditional g (s.reading pos tree) = (.ok id, s.reading pos' tree'))
    (hname : tree'.node id = .identifier { name := x })
    (hequal : s.tokenAt pos' = .punct .equal) (hsize : pos' + 1 < s.tokens.size)
    (hright : g.assignment (s.reading (pos' + 1) tree') = (.ok right, s.reading stop tree'')) :
    ∃ span, plainAssignment g (s.reading pos tree) = (.ok tree''.size, s.reading stop
      (tree''.alloc (.assignmentExpression .assign id right) (some span)).2) := by
  have hyield : checkKeyword .yieldWord (s.reading pos tree) = (.ok false, s.reading pos tree) := by
    simp [checkKeyword, ask, hbegin]
  have hskip : skip (s.reading pos' tree') = (.ok (), s.reading (pos' + 1) tree') := by
    simp [skip, update, State.advance_reading hsize]
  have hpattern : toPattern id (s.reading (pos' + 1) tree') =
      (.ok (), s.reading (pos' + 1) tree') := by
    have hsame : tree'.toPattern tree'.size id = tree' := toPattern_name hname
    simp only [toPattern, update, State.reading, hsame]
  refine ⟨(s.reading stop tree'').spanFrom (s.reading pos tree).currentSpan, ?_⟩
  rw [plainAssignment, bind_of_ok hyield]
  change (Parser.currentSpan >>= _) (s.reading pos tree) = _
  rw [bind_of_ok (currentSpan_apply _), bind_of_ok hleft, bind_of_ok (current_apply s _ _), hequal]
  change (skip >>= _) (s.reading pos' tree') = _
  rw [bind_of_ok hskip]
  change (toPattern id >>= _) (s.reading (pos' + 1) tree') = _
  rw [bind_of_ok hpattern]
  change (g.assignment >>= _) (s.reading (pos' + 1) tree') = _
  rw [bind_of_ok hright]
  rfl

namespace Branches

variable {b : Branches} {depth n n' k : Nat} {i j : NodeId} {s' : State}

/-- No arrow stands after the parentheses if none stands in the alternate. -/
theorem tokenAt_ne_arrow (harrow : ∀ a ∈ b.alternate.inner, a.1.isPunct .arrow = false) {p : Nat}
    (hp : b.closing < p) : ((b.state depth).tokenAt p).isPunct .arrow = false := by
  obtain ⟨q, rfl⟩ : ∃ q, p = b.closing + q := ⟨p - b.closing, by omega⟩
  rw [b.tokenAt_after]
  cases hget : (Token.punct .rightParen :: .punct .colon ::
      ((tokensMovedTo b.alternate.place b.alternate.inner).map Prod.fst ++
        [.punct .semicolon, .eof]))[q]? with
  | none => rfl
  | some t =>
    have hmem := List.mem_of_getElem? hget
    simp only [List.mem_cons, List.mem_append, tokensMovedTo_eq_map, List.map_map, List.mem_map,
      Function.comp_apply, List.not_mem_nil, or_false] at hmem
    rcases hmem with rfl | rfl | ⟨a, ha, rfl⟩ | rfl | rfl
    · rfl
    · rfl
    · have hnot := harrow a ha
      rw [Option.getD_some]
      generalize a.1 = t at hnot
      cases t <;> exact hnot
    · rfl
    · rfl

/-- The parentheses are read as what they are: nothing comes of the arrow function that is tried. -/
theorem assignment_consequent (h : Unangled (b.consequent.inner ++ b.alternate.inner))
    (harrow : ∀ a ∈ b.alternate.inner, a.1.isPunct .arrow = false)
    (halone : ReadAlone expression n (b.consequent.stateAlone depth) i s')
    (hreach : ((b.state 4).reading 4 tree).reach ≤ k)
    (hinside : expression (Grammar.upTo k) ((b.state 5).reading 5 tree) =
      (.ok id, (b.state 5).reading b.closing tree')) :
    ∃ span, assignment (Grammar.upTo k) ((b.state 3).reading 4 tree) = (.ok tree'.size,
      (b.state 3).reading (b.closing + 1)
        (tree'.alloc (.parenthesizedExpression id) (some span)).2) := by
  have hsize : (b.state 4).tokens.size = b.ending + 2 := b.size 4
  have hclosing := b.closing_ge
  have hending := b.ending_ge
  have hopen : (b.state 4).tokenAt 4 = .punct .leftParen := b.tokenAt_front (by decide)
  have hcolon : (b.state 4).tokenAt (b.closing + 1) = .punct .colon := b.tokenAt_colon
  have henclosed : Enclosed (b.state 4) 4 b.closing := enclosed h paired_expression halone
  have hattempt : attempt (arrowFunction (Grammar.upTo k)) ((b.state 4).reading 4 tree) =
      (.ok none, (b.state 4).reading 4 tree) :=
    henclosed.attempt_arrowFunction hreach fun _ => tokenAt_ne_arrow harrow
  have hguess : ask arrowGuess ((b.state 4).reading 4 tree) =
      (.ok .maybe, (b.state 4).reading 4 tree) :=
    arrowGuess_parenthesis hopen henclosed.matchingClose hcolon
  obtain ⟨span, hunary⟩ := unary_parenthesized (s := b.state 4) (g := Grammar.upTo k) rfl
    (show 4 < maxDepth by decide) hopen (by omega) hinside b.tokenAt_close (by omega)
    (by rw [hcolon]; rfl) (by rw [hcolon]; rfl)
  have hbinary : Parse.binary (Grammar.upTo k) .nullCoalescing ((b.state 4).reading 4 tree) = _ :=
    binary_reading rfl hunary (by rw [hcolon]; rfl) (by rw [hcolon]; rfl)
  have hplain := plainAssignment_reading (by rw [hopen]; rfl)
    (conditional_reading hbinary (by rw [hcolon]; rfl)) (by rw [hcolon]; rfl)
  refine ⟨span, nested_reading (show 3 < maxDepth by decide) ?_⟩
  change (ask arrowGuess >>= _) ((b.state 4).reading 4 tree) = _
  rw [bind_of_ok hguess]
  change (attempt (arrowFunction (Grammar.upTo k)) >>= _) ((b.state 4).reading 4 tree) = _
  rw [bind_of_ok hattempt]
  exact hplain

theorem expression_consequent (h : Unangled (b.consequent.inner ++ b.alternate.inner))
    (halone : ReadAlone expression n (b.consequent.stateAlone 5) i s')
    (hreach : (b.consequent.stateAlone 5).reach ≤ k) (tree : Tree) :
    ∃ tree', expression (Grammar.upTo k) ((b.state 5).reading 5 tree) =
        (.ok (tree.size + i), (b.state 5).reading b.closing tree') ∧
      tree.Continues tree' ∧ Tree.Twin true tree.size s'.tree tree' := by
  have huncut : ∀ a ∈ (b.state 5).tokens, afterClosingAngle a.1 = none := uncut h
  have hread := Embedded.read (fun _ => rfl) paired_expression halone (angleless_consequent h) huncut (b.looser_consequent _)
    hreach tree
  rwa [b.length_front] at hread

theorem assignment_alternate (h : Unangled (b.consequent.inner ++ b.alternate.inner))
    (halone : ReadAlone assignment n (b.alternate.stateAlone 3) j s')
    (hreach : (b.alternate.stateAlone 3).reach ≤ k) (tree : Tree) :
    ∃ tree', assignment (Grammar.upTo k) ((b.state 3).reading (b.closing + 2) tree) =
        (.ok (tree.size + j), (b.state 3).reading b.ending tree') ∧
      tree.Continues tree' ∧ Tree.Twin true tree.size s'.tree tree' := by
  have huncut : ∀ a ∈ (b.state 3).tokens, afterClosingAngle a.1 = none := uncut h
  rw [state_eq_alternate] at huncut ⊢
  have hread := Embedded.read (fun _ => rfl) paired_assignment halone (angleless_alternate h) huncut (b.looser_alternate _)
    hreach tree
  rwa [b.length_front_alternate] at hread

variable (h : Unangled (b.consequent.inner ++ b.alternate.inner))
  (harrow : ∀ a ∈ b.alternate.inner, a.1.isPunct .arrow = false) {s s' : State}
  (hconsequent : ReadAlone expression n (b.consequent.stateAlone 5) i s)
  (halternate : ReadAlone assignment n' (b.alternate.stateAlone 3) j s')
  (hreach : (b.consequent.stateAlone 5).reach ≤ k) (hreach' : (b.alternate.stateAlone 3).reach ≤ k)
  (hroom : ∀ tree, ((b.state 4).reading 4 tree).reach ≤ k)
  (hroot : i < s.tree.size) (hroot' : j < s'.tree.size)

include h harrow hconsequent halternate hreach hreach' hroom hroot hroot'

/-- The conditional is read with the trees of its branches. -/
theorem assignment_conditional (tree : Tree) : ∃ id tree',
    assignment (Grammar.upTo (k + 1)) ((b.state 2).reading 2 tree) =
        (.ok id, (b.state 2).reading b.ending tree') ∧
      tree.Continues tree' ∧ tree'.ShowsConditional id s.tree i s'.tree j := by
  have hclosing := b.closing_ge
  have hending := b.ending_ge
  have hsize : (b.state 3).tokens.size = b.ending + 2 := b.size 3
  have ha : (b.state 3).tokenAt 2 = .identifier "a" := b.tokenAt_front (by decide)
  have hquestion : (b.state 3).tokenAt 3 = .punct .question := b.tokenAt_front (by decide)
  have hstop : (b.state 3).tokenAt b.ending = .punct .semicolon := b.tokenAt_stop
  have hleaves : LeavesName ((b.state 3).tokenAt 3) := by
    rw [hquestion]
    exact ⟨rfl, rfl, rfl, fun _ => rfl, rfl, rfl, rfl⟩
  have htest := binary_name (g := Grammar.upTo (k + 1)) (s := b.state 3) rfl
    (show 3 < maxDepth by decide) ha hleaves (by rw [hquestion]; rfl) (by omega) tree
  let tree₁ := (tree.alloc (.identifier { name := "a" }) (some ((b.state 3).spanAt 2))).2
  obtain ⟨tree₂, hinside, hcontinues₂, htwin₂⟩ := expression_consequent h hconsequent hreach tree₁
  obtain ⟨span, hparenthesized⟩ :=
    assignment_consequent h harrow hconsequent (hroom tree₁) hinside
  let tree₃ := (tree₂.alloc (.parenthesizedExpression (tree₁.size + i)) (some span)).2
  obtain ⟨tree₄, hother, hcontinues₄, htwin₄⟩ := assignment_alternate h halternate hreach' tree₃
  obtain ⟨span', hconditional⟩ := conditional_branches (g := Grammar.upTo (k + 1)) (s := b.state 3)
    rfl htest hquestion (by omega) hparenthesized b.tokenAt_colon (by omega) hother
  let node : Node := .conditionalExpression tree.size tree₂.size (tree₃.size + j)
  let tree₅ := (tree₄.alloc node (some span')).2
  have hname : tree.Continues tree₁ := .alloc (.refl _) _ _
  have hlast : tree₄.Continues tree₅ := .alloc (.refl _) _ _
  have hafter : tree₂.Continues tree₅ :=
    (Tree.Continues.alloc (.refl _) _ _).trans (hcontinues₄.trans hlast)
  have hall : tree₁.Continues tree₅ := hcontinues₂.trans hafter
  have hplain := plainAssignment_reading (s := b.state 3) (by rw [ha]; rfl) hconditional
    (by rw [hstop]; rfl)
  refine ⟨tree₄.size, tree₅, assignment_reading (s := b.state 2) (show 2 < maxDepth by decide) ha
    hleaves hplain, hname.trans hall, ?_⟩
  refine ⟨tree.size, tree₂.size, tree₁.size + i, tree₃.size + j, tree₄.node_alloc_self _ _, ?_, ?_,
    (Tree.sameBelow_of_twin htwin₂ hroot).continues hafter,
    (Tree.sameBelow_of_twin htwin₄ hroot').continues hlast⟩
  · refine (hall.node_of_lt ?_).trans (tree.node_alloc_self _ _)
    simp [tree₁]
  · refine ((hcontinues₄.trans hlast).node_of_lt ?_).trans (tree₂.node_alloc_self _ _)
    simp [tree₃]

/-- The conditional is read as the value of an assignment that is a statement. -/
theorem statement_conditional : ∃ statement tree,
    Parse.statement (Grammar.upTo (k + 3)) (b.state 0) =
        (.ok statement, (b.state 0).reading (b.ending + 1) tree) ∧
      tree.AssignsConditional statement s.tree i s'.tree j := by
  have hclosing := b.closing_ge
  have hending := b.ending_ge
  have hsize : ∀ depth, (b.state depth).tokens.size = b.ending + 2 := b.size
  have hx : ∀ depth, (b.state depth).tokenAt 0 = .identifier "x" := fun _ =>
    b.tokenAt_front (by decide)
  have hequal : ∀ depth, (b.state depth).tokenAt 1 = .punct .equal := fun _ =>
    b.tokenAt_front (by decide)
  have hstop : ∀ depth, (b.state depth).tokenAt b.ending = .punct .semicolon := fun _ =>
    b.tokenAt_stop
  have hleaves : ∀ depth, LeavesName ((b.state depth).tokenAt 1) := fun depth => by
    rw [hequal depth]
    exact ⟨rfl, rfl, rfl, fun _ => rfl, rfl, rfl, rfl⟩
  let tree₀ : Tree := {}
  have htarget := binary_name (g := Grammar.upTo (k + 2)) (s := b.state 2) rfl
    (show 2 < maxDepth by decide) (hx 2) (hleaves 2) (by rw [hequal 2]; rfl)
    (by rw [hsize 2]; omega) tree₀
  let tree₁ := (tree₀.alloc (.identifier { name := "x" }) (some ((b.state 2).spanAt 0))).2
  obtain ⟨right, tree₂, hright, hcontinues, hshows⟩ := assignment_conditional h harrow hconsequent
    halternate hreach hreach' hroom hroot hroot' tree₁
  obtain ⟨span, hassigned⟩ := plainAssignment_assign (g := Grammar.upTo (k + 2)) (s := b.state 2)
    (by rw [hx 2]; rfl) (conditional_reading htarget (by rw [hequal 2]; rfl))
    (Tree.node_alloc_self _ _ _) (hequal 2) (by rw [hsize 2]; omega) hright
  let tree₃ := (tree₂.alloc (.assignmentExpression .assign tree₀.size right) (some span)).2
  have hassignment := assignment_reading (s := b.state 1) (show 1 < maxDepth by decide) (hx 1)
    (hleaves 1) hassigned
  have hexpression : expression (Grammar.upTo (k + 3)) ((b.state 1).reading 0 tree₀) =
      (.ok tree₂.size, (b.state 1).reading b.ending tree₃) := by
    have hlevel : (Grammar.upTo (k + 3)).assignment ((b.state 1).reading 0 tree₀) =
        (.ok tree₂.size, (b.state 1).reading b.ending tree₃) := hassignment
    rw [expression, bind_of_ok (currentSpan_apply _),
      bind_of_ok (separatedBy_reading .comma hlevel (by rw [hstop 1]; rfl))]
    rfl
  have hsemicolon : consumeSemicolon ((b.state 1).reading b.ending tree₃) =
      (.ok (), (b.state 1).reading (b.ending + 1) tree₃) := by
    simp [consumeSemicolon, hstop 1, Token.isPunct, State.advance_reading, hsize 1]
  obtain ⟨span', hstatement⟩ := expressionStatement_reading hexpression hsemicolon
  let tree₄ := (tree₃.alloc (.expressionStatement tree₂.size) (some span')).2
  have hlast : tree₂.Continues tree₄ := ((Tree.Continues.refl _).alloc _ _).alloc _ _
  have hrun : Parse.statement (Grammar.upTo (k + 3)) ((b.state 0).reading 0 tree₀) =
      (.ok tree₃.size, (b.state 0).reading (b.ending + 1) tree₄) := by
    refine nested_reading (show 0 < maxDepth by decide) ?_
    change (Parser.current >>= _) ((b.state 1).reading 0 tree₀) = _
    rw [bind_of_ok (current_apply _ 0 tree₀), hx 1]
    exact (namedStatement_reading (hleaves 1) (by decide) (by decide)).trans hstatement
  refine ⟨tree₃.size, tree₄, hrun, tree₂.size, tree₀.size, right, tree₃.node_alloc_self _ _, ?_, ?_,
    hshows.congr hlast.size_le fun _ => hlast.node_of_lt⟩
  · refine ((Tree.Continues.alloc (.refl _) _ _).node_of_lt ?_).trans (tree₂.node_alloc_self _ _)
    simp [tree₃]
  · refine ((hcontinues.trans hlast).node_of_lt ?_).trans (Tree.node_alloc_self _ _ _)
    simp [tree₁]

end Branches

/-- The node that a parser makes is in the tree after it. -/
theorem GrowsNode.lt_size {p : Parser NodeId} (h : GrowsNode p) {s s' : State} (hs : s.Ready)
    (hrun : p s = (.ok id, s')) : id < s'.tree.size := by
  have hgrown := h s
  rw [Leads, hrun] at hgrown
  obtain ⟨f, hroots, -, hsown⟩ := hgrown.sown hs
  refine hsown.planted.lt_size id (f.roots_subset_preorder ?_)
  rw [hroots]
  exact List.mem_singleton_self id

/-- Parsers are nested no deeper in a text alone than its length allows for. -/
theorem Embedded.reach_stateAlone_le (e : Embedded) {depth : Nat} (hdepth : depth ≤ maxDepth) :
    (e.stateAlone depth).reach + depth ≤
      maxDepth + (byteLength e.text + (e.inner.length + 1)) := by
  have hmass := tokensMass_le_weight e.alone
  have htotal : (e.stateAlone depth).total mass = tokensMass (e.inner ++ [endToken e.text]) :=
    State.total_mass_start (e.stateAlone depth) _
  rw [weight_of_tokenize e.alone, List.length_append, List.length_singleton] at hmass
  rw [State.reach, htotal, show (e.stateAlone depth).depth = depth from rfl]
  omega

namespace Branches

variable {b : Branches}

theorem byteLength_whole_ge (b : Branches) :
    byteLength b.consequent.text ≤ byteLength b.consequent.whole ∧
      byteLength b.alternate.text ≤ byteLength b.consequent.whole := by
  rw [← b.whole_eq]
  constructor
  · rw [b.whole_eq]
    simp only [Around.whole, byteLength_append]
    omega
  · simp only [Around.whole, byteLength_append]
    omega

theorem weight_state (b : Branches) (depth : Nat) :
    (b.state depth).weight = byteLength b.consequent.whole + (b.ending + 2) := by
  rw [← b.size depth]
  exact weight_of_tokenize b.consequent.amid

theorem reach_state_le (b : Branches) (tree : Tree) :
    ((b.state 4).reading 4 tree).reach + 4 ≤ maxDepth + (b.state 0).weight := by
  have hmass := tokensMass_le_weight b.consequent.amid
  have htotal : (b.state 4).total mass = tokensMass (b.state 4).tokens.toList :=
    State.total_mass_start (b.state 4) _
  have hjump : ((b.state 4).reading 4 tree).total mass ≤ (b.state 4).total mass :=
    State.total_jump_le (b.state 4) mass (Nat.zero_le 4)
  have hweight : tokensMass (b.state 4).tokens.toList ≤ (b.state 0).weight := hmass
  rw [State.reach, show ((b.state 4).reading 4 tree).depth = 4 from rfl]
  have hdepth : 4 ≤ maxDepth := by decide
  omega

end Branches

/-- A construct that is all of a text. -/
theorem readAlone_of_withGrammar {α : Type} {p : Grammar → Parser α} {e : Embedded} {depth : Nat}
    {i : α} {s' : State} (hdepth : depth ≤ maxDepth) (h : Unangled e.inner)
    (hrun : withGrammar p (e.stateAlone depth) = (.ok i, s')) (hall : s'.atEof = true) :
    ReadAlone p (maxDepth + (e.stateAlone depth).weight + 2) (e.stateAlone depth) i s' where
  scan := e.alone
  pos_eq := rfl
  reach_le := by
    have hreach := e.reach_stateAlone_le hdepth
    have hweight := weight_of_tokenize e.alone
    rw [List.length_append, List.length_singleton] at hweight
    change _ ≤ maxDepth + State.weight
      { source := e.text, tokens := (e.inner ++ [endToken e.text]).toArray } + 2
    omega
  angleless := Branches.angleless_alone h
  run := hrun
  atEof := hall

end Parse

open Parse

/-- A consequent in parentheses and an alternate that are expressions alone make a conditional of
the trees that they have alone, if no arrow stands in the alternate and the tokens of both have no
angles that a parser could take apart or take for the end of a list. -/
theorem parse_conditional {c e : List Char} {tc te : List SpannedToken} {i j : NodeId}
    {s s' : State} (hc : Closed c tc) (he : Closed e te) (hangles : Unangled (tc ++ te))
    (harrow : ∀ a ∈ te, a.1.isPunct .arrow = false)
    (hconsequent : withGrammar expression { source := c, tokens := tc.toArray, depth := 5 } =
      (.ok i, s)) (hall : s.atEof = true)
    (halternate : withGrammar assignment { source := e, tokens := te.toArray, depth := 3 } =
      (.ok j, s')) (hall' : s'.atEof = true) :
    ∃ t root statement, parse (conditionalText c e) = .ok t ∧ t.root = some root ∧
      t.node root = .program [statement] ∧ t.AssignsConditional statement s.tree i s'.tree j := by
  obtain ⟨b, rfl, rfl, hwhole, rfl, rfl⟩ := exists_branches hc he
  have hinner : Unangled (b.consequent.inner ++ b.alternate.inner) :=
    hangles.mono (List.append_subset.mpr
      ⟨List.subset_append_of_subset_left _ (List.subset_append_left _ _),
        List.subset_append_of_subset_right _ (List.subset_append_left _ _)⟩)
  have hreadc := readAlone_of_withGrammar (e := b.consequent) (by decide)
    (hinner.mono (List.subset_append_left _ _)) hconsequent hall
  have hreade := readAlone_of_withGrammar (e := b.alternate) (by decide)
    (hinner.mono (List.subset_append_right _ _)) halternate hall'
  have hready : ∀ (e : Embedded) (depth : Nat), (e.stateAlone depth).Ready := fun e depth =>
    State.ready_of_placed (tokenize_placed e.alone) rfl rfl
  have hroot := (grows_expression (Grammar.sound_upTo _)).lt_size (hready _ 5) hreadc.run
  have hroot' := (grows_assignment (Grammar.sound_upTo _)).lt_size (hready _ 3) hreade.run
  -- the statement leaves three levels to the branches
  have hlevels : maxDepth + (b.state 0).weight + 2 = maxDepth + (b.state 0).weight - 1 + 3 := by
    have hpos : 0 < maxDepth := by decide
    omega
  have hweight := b.weight_state 0
  have hending : b.ending = 5 + b.consequent.inner.length + 2 + b.alternate.inner.length := rfl
  have hbytes := b.byteLength_whole_ge
  have hreach := b.consequent.reach_stateAlone_le (show 5 ≤ maxDepth by decide)
  have hreach' := b.alternate.reach_stateAlone_le (show 3 ≤ maxDepth by decide)
  obtain ⟨statement, tree, hstatement, hassigns⟩ := Branches.statement_conditional
    (k := maxDepth + (b.state 0).weight - 1) hinner
    (fun a ha => harrow a (List.mem_append_left _ ha)) hreadc hreade (by omega) (by omega)
    (fun tree => by have := b.reach_state_le tree; omega) hroot hroot'
  rw [← hlevels] at hstatement
  have hbegins : (b.state 0).atEof = false := by
    rw [State.atEof, State.current, show (b.state 0).pos = 0 from rfl, b.tokenAt_front (by decide)]
    rfl
  obtain ⟨t, root, hprogram, hnode, hbody, hsize, hkept⟩ := program_of_statement hbegins
    (by rw [b.size]; omega) rfl hstatement b.tokenAt_end
  refine ⟨t, root, statement, ?_, hnode, hbody, hassigns.congr hsize hkept⟩
  rw [← hwhole]
  exact parse_of_program b.consequent.amid hprogram

theorem parse_conditional_arrow : ∃ (tc te : List SpannedToken) (i j : NodeId) (s s' : State),
    Closed "b => b".toList tc ∧ Closed "-d".toList te ∧ Unangled (tc ++ te) ∧
    (∀ a ∈ te, a.1.isPunct .arrow = false) ∧
    withGrammar expression { source := "b => b".toList, tokens := tc.toArray, depth := 5 } =
      (.ok i, s) ∧ s.atEof = true ∧
    withGrammar assignment { source := "-d".toList, tokens := te.toArray, depth := 3 } =
      (.ok j, s') ∧ s'.atEof = true ∧
    ∃ t root statement, parse "x = a ? (b => b) : -d;".toList = .ok t ∧ t.root = some root ∧
      t.node root = .program [statement] ∧ t.AssignsConditional statement s.tree i s'.tree j := by
  let tc : List SpannedToken := [(.identifier "b", ⟨0, 1, 1, 1⟩), (.punct .arrow, ⟨2, 4, 1, 3⟩),
    (.identifier "b", ⟨5, 6, 1, 6⟩), (.eof, ⟨6, 6, 1, 7⟩)]
  let te : List SpannedToken := [(.punct .minus, ⟨0, 1, 1, 1⟩), (.identifier "d", ⟨1, 2, 1, 2⟩),
    (.eof, ⟨2, 2, 1, 3⟩)]
  have hc : Closed "b => b".toList tc := ⟨rfl, [], rfl, .nil⟩
  have he : Closed "-d".toList te := ⟨rfl, [], rfl, .nil⟩
  have hangles : Unangled (tc ++ te) := ⟨by decide, by decide⟩
  have harrow : ∀ a ∈ te, a.1.isPunct .arrow = false := by decide
  have hends : ∀ run : Except ParseError NodeId × State, (run.1.toBool && run.2.atEof) = true →
      ∃ i s, run = (.ok i, s) ∧ s.atEof = true := by
    rintro ⟨_ | i, s⟩ h
    · cases h
    · exact ⟨i, s, rfl, h⟩
  obtain ⟨i, s, hconsequent, hall⟩ := hends (withGrammar expression
    { source := "b => b".toList, tokens := tc.toArray, depth := 5 }) (by decide +kernel)
  obtain ⟨j, s', halternate, hall'⟩ := hends (withGrammar assignment
    { source := "-d".toList, tokens := te.toArray, depth := 3 }) (by decide +kernel)
  have htext : conditionalText "b => b".toList "-d".toList = "x = a ? (b => b) : -d;".toList := by
    decide
  refine ⟨tc, te, i, j, s, s', hc, he, hangles, harrow, hconsequent, hall, halternate, hall', ?_⟩
  rw [← htext]
  exact parse_conditional hc he hangles harrow hconsequent hall halternate hall'

/-- The consequent in parentheses and the alternate can each be parsed, but not the conditional
made of them: the parenthesis, the colon and the alternate are read as one arrow function. -/
theorem not_parse_conditional :
    (parse "b".toList).toBool = true ∧ (parse "d => f".toList).toBool = true ∧
      (parse "x = a ? (b) : d => f;".toList).toBool = false := by
  decide +kernel

end ScriptLint
