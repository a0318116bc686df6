import ScriptLint.Proofs.Parse.ArrowGuess

namespace ScriptLint
namespace Parse

open ScriptLint.Parser

variable {s s' : State} {pos pos' : Nat} {tree : Tree} {id : NodeId} {least : Precedence} {t : Token}
  {P : Tree → NodeId → Prop}

/-- A token before which an expression ends. -/
structure EndsExpression (t : Token) : Prop extends LeavesName t where
  joins : InfixOperator.ofToken? true t = none
  question : t.isPunct .question = false
  assigns : AssignmentOperator.ofToken? t = none
  comma : t.isPunct .comma = false

theorem endsExpression_eof : EndsExpression .eof :=
  ⟨⟨rfl, rfl, rfl, fun _ => rfl, rfl, rfl, rfl⟩, rfl, rfl, rfl, rfl⟩

theorem endsExpression_rightParen : EndsExpression (.punct .rightParen) :=
  ⟨⟨rfl, rfl, rfl, fun _ => rfl, rfl, rfl, rfl⟩, rfl, rfl, rfl, rfl⟩

theorem endsExpression_rightBracket : EndsExpression (.punct .rightBracket) :=
  ⟨⟨rfl, rfl, rfl, fun _ => rfl, rfl, rfl, rfl⟩, rfl, rfl, rfl, rfl⟩

/-- No operand begins with `yield`. -/
theorem not_unary_of_yield {g : Grammar} (h : s.tokenAt pos = .keyword .yieldWord)
    (hrun : unary g (s.reading pos tree) = (.ok id, s')) : False := by
  have h : s.deeper.tokenAt pos = .keyword .yieldWord := h
  obtain ⟨-, s₁, hrun⟩ := exists_of_nested hrun
  have hawait : eatKeyword .awaitWord (s.deeper.reading pos tree) =
      (.ok false, s.deeper.reading pos tree) := by
    simp [eatKeyword, eatIf, h, Token.isKeyword]
  have hnew : checkKeyword .newWord (s.deeper.reading pos tree) =
      (.ok false, s.deeper.reading pos tree) := by
    simp [checkKeyword, ask, h, Token.isKeyword]
  rw [unaryOperand, bind_of_ok (currentSpan_apply _), bind_of_ok (current_apply _ _ _), h] at hrun
  change (eatKeyword .awaitWord >>= _) (s.deeper.reading pos tree) = _ at hrun
  rw [bind_of_ok hawait] at hrun
  change postfixExpression g (s.deeper.reading pos tree) = _ at hrun
  rw [postfixExpression, bind_of_ok (currentSpan_apply _)] at hrun
  obtain ⟨_, s₂, hleft, -⟩ := exists_of_bind hrun
  rw [leftHandSide, bind_of_ok (currentSpan_apply _), bind_of_ok hnew] at hleft
  obtain ⟨_, s₃, hprimary, -⟩ := exists_of_bind hleft
  change primary g (s.deeper.reading pos tree) = _ at hprimary
  rw [primary, bind_of_ok (currentSpan_apply _), bind_of_ok (current_apply _ _ _), h] at hprimary
  cases hprimary

theorem State.reach_deeper (s : State) (hdepth : s.depth < maxDepth) (pos : Nat) (tree tree' : Tree) :
    (s.deeper.reading pos tree).reach + 1 = (s.reading pos tree').reach := by
  have htotal : (s.deeper.reading pos tree).total mass = (s.reading pos tree').total mass := rfl
  rw [State.reach, State.reach, htotal]
  change maxDepth - (s.depth + 1) + _ + 1 = maxDepth - s.depth + _
  omega

/-- Operands before the end of an expression are one. -/
theorem Makes.assignment (h : Makes (fun g => Parse.binary g .nullCoalescing) s.deeper pos pos' P)
    (hs : Whole s) (hdepth : s.depth < maxDepth) (hend : EndsExpression (s.tokenAt pos')) :
    Makes Grammar.assignment s pos pos' P := by
  intro k hk tree
  have hreach := s.reach_deeper hdepth pos {} {}
  obtain ⟨levels, rfl⟩ := Nat.exists_eq_add_one_of_ne_zero (show k ≠ 0 by omega)
  obtain ⟨id, tree', hrun, hcontinues, hp⟩ := h levels (by omega) tree
  refine ⟨id, tree', nested_reading hdepth ?_, hcontinues, hp⟩
  have hreach' := s.reach_deeper hdepth pos tree {}
  have hguess : arrowGuess (s.deeper.reading pos tree) = .no :=
    hs.deeper.arrowGuess_eq_no (by omega) hrun hend.toLeavesName
  have hyield : (s.deeper.tokenAt pos).isKeyword .yieldWord = false := by
    obtain ⟨first, s₁, hunary, -⟩ := exists_unary_of_binary hrun
    by_contra hkeyword
    refine not_unary_of_yield ?_ hunary
    generalize s.deeper.tokenAt pos = t at hkeyword
    cases t <;> simp_all [Token.isKeyword]
  rw [hguess]
  exact plainAssignment_reading hyield (conditional_reading hrun hend.question) hend.assigns

theorem Makes.expression (h : Makes Grammar.assignment s pos pos' P)
    (hend : EndsExpression (s.tokenAt pos')) : Makes Parse.expression s pos pos' P := by
  intro k hk tree
  obtain ⟨id, tree', hrun, hrest⟩ := h k hk tree
  refine ⟨id, tree', ?_, hrest⟩
  rw [Parse.expression, bind_of_ok (currentSpan_apply _),
    bind_of_ok (separatedBy_reading .comma hrun hend.comma)]
  rfl

/-- An expression in parentheses is an operand. -/
theorem Makes.group (h : Makes Parse.expression s.deeper (pos + 1) pos' P) (hlasting : Lasting P)
    (hs : Whole s) (hdepth : s.depth < maxDepth) (hopen : s.tokenAt pos = .punct .leftParen)
    (hclose : s.tokenAt pos' = .punct .rightParen)
    (hnext : leavesOperand (s.tokenAt (pos' + 1)) = true)
    (hupdate : UpdateOperator.ofToken? (s.tokenAt (pos' + 1)) = none) :
    Makes unary s pos (pos' + 1) fun t i =>
      ∃ inner, t.node i = .parenthesizedExpression inner ∧ P t inner := by
  intro k hk tree
  have hreach := State.reach_deeper_le (s := s) (Nat.le_succ pos) {} {}
  obtain ⟨inner, tree', hrun, hcontinues, hp⟩ := h k (hreach.trans hk) tree
  obtain ⟨span, hunary⟩ := unary_parenthesized hs.allowIn hdepth hopen
    (hs.succ_lt_size (by simp [hopen])) hrun hclose (hs.succ_lt_size (by simp [hclose])) hnext hupdate
  have hlast := (Tree.Continues.refl tree').alloc (.parenthesizedExpression inner) (some span)
  exact ⟨tree'.size, _, hunary, hcontinues.trans hlast, inner, tree'.node_alloc_self _ _,
    hlasting.continues hp hlast⟩

/-- An operand with `!` in front. -/
theorem Makes.not (h : Makes unary s.deeper (pos + 1) pos' P) (hlasting : Lasting P) (hs : Whole s)
    (hdepth : s.depth < maxDepth) (hbang : s.tokenAt pos = .punct .bang) :
    Makes unary s pos pos' fun t i =>
      ∃ argument, t.node i = .unaryExpression .not argument ∧ P t argument := by
  intro k hk tree
  have hbang : s.deeper.tokenAt pos = .punct .bang := hbang
  have hsize : pos + 1 < s.deeper.tokens.size := hs.succ_lt_size (by simp [show s.tokenAt pos = _ from hbang])
  have hreach := State.reach_reading_succ (s := s.deeper) (Nat.lt_of_succ_lt hsize) {} {}
  have hreach' := State.reach_deeper_le (s := s) (le_refl pos) {} {}
  obtain ⟨levels, rfl⟩ := Nat.exists_eq_add_one_of_ne_zero (show k ≠ 0 by omega)
  obtain ⟨argument, tree', hrun, hcontinues, hp⟩ := h levels (by omega) tree
  have hskip : skip (s.deeper.reading pos tree) = (.ok (), s.deeper.reading (pos + 1) tree) := by
    simp [skip, update, State.advance_reading hsize]
  have hargument : (Grammar.upTo (levels + 1)).unary (s.deeper.reading (pos + 1) tree) =
      (.ok argument, s.deeper.reading pos' tree') := hrun
  let span := (s.deeper.reading pos' tree').spanFrom (s.deeper.spanAt pos)
  have hlast := (Tree.Continues.refl tree').alloc (.unaryExpression .not argument) (some span)
  refine ⟨tree'.size, _, nested_reading hdepth ?_, hcontinues.trans hlast, argument,
    tree'.node_alloc_self _ _, hlasting.continues hp hlast⟩
  change unaryOperand _ (s.deeper.reading pos tree) = _
  rw [unaryOperand, bind_of_ok (currentSpan_apply _), bind_of_ok (current_apply _ _ _), hbang]
  change (skip >>= _) (s.deeper.reading pos tree) = _
  rw [bind_of_ok hskip, bind_of_ok hargument]
  rfl

theorem Lasting.group {P : Tree → NodeId → Prop} (h : Lasting P) : Lasting fun t i =>
    ∃ inner, t.node i = .parenthesizedExpression inner ∧ P t inner := by
  rintro t t' i ⟨inner, hnode, hp⟩ hsize hsame
  exact ⟨inner, Tree.node_of_kept hsame hnode (by simp [Node.missing]), h _ _ _ hp hsize hsame⟩

theorem Lasting.not {P : Tree → NodeId → Prop} (h : Lasting P) : Lasting fun t i =>
    ∃ argument, t.node i = .unaryExpression .not argument ∧ P t argument := by
  rintro t t' i ⟨argument, hnode, hp⟩ hsize hsame
  exact ⟨argument, Tree.node_of_kept hsame hnode (by simp [Node.missing]), h _ _ _ hp hsize hsame⟩

theorem Lasting.join {P Q : Tree → NodeId → Prop} (hp : Lasting P) (hq : Lasting Q)
    (operator : InfixOperator) : Lasting fun t i =>
      ∃ left right, t.node i = infixNode left right operator ∧ P t left ∧ Q t right := by
  rintro t t' i ⟨left, right, hnode, hleft, hright⟩ hsize hsame
  refine ⟨left, right, Tree.node_of_kept hsame hnode ?_, hp _ _ _ hleft hsize hsame,
    hq _ _ _ hright hsize hsame⟩
  cases operator <;> simp [infixNode, Node.missing]

/-- Parsers are nested no deeper in a text than its length allows for. -/
theorem Whole.reach_le (hs : Whole s) (pos : Nat) (tree : Tree) :
    (s.reading pos tree).reach ≤ maxDepth + s.weight := by
  have hmass := tokensMass_le_weight hs.scan
  have hpos : s.pos = 0 := by
    rw [hs.eq_alone]
    rfl
  have htotal : (s.reading 0 tree).total mass = tokensMass s.tokens.toList :=
    State.total_mass_start s s.tokens.toList
  have hjump := State.reach_reading_le (s := s) (Nat.zero_le pos) tree tree
  have hweight : State.weight { source := s.source, tokens := s.tokens.toList.toArray } = s.weight := rfl
  rw [State.reach, State.reach, htotal] at hjump
  rw [State.reach]
  have hdepth : (s.reading pos tree).depth = (s.reading 0 tree).depth := rfl
  omega

variable {text : List Char} {tokens : List SpannedToken}

/-- A program of one statement. -/
theorem exists_parse_of_statement (hs : Whole (State.alone text tokens 0)) {stop : Nat}
    (hlasting : Lasting P) (h : Makes Parse.statement (State.alone text tokens 0) 0 stop P)
    (hbegins : ((State.alone text tokens 0).tokenAt 0).isEof = false)
    (heof : (State.alone text tokens 0).tokenAt stop = .eof) :
    ∃ t root statement, parse text = .ok t ∧ t.root = some root ∧
      t.node root = .program [statement] ∧ P t statement := by
  have hne : (State.alone text tokens 0).tokenAt 0 ≠ .eof := fun hend => by
    simp [hend, Token.isEof] at hbegins
  have hsize := hs.succ_lt_size hne
  obtain ⟨id, tree, hrun, -, hp⟩ := h (maxDepth + (State.alone text tokens 0).weight + 2)
    ((hs.reach_le 0 {}).trans (Nat.le_add_right _ _)) {}
  obtain ⟨t, root, hprogram, hroot, hnode, hsize', hkept⟩ := program_of_statement
    (s := State.alone text tokens 0) hbegins (Nat.zero_lt_of_lt hsize) rfl hrun heof
  exact ⟨t, root, id, parse_of_program hs.scan hprogram, hroot, hnode,
    hlasting _ _ _ hp hsize' hkept⟩

/-- An expression that begins with a parenthesis and ends where the text does is a statement. -/
theorem Makes.expressionStatement (h : Makes Parse.expression s.deeper pos pos' P)
    (hlasting : Lasting P) (hdepth : s.depth < maxDepth) (hopen : s.tokenAt pos = .punct .leftParen)
    (heof : s.tokenAt pos' = .eof) :
    Makes Parse.statement s pos pos' fun t i =>
      ∃ e, t.node i = .expressionStatement e ∧ P t e := by
  intro k hk tree
  have hreach := State.reach_deeper_le (s := s) (le_refl pos) {} {}
  obtain ⟨e, tree', hrun, hcontinues, hp⟩ := h k (hreach.trans hk) tree
  have heof : s.deeper.tokenAt pos' = .eof := heof
  obtain ⟨span, hmade⟩ := expressionStatement_reading hrun (consumeSemicolon_eof heof)
  have hlast := (Tree.Continues.refl tree').alloc (.expressionStatement e) (some span)
  refine ⟨tree'.size, _, nested_reading hdepth ?_, hcontinues.trans hlast, e,
    tree'.node_alloc_self _ _, hlasting.continues hp hlast⟩
  have hfirst : s.deeper.tokenAt pos = .punct .leftParen := hopen
  change (Parser.current >>= _) (s.deeper.reading pos tree) = _
  rw [bind_of_ok (current_apply _ _ _), hfirst]
  exact hmade

theorem Lasting.expressionStatement {P : Tree → NodeId → Prop} (h : Lasting P) : Lasting fun t i =>
    ∃ e, t.node i = .expressionStatement e ∧ P t e := by
  rintro t t' i ⟨e, hnode, hp⟩ hsize hsame
  exact ⟨e, Tree.node_of_kept hsame hnode (by simp [Node.missing]), h _ _ _ hp hsize hsame⟩

/-- A program that is one expression in parentheses. -/
theorem parse_of_makes (hs : Whole (State.alone text tokens 0)) {stop : Nat} (hlasting : Lasting P)
    (hopen : (State.alone text tokens 0).tokenAt 0 = .punct .leftParen)
    (h : Makes Parse.expression (State.alone text tokens 3) 1 stop P)
    (hclose : (State.alone text tokens 0).tokenAt stop = .punct .rightParen)
    (heof : (State.alone text tokens 0).tokenAt (stop + 1) = .eof) :
    ∃ t root statement group inner, parse text = .ok t ∧ t.root = some root ∧
      t.node root = .program [statement] ∧ t.node statement = .expressionStatement group ∧
      t.node group = .parenthesizedExpression inner ∧ P t inner := by
  have hs' : ∀ depth, Whole (State.alone text tokens depth) := fun _ => ⟨rfl, hs.scan, hs.unangled⟩
  have hsize : stop + 1 < (State.alone text tokens 0).tokens.size :=
    hs.succ_lt_size (by simp [hclose])
  have hend : EndsExpression ((State.alone text tokens 0).tokenAt (stop + 1)) :=
    heof ▸ endsExpression_eof
  have hunary : Makes unary (State.alone text tokens 2) 0 (stop + 1) _ :=
    Makes.group (s := State.alone text tokens 2) h hlasting (hs' 2) (show 2 < maxDepth by decide)
      hopen hclose hend.operand hend.update
  have hbinary := (hunary.gathers .nullCoalescing).binary le_rfl
    ⟨rfl, hsize, hend.isName _, fun operator hoperator => by
      have hnone := hend.joins.symm.trans hoperator
      cases hnone⟩
  have hexpression := (Makes.assignment (s := State.alone text tokens 1) hbinary (hs' 1)
    (show 1 < maxDepth by decide) hend).expression hend
  have hstatement := Makes.expressionStatement (s := State.alone text tokens 0) hexpression
    hlasting.group (show 0 < maxDepth by decide) hopen heof
  obtain ⟨t, root, statement, hparse, hroot, hprogram, group, hnode, inner, hgroup, hinner⟩ :=
    exists_parse_of_statement hs hlasting.group.expressionStatement hstatement
      (by rw [hopen]; rfl) heof
  exact ⟨t, root, statement, group, inner, hparse, hroot, hprogram, hnode, hgroup, hinner⟩

end Parse
end ScriptLint
