import ScriptLint.Proofs.Parse.Infix
import ScriptLint.Proofs.Parse.Nesting.Tower
import ScriptLint.Proofs.Parse.Twin.Lookahead
import ScriptLint.Proofs.Tree.Extend

namespace ScriptLint

namespace Tree

/-- Below a node stands a tree of names and operators. -/
inductive Shows (t : Tree) : NodeId → InfixTree → Prop
  | name {i x} : t.node i = .identifier { name := x } → Shows t i (.name x)
  | join {i operator left right l r} : t.node i = Parse.infixNode left right operator →
      Shows t left l → Shows t right r → Shows t i (.join operator l r)

variable {t t' : Tree} {i : NodeId} {tree : InfixTree}

theorem Continues.node_of_lt (h : t.Continues t') (hi : i < t.size) : t'.node i = t.node i := by
  simp [node, h.kept i hi]

theorem Continues.node_eq (h : t.Continues t') (hne : t.node i ≠ .missing) :
    t'.node i = t.node i := h.node_of_lt (lt_size_of_node_ne hne)

theorem node_alloc_self (t : Tree) (node : Node) (range : Option Span) :
    (t.alloc node range).2.node t.size = node := by
  simp [Tree.node, entry?_alloc]

theorem Shows.congr (h : t.Shows i tree)
    (hnode : ∀ j, t.node j ≠ .missing → t'.node j = t.node j) : t'.Shows i tree := by
  induction h with
  | name heq => exact .name ((hnode _ (by simp [heq, Node.missing])).trans heq)
  | @join _ operator _ _ _ _ heq _ _ ihleft ihright =>
    refine .join ((hnode _ ?_).trans heq) ihleft ihright
    cases operator <;> simp [heq, Parse.infixNode, Node.missing]

theorem Shows.continues (h : t.Shows i tree) (hcontinues : t.Continues t') : t'.Shows i tree :=
  h.congr fun _ => hcontinues.node_eq

end Tree

/-- The tokens of operators with a name after each, up to the end. -/
def tailTokens (rest : List (InfixOperator × String)) : List Token :=
  rest.flatMap (fun p => [p.1.token, .identifier p.2]) ++ [.eof]

/-- The tokens of a name, and operators with a name after each, up to the end. -/
def infixTokens (first : String) (rest : List (InfixOperator × String)) : List Token :=
  .identifier first :: tailTokens rest

@[simp] theorem tailTokens_nil : tailTokens [] = [.eof] := rfl

@[simp] theorem tailTokens_cons (operator : InfixOperator) (x : String)
    (rest : List (InfixOperator × String)) :
    tailTokens ((operator, x) :: rest) = operator.token :: infixTokens x rest := rfl

@[simp] theorem length_tailTokens (rest : List (InfixOperator × String)) :
    (tailTokens rest).length = 2 * rest.length + 1 := by
  induction rest with
  | nil => rfl
  | cons p rest ih =>
    rw [tailTokens_cons, infixTokens, List.length_cons, List.length_cons, List.length_cons, ih]
    rfl

namespace Parse

open ScriptLint.Parser

variable {g : Grammar} {s : State} {pos : Nat} {tree : Tree} {t : Token} {tokens : List Token}
  {x : String} {operator : InfixOperator}

/-- The tokens from a place on. -/
def State.Ahead (s : State) (pos : Nat) (tokens : List Token) : Prop :=
  (s.tokens.toList.drop pos).map Prod.fst = tokens

namespace State.Ahead

theorem tokenAt (h : s.Ahead pos (t :: tokens)) : s.tokenAt pos = t := by
  have hhead := congrArg List.head? h
  rw [List.head?_map, List.head?_drop, List.head?_cons] at hhead
  obtain ⟨token, htoken, rfl⟩ := Option.map_eq_some_iff.mp hhead
  rw [Array.getElem?_toList] at htoken
  simp [State.tokenAt, htoken]

theorem tail (h : s.Ahead pos (t :: tokens)) : s.Ahead (pos + 1) tokens := by
  have htail := congrArg List.tail h
  rwa [← List.map_tail, List.tail_drop, List.tail_cons] at htail

theorem size (h : s.Ahead pos (t :: tokens)) : s.tokens.size = pos + (tokens.length + 1) := by
  have hlength := congrArg List.length h
  simp only [List.length_map, List.length_drop, Array.length_toList, List.length_cons] at hlength
  omega

/-- What is ahead after some operators, each with its name. -/
theorem tailTokens (before : List (InfixOperator × String)) {after : List (InfixOperator × String)}
    (h : s.Ahead pos (tailTokens (before ++ after))) :
    s.Ahead (pos + 2 * before.length) (ScriptLint.tailTokens after) := by
  induction before generalizing pos with
  | nil => exact h
  | cons p before ih =>
    rw [List.length_cons, Nat.mul_succ, Nat.add_comm (2 * _), ← Nat.add_assoc]
    exact ih h.tail.tail

end State.Ahead

/-- What may stand after a name: the end or an operator. -/
def EndsOperand (t : Token) : Prop := t = .eof ∨ ∃ operator : InfixOperator, t = operator.token

theorem endsOperand_head (rest : List (InfixOperator × String)) :
    ∃ t tokens, tailTokens rest = t :: tokens ∧ EndsOperand t := by
  cases rest with
  | nil => exact ⟨_, _, rfl, .inl rfl⟩
  | cons p rest => exact ⟨_, _, rfl, .inr ⟨p.1, rfl⟩⟩

theorem current_apply (s : State) (pos : Nat) (tree : Tree) :
    Parser.current (s.reading pos tree) = (.ok (s.tokenAt pos), s.reading pos tree) := rfl

theorem currentSpan_apply (s : State) : Parser.currentSpan s = (.ok s.currentSpan, s) := rfl

/-- A token with which no access or call of an operand begins. -/
def leavesOperand : Token → Bool
  | .punct .dot | .punct .questionDot | .punct .leftBracket | .punct .leftParen | .punct .bang
  | .template _ => false
  | _ => true

theorem suffix?_reading {start : Span} {object : NodeId}
    (h : leavesOperand (s.tokenAt pos) = true) :
    suffix? g true start object (s.reading pos tree) = (.ok none, s.reading pos tree) := by
  rw [suffix?, bind_of_ok (current_apply s pos tree)]
  generalize s.tokenAt pos = t at h
  cases t with
  | punct mark => cases mark <;> first | rfl | cases h
  | template => cases h
  | _ => rfl

theorem suffixes_reading {start : Span} {object : NodeId}
    (h : leavesOperand (s.tokenAt pos) = true) :
    suffixes g true start object (s.reading pos tree) = (.ok object, s.reading pos tree) := by
  rw [suffixes]
  refine (bind_of_ok (a := (object, false))
    (loop_of_stop (?_ : _ = (_, s.reading pos tree)))).trans rfl
  exact (bind_of_ok (suffix?_reading h)).trans rfl

/-- A token that neither goes on with a name nor makes it the first word of a declaration. -/
structure LeavesName (t : Token) : Prop where
  operand : leavesOperand t = true
  update : UpdateOperator.ofToken? t = none
  isKeyword : t.isKeyword .functionWord = false
  isName : ∀ name, t.isName name = false
  sameKind : t.sameKind (.identifier "") = false
  colon : t.isPunct .colon = false
  arrow : t.isPunct .arrow = false

theorem EndsOperand.leavesName (h : EndsOperand t) : LeavesName t := by
  rcases h with rfl | ⟨operator | operator, rfl⟩
  · exact ⟨rfl, rfl, rfl, fun _ => rfl, rfl, rfl, rfl⟩
  · cases operator <;> exact ⟨rfl, rfl, rfl, fun _ => rfl, rfl, rfl, rfl⟩
  · cases operator <;> exact ⟨rfl, rfl, rfl, fun _ => rfl, rfl, rfl, rfl⟩

theorem identifier_reading (hname : s.tokenAt pos = .identifier x)
    (hsize : pos + 1 < s.tokens.size) :
    identifier (s.reading pos tree) = (.ok tree.size, s.reading (pos + 1)
      (tree.alloc (.identifier { name := x }) (some (s.spanAt pos))).2) := by
  have hskip : skip (s.reading pos tree) = (.ok (), s.reading (pos + 1) tree) := by
    simp [skip, update, State.advance_reading hsize]
  rw [identifier, bind_of_ok (currentSpan_apply _), bind_of_ok (current_apply s pos tree), hname]
  change (skip >>= _) (s.reading pos tree) = _
  rw [bind_of_ok hskip]
  rfl

theorem primary_reading (hname : s.tokenAt pos = .identifier x)
    (hnext : (s.tokenAt (pos + 1)).isKeyword .functionWord = false)
    (hsize : pos + 1 < s.tokens.size) :
    primary g (s.reading pos tree) = (.ok tree.size, s.reading (pos + 1)
      (tree.alloc (.identifier { name := x }) (some (s.spanAt pos))).2) := by
  have hasync : atAsyncFunction (s.reading pos tree) = (.ok false, s.reading pos tree) := by
    have hpeek : (s.reading pos tree).peek.isKeyword .functionWord = false := hnext
    simp [atAsyncFunction, ask, hpeek]
  rw [primary, bind_of_ok (currentSpan_apply _), bind_of_ok (current_apply s pos tree), hname]
  change (atAsyncFunction >>= _) (s.reading pos tree) = _
  rw [bind_of_ok hasync]
  exact identifier_reading hname hsize

theorem leftHandSide_reading (hname : s.tokenAt pos = .identifier x)
    (hnext : LeavesName (s.tokenAt (pos + 1))) (hsize : pos + 1 < s.tokens.size) :
    leftHandSide g (s.reading pos tree) = (.ok tree.size, s.reading (pos + 1)
      (tree.alloc (.identifier { name := x }) (some (s.spanAt pos))).2) := by
  have hnew : checkKeyword .newWord (s.reading pos tree) = (.ok false, s.reading pos tree) := by
    simp [checkKeyword, ask, hname, Token.isKeyword]
  rw [leftHandSide, bind_of_ok (currentSpan_apply _), bind_of_ok hnew]
  change (primary g >>= _) (s.reading pos tree) = _
  rw [bind_of_ok (primary_reading hname hnext.isKeyword hsize)]
  exact suffixes_reading hnext.operand

theorem postfixExpression_reading (hname : s.tokenAt pos = .identifier x)
    (hnext : LeavesName (s.tokenAt (pos + 1))) (hsize : pos + 1 < s.tokens.size) :
    postfixExpression g (s.reading pos tree) = (.ok tree.size, s.reading (pos + 1)
      (tree.alloc (.identifier { name := x }) (some (s.spanAt pos))).2) := by
  rw [postfixExpression, bind_of_ok (currentSpan_apply _),
    bind_of_ok (leftHandSide_reading hname hnext hsize), bind_of_ok (current_apply s _ _),
    hnext.update]
  rfl

theorem unaryOperand_reading (hname : s.tokenAt pos = .identifier x)
    (hnext : LeavesName (s.tokenAt (pos + 1))) (hsize : pos + 1 < s.tokens.size) :
    unaryOperand g (s.reading pos tree) = (.ok tree.size, s.reading (pos + 1)
      (tree.alloc (.identifier { name := x }) (some (s.spanAt pos))).2) := by
  have hawait : eatKeyword .awaitWord (s.reading pos tree) = (.ok false, s.reading pos tree) := by
    simp [eatKeyword, eatIf, hname, Token.isKeyword]
  rw [unaryOperand, bind_of_ok (currentSpan_apply _), bind_of_ok (current_apply s pos tree), hname]
  change (eatKeyword .awaitWord >>= _) (s.reading pos tree) = _
  rw [bind_of_ok hawait]
  exact postfixExpression_reading hname hnext hsize

/-- What is done one level deeper. -/
theorem nested_reading {p : Parser NodeId} {id : NodeId} {pos' : Nat} {tree' : Tree}
    (hdepth : s.depth < maxDepth)
    (hrun : p (State.reading { s with depth := s.depth + 1 } pos tree) =
      (.ok id, State.reading { s with depth := s.depth + 1 } pos' tree')) :
    nested p (s.reading pos tree) = (.ok id, s.reading pos' tree') := by
  have henter : enter (s.reading pos tree) =
      (.ok (), State.reading { s with depth := s.depth + 1 } pos tree) :=
    if_neg (Nat.not_le_of_lt hdepth)
  simp only [nested, henter, hrun]
  rfl

/-- A name is an operand where it is left at once. -/
theorem unary_reading (g : Grammar) (tree : Tree) (hdepth : s.depth < maxDepth) {t : Token}
    (h : s.Ahead pos (.identifier x :: t :: tokens)) (hnext : LeavesName t) :
    unary g (s.reading pos tree) = (.ok tree.size, s.reading (pos + 1)
      (tree.alloc (.identifier { name := x }) (some (s.spanAt pos))).2) := by
  have hsize : pos + 1 < s.tokens.size := by
    rw [h.size, List.length_cons]
    omega
  refine nested_reading hdepth (unaryOperand_reading h.tokenAt ?_ hsize)
  rwa [← h.tail.tokenAt] at hnext

/-- What `infixTail?` does after a name, where no type assertion stands. -/
def joinTail? (g : Grammar) (least : Precedence) (start : Span) (left : NodeId) :
    Option InfixOperator → Parser (Option NodeId)
  | some operator =>
    if operator.level < least.level then return none
    else do
      skip
      let right ← g.binary operator.operandLevel
      return some (← finish start (infixNode left right operator))
  | none => return none

/-- One turn of the loop of `binary`. -/
def turnBinary (g : Grammar) (least : Precedence) (start : Span) (left : NodeId) :
    Parser (Loop NodeId) := do
  match ← infixTail? g least start left with
  | some e => return .next e
  | none => return .stop left

variable {least : Precedence} {start : Span} {left : NodeId}

theorem infixTail?_reading (hallow : s.allowIn = true)
    (hname : (s.tokenAt pos).isName "as" = false) :
    infixTail? g least start left (s.reading pos tree) =
      joinTail? g least start left (InfixOperator.ofToken? true (s.tokenAt pos))
        (s.reading pos tree) := by
  have has : checkName "as" (s.reading pos tree) = (.ok false, s.reading pos tree) := by
    simp [checkName, ask, hname]
  have hnewline : newlineBefore (s.reading pos tree) =
      (.ok (s.reading pos tree).newlineBefore, s.reading pos tree) := rfl
  have hallows : ask State.allowIn (s.reading pos tree) = (.ok true, s.reading pos tree) := by
    rw [← hallow]
    rfl
  rw [infixTail?, bind_of_ok has, bind_of_ok hnewline]
  change (ask State.allowIn >>= _) (s.reading pos tree) = _
  rw [bind_of_ok hallows, bind_of_ok (current_apply s pos tree)]
  cases InfixOperator.ofToken? true (s.tokenAt pos) <;> rfl

theorem turnBinary_none (hallow : s.allowIn = true) (hname : (s.tokenAt pos).isName "as" = false)
    (hnone : InfixOperator.ofToken? true (s.tokenAt pos) = none) :
    turnBinary g least start left (s.reading pos tree) =
      (.ok (.stop left), s.reading pos tree) := by
  have htail : infixTail? g least start left (s.reading pos tree) =
      (.ok none, s.reading pos tree) := by
    rw [infixTail?_reading hallow hname, hnone]
    rfl
  rw [turnBinary, bind_of_ok htail]
  rfl

theorem turnBinary_looser (hallow : s.allowIn = true) (htoken : s.tokenAt pos = operator.token)
    (hlt : operator.level < least.level) :
    turnBinary g least start left (s.reading pos tree) =
      (.ok (.stop left), s.reading pos tree) := by
  have hends : EndsOperand (s.tokenAt pos) := .inr ⟨_, htoken⟩
  have htail : infixTail? g least start left (s.reading pos tree) =
      (.ok none, s.reading pos tree) := by
    rw [infixTail?_reading hallow (hends.leavesName.isName "as"),
      InfixOperator.ofToken?_eq_some_iff.mpr htoken, joinTail?, if_pos hlt]
    rfl
  rw [turnBinary, bind_of_ok htail]
  rfl

theorem turnBinary_next (start : Span) (left : NodeId) {right : NodeId} {pos' : Nat} {tree' : Tree}
    (hallow : s.allowIn = true)
    (htoken : s.tokenAt pos = operator.token) (hle : least.level ≤ operator.level)
    (hsize : pos + 1 < s.tokens.size)
    (hright : g.binary operator.operandLevel (s.reading (pos + 1) tree) =
      (.ok right, s.reading pos' tree')) :
    turnBinary g least start left (s.reading pos tree) = (.ok (.next tree'.size),
      s.reading pos' (tree'.alloc (infixNode left right operator)
        (some ((s.reading pos' tree').spanFrom start))).2) := by
  have hskip : skip (s.reading pos tree) = (.ok (), s.reading (pos + 1) tree) := by
    simp [skip, update, State.advance_reading hsize]
  have hends : EndsOperand (s.tokenAt pos) := .inr ⟨_, htoken⟩
  have htail : infixTail? g least start left (s.reading pos tree) = (.ok (some tree'.size),
      s.reading pos' (tree'.alloc (infixNode left right operator)
        (some ((s.reading pos' tree').spanFrom start))).2) := by
    rw [infixTail?_reading hallow (hends.leavesName.isName "as"),
      InfixOperator.ofToken?_eq_some_iff.mpr htoken, joinTail?, if_neg (Nat.not_lt_of_le hle),
      bind_of_ok hskip, bind_of_ok hright]
    rfl
  rw [turnBinary, bind_of_ok htail]
  rfl

/-- A run over a name and operators with a name after each makes a node for the tree in which they
group and ends after them. -/
def Climbs (s : State) (p : Parser NodeId) (pos : Nat) (tree : Tree) (first : String)
    (rest : List (InfixOperator × String)) (pos' : Nat) : Prop :=
  ∃ id tree' shown, p (s.reading pos tree) = (.ok id, s.reading pos' tree') ∧
    tree.Continues tree' ∧ tree'.Shows id shown ∧ Groups first rest shown

/-- Parsers for operators of at least a level take all of them that are ahead, if they are fewer
than `n`. -/
def Climber (s : State) (n : Nat) (p : Precedence → Parser NodeId) : Prop :=
  ∀ least first rest pos tree, rest.length < n → s.Ahead pos (infixTokens first rest) →
    Climbs s (p least) pos tree first (rest.takeWhile least.admits)
      (pos + 1 + 2 * (rest.takeWhile least.admits).length)

variable {n : Nat} {done todo : List (InfixOperator × String)} {y : String} {shown : InfixTree}

/-- A turn of the loop takes an operator and its right operand. -/
theorem turnBinary_climbs (start : Span) (hallow : s.allowIn = true)
    (hoperand : Climber s n g.binary) (hn : todo.length < n)
    (hahead : s.Ahead pos (tailTokens ((operator, y) :: todo)))
    (hle : least.level ≤ operator.level) (hleft : tree.Shows left shown)
    (hgroups : Groups x done shown) (hfrontier : Frontier done ((operator, y) :: todo)) :
    ∃ left' tree' shown', turnBinary g least start left (s.reading pos tree) =
        (.ok (.next left'), s.reading (pos + 2 *
          ((operator, y) :: todo.takeWhile operator.operandLevel.admits).length) tree') ∧
      tree.Continues tree' ∧ tree'.Shows left' shown' ∧
      Groups x (done ++ (operator, y) :: todo.takeWhile operator.operandLevel.admits) shown' := by
  have hsize := hahead.size
  obtain ⟨right, tree', shown', hright, hcontinues, hshows, hgroups'⟩ :=
    hoperand operator.operandLevel y todo (pos + 1) tree hn hahead.tail
  have hturn := turnBinary_next start left hallow hahead.tokenAt hle
    (by simp at hsize; omega) hright
  generalize State.spanFrom _ start = span at hturn
  have hcontinues' := hcontinues.alloc (infixNode left right operator) (some span)
  refine ⟨tree'.size, _, .join operator shown shown', hturn.trans ?_, hcontinues', ?_,
    .join hfrontier.splitsAt hgroups hgroups'⟩
  · congr 2
    rw [List.length_cons]
    omega
  · exact .join (tree'.node_alloc_self _ _) (hleft.continues hcontinues')
      (hshows.continues (.alloc (.refl _) _ _))

/-- The loop over the operators of a level, from what it has grouped so far. -/
theorem climbs_loopUpTo (least : Precedence) (start : Span) (hallow : s.allowIn = true)
    (hoperand : Climber s n g.binary) {fuel : Nat} (hn : todo.length ≤ n)
    (hahead : s.Ahead pos (tailTokens todo)) (hfuel : todo.length < fuel)
    (hleft : tree.Shows left shown) (hgroups : Groups x done shown)
    (hfrontier : Frontier done todo) :
    Climbs s (loopUpTo (turnBinary g least start) fuel left) pos tree x
      (done ++ todo.takeWhile least.admits) (pos + 2 * (todo.takeWhile least.admits).length) := by
  induction fuel generalizing done todo pos tree left shown with
  | zero => exact absurd hfuel (Nat.not_lt_zero _)
  | succ fuel ih =>
    rcases todo with - | ⟨⟨operator, y⟩, todo⟩
    · refine ⟨left, tree, shown, ?_, .refl _, hleft, by simpa using hgroups⟩
      have heof : s.tokenAt pos = .eof := hahead.tokenAt
      rw [loopUpTo, bind_of_ok (turnBinary_none hallow (by rw [heof]; rfl) (by rw [heof]; rfl))]
      rfl
    · rcases Nat.lt_or_ge operator.level least.level with hlt | hle
      · have hstops : ((operator, y) :: todo).takeWhile least.admits = [] := by
          simpa [Precedence.admits] using hlt
        rw [hstops, List.append_nil]
        refine ⟨left, tree, shown, ?_, .refl _, hleft, hgroups⟩
        rw [loopUpTo, bind_of_ok (turnBinary_looser hallow hahead.tokenAt hlt)]
        rfl
      · obtain ⟨left', tree', shown', hturn, hcontinues, hleft', hgroups'⟩ :=
          turnBinary_climbs start hallow hoperand hn hahead hle hleft hgroups hfrontier
        -- after the turn the loop stands before what the right operand has left
        have hafter : s.Ahead _ (tailTokens (todo.dropWhile operator.operandLevel.admits)) :=
          .tailTokens ((operator, y) :: todo.takeWhile operator.operandLevel.admits)
            (by rwa [List.cons_append, List.takeWhile_append_dropWhile])
        have hfewer := List.length_dropWhile_le operator.operandLevel.admits todo
        obtain ⟨id, tree'', shown'', hrun, hcontinues', hshows, hgroups''⟩ :=
          ih (hfewer.trans (Nat.le_of_succ_le hn)) hafter
            (hfewer.trans_lt (Nat.lt_of_succ_lt_succ hfuel)) hleft' hgroups' hfrontier.next
        rw [takeWhile_admits_cons hle, ← List.append_assoc]
        refine ⟨id, tree'', shown'', ?_, hcontinues.trans hcontinues', hshows, hgroups''⟩
        rw [loopUpTo, bind_of_ok hturn]
        refine hrun.trans ?_
        rw [List.length_append, Nat.mul_add, Nat.add_assoc]

theorem Climber.binary (hallow : s.allowIn = true) (hdepth : s.depth < maxDepth)
    (hoperand : Climber s n g.binary) : Climber s (n + 1) (binary g) := by
  intro least first rest pos tree hlt hahead
  obtain ⟨t, tokens, htail, hnext⟩ := endsOperand_head rest
  have hunary := unary_reading g tree hdepth
    (show s.Ahead pos (.identifier first :: t :: tokens) from htail ▸ hahead) hnext.leavesName
  have hsize := hahead.size
  rw [length_tailTokens] at hsize
  generalize s.spanAt pos = span at hunary
  have hleft : (tree.alloc (.identifier { name := first }) (some span)).2.Shows tree.size
      (.name first) := .name (tree.node_alloc_self _ _)
  obtain ⟨id, tree', shown, hrun, hcontinues, hshows, hgroups⟩ :=
    climbs_loopUpTo least (s.reading pos tree).currentSpan hallow hoperand
      (Nat.le_of_lt_succ hlt) hahead.tail
      (show rest.length < 4 * s.tokens.size + 1 by omega) hleft .name (frontier_nil rest)
  refine ⟨id, tree', shown, ?_, (Tree.Continues.alloc (.refl _) _ _).trans hcontinues, hshows,
    hgroups⟩
  rw [Parse.binary, bind_of_ok (currentSpan_apply _), bind_of_ok hunary]
  exact hrun

theorem climber_upTo (hallow : s.allowIn = true) (hdepth : s.depth < maxDepth) (n : Nat) :
    Climber s n (Grammar.upTo n).binary := by
  induction n with
  | zero => exact fun _ _ _ _ _ hlt => absurd hlt (Nat.not_lt_zero _)
  | succ n ih => exact ih.binary hallow hdepth

theorem takeWhile_admits_nullCoalescing (rest : List (InfixOperator × String)) :
    rest.takeWhile Precedence.nullCoalescing.admits = rest :=
  List.takeWhile_eq_self_iff.mpr fun p _ => decide_eq_true p.1.level_pos

/-- No arrow function begins with a name that is left at once. -/
theorem arrowGuess_reading (hname : s.tokenAt pos = .identifier x)
    (hnext : LeavesName (s.tokenAt (pos + 1))) :
    ask arrowGuess (s.reading pos tree) = (.ok .no, s.reading pos tree) := by
  have hparams : startsParams (s.reading pos tree).peek = false := by
    have hpeek : (s.reading pos tree).peek = s.tokenAt (pos + 1) := rfl
    obtain ⟨hoperand, -, -, -, hkind, -⟩ := hnext
    rw [hpeek]
    unfold startsParams
    split
    · next heq =>
      rw [heq] at hkind
      cases hkind
    · next heq =>
      rw [heq] at hoperand
      cases hoperand
    · rfl
  have hasync : isAsync (s.reading pos tree) = false := by rw [isAsync, hparams, Bool.and_false]
  have hguess : arrowGuess (s.reading pos tree) = .no := by
    change guessAt (s.reading pos tree)
      (if isAsync (s.reading pos tree) then pos + 1 else pos) = .no
    have hname : (s.reading pos tree).tokenAt pos = .identifier x := hname
    have harrow : ((s.reading pos tree).tokenAt (pos + 1)).isPunct .arrow = false := hnext.arrow
    rw [hasync, if_neg Bool.false_ne_true, guessAt, hname]
    simp only [harrow, Bool.false_eq_true, if_false]
  simp [ask, hguess]

variable {id : NodeId} {pos' : Nat} {tree' : Tree}

theorem conditional_reading
    (hrun : Parse.binary g .nullCoalescing (s.reading pos tree) = (.ok id, s.reading pos' tree'))
    (hend : (s.tokenAt pos').isPunct .question = false) :
    conditional g (s.reading pos tree) = (.ok id, s.reading pos' tree') := by
  have hquestion : eat .question (s.reading pos' tree') = (.ok false, s.reading pos' tree') :=
    eat_reading hend
  rw [conditional, bind_of_ok (currentSpan_apply _), bind_of_ok hrun, bind_of_ok hquestion]
  rfl

theorem plainAssignment_reading (hbegin : (s.tokenAt pos).isKeyword .yieldWord = false)
    (hrun : conditional g (s.reading pos tree) = (.ok id, s.reading pos' tree'))
    (hend : AssignmentOperator.ofToken? (s.tokenAt pos') = none) :
    plainAssignment g (s.reading pos tree) = (.ok id, s.reading pos' tree') := by
  have hyield : checkKeyword .yieldWord (s.reading pos tree) = (.ok false, s.reading pos tree) := by
    simp [checkKeyword, ask, hbegin]
  rw [plainAssignment, bind_of_ok hyield]
  change (Parser.currentSpan >>= _) (s.reading pos tree) = _
  rw [bind_of_ok (currentSpan_apply _), bind_of_ok hrun, bind_of_ok (current_apply s _ _), hend]
  rfl

/-- An expression that begins with a name that is left at once. -/
theorem assignment_reading (hdepth : s.depth < maxDepth) (hname : s.tokenAt pos = .identifier x)
    (hnext : LeavesName (s.tokenAt (pos + 1)))
    (hrun : plainAssignment g (State.reading { s with depth := s.depth + 1 } pos tree) =
      (.ok id, State.reading { s with depth := s.depth + 1 } pos' tree')) :
    assignment g (s.reading pos tree) = (.ok id, s.reading pos' tree') := by
  refine nested_reading hdepth ?_
  rw [bind_of_ok (arrowGuess_reading (s := { s with depth := s.depth + 1 }) hname hnext)]
  exact hrun

theorem namedStatement_reading (hnext : LeavesName (s.tokenAt (pos + 1)))
    (hdeclare : x ≠ "declare") (habstract : x ≠ "abstract") :
    namedStatement g x (s.reading pos tree) = expressionStatement g (s.reading pos tree) := by
  obtain ⟨-, -, hfunction, -, hname, hcolon, -⟩ := hnext
  have hline : nextOnSameLine (s.reading pos tree) =
      (.ok !(s.reading pos tree).newlineBeforeAt (pos + 1), s.reading pos tree) := rfl
  have hpeek : Parser.peek (s.reading pos tree) =
      (.ok (s.tokenAt (pos + 1)), s.reading pos tree) := rfl
  rw [namedStatement, bind_of_ok hline, bind_of_ok hpeek]
  simp [hfunction, hname, hcolon, hdeclare, habstract]

theorem expressionStatement_reading {stop : Nat}
    (hrun : expression g (s.reading pos tree) = (.ok id, s.reading pos' tree'))
    (hsemicolon : consumeSemicolon (s.reading pos' tree') = (.ok (), s.reading stop tree')) :
    ∃ span, expressionStatement g (s.reading pos tree) = (.ok tree'.size,
      s.reading stop (tree'.alloc (.expressionStatement id) (some span)).2) := by
  refine ⟨(s.reading stop tree').spanFrom (s.reading pos tree).currentSpan, ?_⟩
  rw [expressionStatement, bind_of_ok (currentSpan_apply _), bind_of_ok hrun, bind_of_ok hsemicolon]
  rfl

theorem endsOperand_of_ahead {first : String} {rest : List (InfixOperator × String)}
    (hahead : s.Ahead pos (infixTokens first rest)) : EndsOperand (s.tokenAt (pos + 1)) := by
  obtain ⟨t, tokens, htail, hnext⟩ := endsOperand_head rest
  rwa [State.Ahead.tokenAt (htail ▸ hahead.tail)]

theorem tokenAt_end_of_ahead {first : String} {rest : List (InfixOperator × String)}
    (hahead : s.Ahead pos (infixTokens first rest)) :
    s.tokenAt (pos + 1 + 2 * rest.length) = .eof :=
  (State.Ahead.tailTokens rest (by rw [List.append_nil]; exact hahead.tail)).tokenAt

/-- All of a name and the operators after it, up to the end, is an expression. -/
theorem climbs_expression (tree : Tree) (hallow : s.allowIn = true)
    (hdepth : s.depth + 1 < maxDepth) {first : String} {rest : List (InfixOperator × String)}
    (hn : rest.length ≤ n)
    (hahead : s.Ahead pos (infixTokens first rest)) :
    Climbs s (expression (Grammar.upTo (n + 1))) pos tree first rest
      (pos + 1 + 2 * rest.length) := by
  -- operators are taken one level deeper, where the tokens are the same
  have hdeeper := climber_upTo (s := { s with depth := s.depth + 1 }) hallow hdepth n
  obtain ⟨id, tree', shown, hrun, hcontinues, hshows, hgroups⟩ :=
    Climber.binary (s := { s with depth := s.depth + 1 }) hallow hdepth hdeeper .nullCoalescing
      first rest pos tree (Nat.lt_succ_of_le hn) hahead
  rw [takeWhile_admits_nullCoalescing] at hrun hgroups
  have heof := tokenAt_end_of_ahead hahead
  have hname : s.tokenAt pos = .identifier first := hahead.tokenAt
  have hassignment : assignment (Grammar.upTo n) (s.reading pos tree) =
      (.ok id, s.reading (pos + 1 + 2 * rest.length) tree') := by
    refine assignment_reading (by omega) hname (endsOperand_of_ahead hahead).leavesName ?_
    refine plainAssignment_reading (s := { s with depth := s.depth + 1 })
      (congrArg (·.isKeyword .yieldWord) hname) ?_ (congrArg AssignmentOperator.ofToken? heof)
    exact conditional_reading hrun (congrArg (·.isPunct .question) heof)
  refine ⟨id, tree', shown, ?_, hcontinues, hshows, hgroups⟩
  rw [expression, bind_of_ok (currentSpan_apply _),
    bind_of_ok (separatedBy_reading .comma (show (Grammar.upTo (n + 1)).assignment _ = _ from
      hassignment) (congrArg (·.isPunct .comma) heof))]
  rfl

/-- An expression that is all there is, as a statement. -/
theorem statement_infix (tree : Tree) (hallow : s.allowIn = true) (hdepth : s.depth + 2 < maxDepth)
    {first : String} {rest : List (InfixOperator × String)} (hn : rest.length ≤ n)
    (hahead : s.Ahead pos (infixTokens first rest)) (hdeclare : first ≠ "declare")
    (habstract : first ≠ "abstract") :
    ∃ statement tree' id shown, Parse.statement (Grammar.upTo (n + 1)) (s.reading pos tree) =
        (.ok statement, s.reading (pos + 1 + 2 * rest.length) tree') ∧
      tree'.node statement = .expressionStatement id ∧ tree'.Shows id shown ∧
      Groups first rest shown := by
  obtain ⟨id, tree', shown, hrun, -, hshows, hgroups⟩ :=
    climbs_expression (s := { s with depth := s.depth + 1 }) tree hallow (by omega) hn
      hahead
  have heof := tokenAt_end_of_ahead hahead
  obtain ⟨span, hstatement⟩ := expressionStatement_reading hrun (consumeSemicolon_eof heof)
  refine ⟨tree'.size, (tree'.alloc (.expressionStatement id) (some span)).2, id, shown,
    nested_reading (by omega) ?_, tree'.node_alloc_self _ _,
    hshows.continues (.alloc (.refl _) _ _), hgroups⟩
  have hname : State.tokenAt { s with depth := s.depth + 1 } pos = .identifier first :=
    hahead.tokenAt
  rw [bind_of_ok (current_apply _ pos tree), hname]
  exact (namedStatement_reading (s := { s with depth := s.depth + 1 })
    (endsOperand_of_ahead hahead).leavesName hdeclare habstract).trans hstatement

/-- A program of one statement. -/
theorem program_of_statement {statement : NodeId} (hbegins : s.atEof = false)
    (hsize : 0 < s.tokens.size) (herrors : s.errors = #[])
    (hrun : Parse.statement (Grammar.upTo (maxDepth + s.weight + 2)) s =
      (.ok statement, s.reading pos tree)) (heof : s.tokenAt pos = .eof) :
    ∃ t root, program s = .ok t ∧ t.root = some root ∧ t.node root = .program [statement] ∧
      tree.size ≤ t.size ∧ ∀ i < tree.size, t.node i = tree.node i := by
  obtain ⟨fuel, hfuel⟩ := Nat.exists_eq_add_of_lt hsize
  have hstatements : statements (Grammar.upTo (maxDepth + s.weight + 2)) (s.tokens.size + 1) [] s =
      ([statement], s.reading pos tree) := by
    rw [show s.tokens.size + 1 = fuel + 2 by omega]
    exact statements_one hbegins hrun (congrArg Token.isEof heof)
  let range : Span := ⟨0, byteLength s.source, 1, 1⟩
  let made := (tree.alloc (.program [statement]) (some range)).2.withRoot tree.size
  have hprogram : program s = .ok made.linkParents := by
    rw [program, hstatements]
    simp only [State.reading, herrors]
    rfl
  have hlinked := Tree.relinked_linkParents (show made.root = some tree.size from rfl)
  have hcontinues := (Tree.Continues.refl tree).alloc (.program [statement]) (some range)
  refine ⟨made.linkParents, tree.size, hprogram, hlinked.root, ?_, ?_, fun i hi => ?_⟩
  · exact (hlinked.node _).trans (tree.node_alloc_self _ _)
  · rw [hlinked.size]
    exact hcontinues.size_le
  · exact (hlinked.node i).trans (hcontinues.node_of_lt hi)

end Parse

open Parse in
/-- A name, and operators with a name after each, are parsed as an expression, and the tree that is
made is the one in which they group. If they are all of a text, and the first name does not begin a
declaration, the program has one statement, this expression. -/
theorem parse_infix {source : List Char} {tokens : List SpannedToken} {first : String}
    {rest : List (InfixOperator × String)} (hkinds : tokens.map Prod.fst = infixTokens first rest) :
    ∃ shown, (∀ shown', Groups first rest shown' ↔ shown' = shown) ∧
      (∃ id s, withGrammar expression { source, tokens := tokens.toArray } = (.ok id, s) ∧
        s.atEof ∧ s.tree.Shows id shown) ∧
      (tokenize source = .ok tokens → first ≠ "declare" → first ≠ "abstract" →
        ∃ t root statement id, parse source = .ok t ∧ t.root = some root ∧
          t.node root = .program [statement] ∧ t.node statement = .expressionStatement id ∧
          t.Shows id shown) := by
  let s : State := { source, tokens := tokens.toArray }
  have hahead : s.Ahead 0 (infixTokens first rest) := hkinds
  have hsize : s.tokens.size = 2 * rest.length + 2 := by
    have hsize := hahead.size
    rw [length_tailTokens] at hsize
    omega
  have hn : rest.length ≤ maxDepth + s.weight + 1 := by
    unfold State.weight
    omega
  have heof := tokenAt_end_of_ahead hahead
  obtain ⟨id, tree, shown, hrun, -, hshows, hgroups⟩ :=
    climbs_expression {} (show s.allowIn = true from rfl) (show 0 + 1 < maxDepth by decide) hn
      hahead
  refine ⟨shown, fun shown' => ⟨fun h => h.unique hgroups, fun h => h ▸ hgroups⟩,
    ⟨id, _, hrun, congrArg Token.isEof heof, hshows⟩, fun hscan hdeclare habstract => ?_⟩
  obtain ⟨statement, tree', id', shown', hstatement, hnode, hshows', hgroups'⟩ :=
    statement_infix {} (show s.allowIn = true from rfl) (show 0 + 2 < maxDepth by decide) hn
      hahead hdeclare habstract
  obtain ⟨t, root, hprogram, hroot, hbody, -, hsame⟩ :=
    program_of_statement (congrArg Token.isEof hahead.tokenAt) (by omega) rfl hstatement heof
  have hsame := fun i hi => hsame i (Tree.lt_size_of_node_ne hi)
  refine ⟨t, root, statement, id', parse_of_program hscan hprogram, hroot, hbody, ?_, ?_⟩
  · exact (hsame _ (by simp [hnode, Node.missing])).trans hnode
  · rw [hgroups.unique hgroups']
    exact hshows'.congr hsame

theorem parse_infix_mixed : ∃ tokens, tokenize "a + b ** c ** d || e".toList = .ok tokens ∧
    tokens.map Prod.fst = infixTokens "a" [(.binary .add, "b"), (.binary .exponent, "c"),
      (.binary .exponent, "d"), (.logical .or, "e")] ∧
    ∃ t root statement id, parse "a + b ** c ** d || e".toList = .ok t ∧ t.root = some root ∧
      t.node root = .program [statement] ∧ t.node statement = .expressionStatement id ∧
      t.Shows id (.join (.logical .or)
        (.join (.binary .add) (.name "a")
          (.join (.binary .exponent) (.name "b")
            (.join (.binary .exponent) (.name "c") (.name "d"))))
        (.name "e")) := by
  have hpower : Groups "b" ([] ++ (.binary .exponent, "c") :: [(.binary .exponent, "d")])
      (.join (.binary .exponent) (.name "b") (.join (.binary .exponent) (.name "c") (.name "d"))) :=
    .join ⟨by decide, by decide⟩ .name
      (show Groups "c" ([] ++ (.binary .exponent, "d") :: []) _ from
        .join ⟨by decide, by decide⟩ .name .name)
  have hsum : Groups "a" ([] ++ (.binary .add, "b") ::
      [(.binary .exponent, "c"), (.binary .exponent, "d")]) _ :=
    .join ⟨by decide, by decide⟩ .name hpower
  have hgroups : Groups "a" ([(.binary .add, "b"), (.binary .exponent, "c"),
      (.binary .exponent, "d")] ++ (.logical .or, "e") :: []) _ :=
    .join ⟨by decide, by decide⟩ hsum .name
  obtain ⟨tokens, hscan, hkinds⟩ : ∃ tokens, tokenize "a + b ** c ** d || e".toList = .ok tokens ∧
      tokens.map Prod.fst = infixTokens "a" [(.binary .add, "b"), (.binary .exponent, "c"),
        (.binary .exponent, "d"), (.logical .or, "e")] := ⟨_, rfl, rfl⟩
  obtain ⟨shown, hshown, -, hprogram⟩ := parse_infix hkinds
  obtain ⟨t, root, statement, id, hparse, hroot, hbody, hstatement, hshows⟩ :=
    hprogram hscan (by decide) (by decide)
  refine ⟨tokens, hscan, hkinds, t, root, statement, id, hparse, hroot, hbody, hstatement, ?_⟩
  rwa [(hshown _).mp hgroups]

end ScriptLint
