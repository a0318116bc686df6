import ScriptLint.Proofs.Parse.Suffix

namespace ScriptLint
namespace Parse

open ScriptLint.Parser

variable {s : State} {pos pos' stop : Nat} {name : String} {P Q : Tree → NodeId → Prop}

theorem beginsOperand_this : BeginsOperand (.keyword .thisWord) :=
  ⟨rfl, rfl, rfl, rfl⟩

/-- A call with one argument. -/
def Called (P Q : Tree → NodeId → Prop) (t : Tree) (i : NodeId) : Prop :=
  ∃ callee argument, t.node i = .callExpression callee [argument] false ∧ P t callee ∧ Q t argument

theorem lasting_called (hp : Lasting P) (hq : Lasting Q) : Lasting (Called P Q) := by
  rintro t t' i ⟨callee, argument, hnode, hcallee, hargument⟩ hsize hsame
  exact ⟨callee, argument, Tree.node_of_kept hsame hnode (by simp [Node.missing]),
    hp _ _ _ hcallee hsize hsame, hq _ _ _ hargument hsize hsame⟩

theorem Follows.call (hs : Whole s) (hopen : s.tokenAt pos = .punct .leftParen)
    (hdots : (s.tokenAt (pos + 1)).isPunct .dotDotDot = false)
    (hcloses : (s.tokenAt (pos + 1)).isPunct .rightParen = false)
    (heof : (s.tokenAt (pos + 1)).isEof = false)
    (h : Makes Grammar.assignment s (pos + 1) pos' Q)
    (hclose : s.tokenAt pos' = .punct .rightParen) (hp : Lasting P) (hq : Lasting Q) :
    Follows s false pos (pos' + 1) P (Called P Q) := by
  intro k hk start tree e hcallee
  have hsize := hs.succ_lt_size (show s.tokenAt pos ≠ .eof by simp [hopen])
  have hsize' := hs.succ_lt_size (show s.tokenAt pos' ≠ .eof by simp [hclose])
  have hreach := (State.reach_reading_le (s := s) (Nat.le_succ pos) {} {}).trans hk
  obtain ⟨argument, tree', hrun, hcontinues, hargument⟩ := h k hreach tree
  have hitem : (do
      let value ← spreadOrAssignment (Grammar.upTo k)
      if !(← check .rightParen) then expect .comma
      return value : Parser NodeId) (s.reading (pos + 1) tree) = (.ok argument, s.reading pos' tree') := by
    have hdots : check .dotDotDot (s.reading (pos + 1) tree) =
        (.ok false, s.reading (pos + 1) tree) := by
      simp [check, ask, hdots]
    have hclose : check .rightParen (s.reading pos' tree') = (.ok true, s.reading pos' tree') := by
      simp [check, ask, hclose, Token.isPunct]
    have hspread : spreadOrAssignment (Grammar.upTo k) (s.reading (pos + 1) tree) =
        (.ok argument, s.reading pos' tree') := by
      rw [spreadOrAssignment, bind_of_ok hdots]
      exact hrun
    rw [bind_of_ok hspread, bind_of_ok hclose]
    rfl
  have hitems : arguments (Grammar.upTo k) (s.reading pos tree) =
      (.ok [argument], s.reading (pos' + 1) tree') := by
    have hloop := loop_of_next_stop (turnUntil_item hcloses heof hitem [])
      (turnUntil_close _ hclose _) (show 0 < s.tokens.size by omega)
    have hlist : commaSeparated .rightParen (spreadOrAssignment (Grammar.upTo k))
        (s.reading (pos + 1) tree) = (.ok [argument], s.reading pos' tree') :=
      itemsUntil_of_loop hloop
    rw [arguments, bind_of_ok (expect_reading hopen hsize)]
    refine withIn_reading hs.allowIn ?_
    rw [bind_of_ok hlist, bind_of_ok (expect_reading hclose hsize')]
    rfl
  let span := (s.reading (pos' + 1) tree').spanFrom start
  have hlast := (Tree.Continues.refl tree').alloc (.callExpression e [argument] false) (some span)
  refine ⟨tree'.size, _, ?_, hcontinues.trans hlast, e, argument, tree'.node_alloc_self _ _,
    hp.continues hcallee (hcontinues.trans hlast), hq.continues hargument hlast⟩
  rw [suffix?_call _ _ _ _ hopen, bind_of_ok hitems]
  rfl

/-- An arrow function of one parameter and an expression. -/
def Arrowed (name : String) (P : Tree → NodeId → Prop) (t : Tree) (i : NodeId) : Prop :=
  ∃ param body, t.node i = .arrowFunctionExpression
      { params := [param], body, isAsync := false, expression := true, returnType := none } ∧
    t.node param = .identifier { name } ∧ P t body

theorem lasting_arrowed (name : String) (h : Lasting P) : Lasting (Arrowed name P) := by
  rintro t t' i ⟨param, body, hnode, hparam, hp⟩ hsize hsame
  exact ⟨param, body, Tree.node_of_kept hsame hnode (by simp [Node.missing]),
    Tree.node_of_kept hsame hparam (by simp [Node.missing]), h _ _ _ hp hsize hsame⟩

theorem arrowFunction_reading {g : Grammar} {tree tree' : Tree} {body : NodeId}
    (hname : s.tokenAt pos = .identifier name) (harrow : s.tokenAt (pos + 1) = .punct .arrow)
    (hbrace : (s.tokenAt (pos + 2)).isPunct .leftBrace = false) (hsize : pos + 2 < s.tokens.size)
    (hrun : g.assignment (s.reading (pos + 2)
        (tree.alloc (.identifier { name }) (some (s.spanAt pos))).2) =
      (.ok body, s.reading pos' tree')) :
    ∃ span, arrowFunction g (s.reading pos tree) = (.ok tree'.size, s.reading pos'
      (tree'.alloc (.arrowFunctionExpression
        { params := [tree.size], body, isAsync := false, expression := true, returnType := none })
        (some span)).2) := by
  refine ⟨(s.reading pos' tree').spanFrom (s.spanAt pos), ?_⟩
  let named := (tree.alloc (.identifier { name }) (some (s.spanAt pos))).2
  have hasync : checkName "async" (s.reading pos tree) =
      (.ok ((s.tokenAt pos).isName "async"), s.reading pos tree) := rfl
  have hpeek : Parser.peek (s.reading pos tree) = (.ok (s.tokenAt (pos + 1)), s.reading pos tree) := rfl
  have htypes : skipTypeParameters (s.reading pos tree) = (.ok (), s.reading pos tree) := by
    rw [skipTypeParameters, bind_of_ok (eat_reading (by rw [hname]; rfl))]
    rfl
  have hat : atIdentifier (s.reading pos tree) = (.ok true, s.reading pos tree) := by
    simp [atIdentifier, ask, hname]
  have hparam : identifier (s.reading pos tree) = (.ok tree.size, s.reading (pos + 1) named) :=
    identifier_reading hname (Nat.lt_of_succ_lt hsize)
  have hparams : ((fun id => [id]) <$> identifier) (s.reading pos tree) =
      (.ok [tree.size], s.reading (pos + 1) named) := (bind_of_ok hparam).trans rfl
  have hreturn : typeAscription? g (s.reading (pos + 1) named) =
      (.ok none, s.reading (pos + 1) named) :=
    optionally_reading _ (by simp [check, ask, harrow, Token.isPunct])
  have hblock : check .leftBrace (s.reading (pos + 2) named) =
      (.ok false, s.reading (pos + 2) named) := by
    simp [check, ask, hbrace]
  rw [arrowFunction, bind_of_ok (currentSpan_apply _), bind_of_ok hasync, bind_of_ok hpeek, harrow]
  simp only [Token.isPunct, beq_self_eq_true, Bool.not_true, Bool.and_false, Bool.false_eq_true,
    if_false]
  rw [bind_of_ok htypes, bind_of_ok hat, if_pos rfl, bind_of_ok hparams, bind_of_ok hreturn,
    bind_of_ok (expect_reading harrow hsize), bind_of_ok hblock]
  change (g.assignment >>= _) (s.reading (pos + 2) named) = _
  rw [bind_of_ok hrun]
  rfl

/-- A name, an arrow and an expression. -/
theorem Makes.arrow (hs : Whole s) (hdepth : s.depth < maxDepth)
    (hname : s.tokenAt pos = .identifier name) (harrow : s.tokenAt (pos + 1) = .punct .arrow)
    (hbrace : (s.tokenAt (pos + 2)).isPunct .leftBrace = false)
    (h : Makes Grammar.assignment s.deeper (pos + 2) pos' P) (hlasting : Lasting P) :
    Makes Grammar.assignment s pos pos' (Arrowed name P) := by
  intro k hk tree
  have hname : s.deeper.tokenAt pos = .identifier name := hname
  have harrow : s.deeper.tokenAt (pos + 1) = .punct .arrow := harrow
  have hbrace : (s.deeper.tokenAt (pos + 2)).isPunct .leftBrace = false := hbrace
  have hsize : pos + 1 < s.deeper.tokens.size :=
    hs.succ_lt_size (by simp [show s.tokenAt pos = _ from hname])
  have hsize' : pos + 2 < s.deeper.tokens.size :=
    hs.succ_lt_size (by simp [show s.tokenAt (pos + 1) = _ from harrow])
  have hreach := s.reach_deeper hdepth pos {} {}
  have hreach' := State.reach_reading_le (s := s.deeper) (show pos ≤ pos + 2 by omega) {} {}
  obtain ⟨levels, rfl⟩ := Nat.exists_eq_add_one_of_ne_zero (show k ≠ 0 by omega)
  let named := (tree.alloc (.identifier { name }) (some (s.deeper.spanAt pos))).2
  obtain ⟨body, tree', hrun, hcontinues, hp⟩ := h levels (by omega) named
  have hguess : arrowGuess (s.deeper.reading pos tree) = .yes := by
    change guessAt (s.deeper.reading pos tree)
      (if isAsync (s.deeper.reading pos tree) then pos + 1 else pos) = .yes
    have hasync : isAsync (s.deeper.reading pos tree) = false := by
      have hpeek : (s.deeper.reading pos tree).peek = s.deeper.tokenAt (pos + 1) := rfl
      rw [isAsync, hpeek, harrow]
      exact Bool.and_false _
    have htoken : (s.deeper.reading pos tree).tokenAt pos = .identifier name := hname
    have hnext : (s.deeper.reading pos tree).tokenAt (pos + 1) = .punct .arrow := harrow
    rw [hasync, if_neg Bool.false_ne_true, guessAt, htoken]
    simp only [hnext]
    rfl
  have hparam : tree'.node tree.size = .identifier { name } :=
    (hcontinues.node_of_lt (by simp [named])).trans (tree.node_alloc_self _ _)
  obtain ⟨span, hmade⟩ := arrowFunction_reading hname harrow hbrace hsize' hrun
  have hnamed : tree.Continues named := .alloc (.refl _) _ _
  have hlast := (Tree.Continues.refl tree').alloc (.arrowFunctionExpression
    { params := [tree.size], body, isAsync := false, expression := true, returnType := none })
    (some span)
  refine ⟨tree'.size, _, nested_reading hdepth ?_, hnamed.trans (hcontinues.trans hlast), tree.size,
    body, tree'.node_alloc_self _ _, ?_, hlasting.continues hp hlast⟩
  · rw [hguess]
    exact hmade
  · exact (hlast.node_of_lt (Tree.lt_size_of_node_ne (by simp [hparam, Node.missing]))).trans hparam

/-- A method that is called with an arrow function is an expression. -/
theorem Accesses.expression {method param : String} (h : Accesses s.deeper.deeper false pos pos' P)
    (hs : Whole s) (hdepth : s.depth + 2 < maxDepth) (hp : Lasting P) (hq : Lasting Q)
    (hbegins : BeginsOperand (s.tokenAt pos)) (hdot : s.tokenAt pos' = .punct .dot)
    (hmethod : s.tokenAt (pos' + 1) = .identifier method)
    (hopen : s.tokenAt (pos' + 2) = .punct .leftParen)
    (hparam : s.tokenAt (pos' + 3) = .identifier param)
    (harrow : s.tokenAt (pos' + 4) = .punct .arrow)
    (hbrace : (s.tokenAt (pos' + 5)).isPunct .leftBrace = false)
    (hbody : Makes Grammar.assignment s.deeper.deeper.deeper (pos' + 5) stop Q) (hlt : pos' + 5 ≤ stop)
    (hclose : s.tokenAt stop = .punct .rightParen) (hend : EndsExpression (s.tokenAt (stop + 1))) :
    Makes Parse.expression s pos (stop + 1) (Called (Accessed false method P) (Arrowed param Q)) := by
  have hdot' : s.deeper.deeper.tokenAt pos' = .punct (dotMark false) := hdot
  have hopen' : s.deeper.deeper.tokenAt (pos' + 2) = .punct .leftParen := hopen
  have hparam' : s.deeper.deeper.tokenAt (pos' + 3) = .identifier param := hparam
  have hsize := hs.succ_lt_size (show s.tokenAt (pos' + 1) ≠ .eof by simp [hmethod])
  have hsize' := hs.succ_lt_size (show s.tokenAt stop ≠ .eof by simp [hclose])
  have haccess := h.follows (Follows.access hdot' (show names (s.tokenAt (pos' + 1)) = _ by
    rw [hmethod]; rfl) hsize hp) (by omega)
  have hargument : Makes Grammar.assignment s.deeper.deeper (pos' + 2 + 1) stop (Arrowed param Q) :=
    Makes.arrow hs.deeper.deeper hdepth hparam harrow hbrace hbody hq
  have hcall := haccess.follows (Follows.call hs.deeper.deeper hopen' (by rw [hparam']; rfl)
    (by rw [hparam']; rfl) (by rw [hparam']; rfl) hargument hclose (lasting_accessed false method hp)
    (lasting_arrowed param hq)) (by omega)
  have hunary : Makes Parse.unary s.deeper pos (stop + 1) (Called (Accessed false method P) (Arrowed param Q)) :=
    Accesses.unary hcall hbegins (Nat.lt_of_succ_lt hdepth) hsize'.le hend.operand hend.update
      (lasting_called (lasting_accessed false method hp) (lasting_arrowed param hq))
  have hbinary := (hunary.gathers .nullCoalescing).binary le_rfl
    ⟨hs.allowIn, hsize', hend.isName _, fun operator hoperator => by
      have hnone := hend.joins.symm.trans hoperator
      cases hnone⟩
  exact (hbinary.assignment hs (Nat.lt_of_succ_lt (Nat.lt_of_succ_lt hdepth)) hend).expression hend

end Parse

namespace Tree

open Parse

variable {t : Tree} {id : NodeId} {ts : List Token}

/-- The tokens of a name or `this`, and a dot and a name for each property that is accessed. -/
inductive Path (t : Tree) : NodeId → List Token → Prop
  | name {id : NodeId} {name : String} (hnode : t.node id = .identifier { name }) :
      Path t id [.identifier name]
  | this {id : NodeId} (hnode : t.node id = .thisExpression) : Path t id [.keyword .thisWord]
  | access {id object property : NodeId} {ts : List Token} {token : Token} {name : String}
      (hnode : t.node id = .memberExpression
        { object, property, computed := false, optional := false })
      (hne : object ≠ property) (hproperty : t.node property = .identifier { name })
      (htoken : names token = some name) (h : Path t object ts) :
      Path t id (ts ++ [.punct .dot, token])

theorem Path.exists_cons (h : t.Path id ts) :
    ∃ token more, ts = token :: more ∧ BeginsOperand token ∧ (token.isPunct .semicolon ||
      token.isPunct .rightBrace || token.isEof) = false := by
  induction h with
  | name => exact ⟨_, _, rfl, beginsOperand_identifier _, rfl⟩
  | this => exact ⟨_, _, rfl, beginsOperand_this, rfl⟩
  | access _ _ _ _ _ ih =>
    obtain ⟨token, more, rfl, hbegins⟩ := ih
    exact ⟨token, _, rfl, hbegins⟩

/-- The tokens of a path are read as a copy of it. -/
theorem Path.accesses {s : State} {pos : Nat} (h : t.Path id ts) (hs : Whole s)
    (htokens : ∀ k a, ts[k]? = some a → s.tokenAt (pos + k) = a)
    (hnext : (s.tokenAt (pos + ts.length)).isKeyword .functionWord = false) :
    Accesses s false pos (pos + ts.length) fun t' i' => t.Copied .none t' id i' := by
  induction h with
  | @name id name hnode =>
    have hname : s.tokenAt pos = .identifier name := htokens 0 _ rfl
    refine (Accesses.identifier hname hnext (hs.succ_lt_size (by simp [hname]))).weaken
      fun t' i' hnode' => ?_
    refine .node (fun j => j) List.not_mem_nil (lt_size_of_node_ne (by simp [hnode', Node.missing]))
      (by rw [hnode', hnode]; rfl) ?_
    simp [children, hnode, Node.children]
  | @this id hnode =>
    have hthis : s.tokenAt pos = .keyword .thisWord := htokens 0 _ rfl
    refine (Accesses.this hthis (hs.succ_lt_size (by simp [hthis]))).weaken fun t' i' hnode' => ?_
    refine .node (fun j => j) List.not_mem_nil (lt_size_of_node_ne (by simp [hnode', Node.missing]))
      (by rw [hnode', hnode]; rfl) ?_
    simp [children, hnode, Node.children]
  | @access id object property ts token name hnode hne hproperty htoken _ ih =>
    have hdot : s.tokenAt (pos + ts.length) = .punct (dotMark false) :=
      htokens _ _ (by simp [dotMark])
    have hnamed : s.tokenAt (pos + ts.length + 1) = token := by
      rw [Nat.add_assoc]
      exact htokens _ _ (by simp)
    have hsize : pos + ts.length + 2 < s.tokens.size := hs.succ_lt_size (by
      rw [hnamed]
      rintro rfl
      cases htoken)
    have hobject := ih (fun k a hk => htokens k a (by
      rw [List.getElem?_append_left (List.getElem?_eq_some_iff.mp hk).1, hk])) (by rw [hdot]; rfl)
    have hwhole := hobject.follows (Follows.access hdot (by rw [hnamed, htoken]) hsize
      (lasting_copied _ t object)) (by omega)
    rw [List.length_append]
    refine hwhole.weaken fun t' i' haccess => ?_
    obtain ⟨object', property', hnode', hproperty', hcopied⟩ := haccess
    refine .node (fun j => if j = object then object' else property') List.not_mem_nil
      (lt_size_of_node_ne (by simp [hnode', Node.missing])) ?_ ?_
    · simp [hnode', hnode, Node.renumber, hne.symm]
    · simp only [children, hnode, Node.children, List.mem_pair]
      rintro j (rfl | rfl)
      · simpa using hcopied
      · rw [if_neg hne.symm]
        refine .node (fun j => j) List.not_mem_nil (lt_size_of_node_ne (by simp [hproperty', Node.missing]))
          (by rw [hproperty', hproperty]; rfl) ?_
        simp [children, hproperty, Node.children]

theorem Path.movedTo (h : t.Path id ts) {token : Token} (htoken : token ∈ ts) (p : Position) :
    token.movedTo p = token := by
  induction h with
  | name | this =>
    rw [List.mem_singleton.mp htoken]
    rfl
  | access _ _ _ hnames _ ih =>
    rcases List.mem_append.mp htoken with hmem | hmem
    · exact ih hmem
    · rcases List.mem_pair.mp hmem with rfl | rfl
      · rfl
      · cases token <;> first | rfl | cases hnames

end Tree

open Position (origin)

namespace Parse

open ScriptLint.Parser

variable {text tail : List Char} {inner : List SpannedToken}

/-- A call of a method with an arrow function, as it is put together from texts. -/
structure CallText where
  array : List Char
  path : List SpannedToken
  method : String
  param : String
  body : List Char
  inner : List SpannedToken

namespace CallText

def whole (c : CallText) : List Char :=
  c.array ++ (['.'] ++ (c.method.toList ++ (['('] ++ (c.param.toList ++
    ([' '] ++ (['=', '>'] ++ [' ']) ++ (c.body ++ [')']))))))

/-- The texts have these tokens where they stand. -/
structure Spelled (c : CallText) : Prop where
  array : ∀ more, Spells c.array c.path ('.' :: more)
  dot : ∀ more, Spells ['.'] [(.punct .dot, firstSpan)] (c.method.toList ++ more)
  method : ∀ more, Spells c.method.toList
    [(.identifier c.method, .between origin (origin.after c.method.toList))] ('(' :: more)
  param : ∀ more, Spells c.param.toList
    [(.identifier c.param, .between origin (origin.after c.param.toList))] (' ' :: more)
  body : ∀ more, Spells c.body c.inner (')' :: more)

/-- In the tokens of a text stands such a call. -/
structure Shows (c : CallText) (s : State) (pos : Nat) (tail : List Char) : Prop where
  path : ∀ {k a}, c.path[k]? = some a → ∃ p, s.tokenAt (pos + k) = a.1.movedTo p
  dot : s.tokenAt (pos + c.path.length) = .punct .dot
  method : s.tokenAt (pos + c.path.length + 1) = .identifier c.method
  opens : s.tokenAt (pos + c.path.length + 2) = .punct .leftParen
  param : s.tokenAt (pos + c.path.length + 3) = .identifier c.param
  arrow : s.tokenAt (pos + c.path.length + 4) = .punct .arrow
  body : Stands s (pos + c.path.length + 5) c.body c.inner (')' :: tail)
  closes : s.tokenAt (pos + c.path.length + 5 + c.inner.length) = .punct .rightParen

variable {c : CallText}

theorem Shows.tokenAt_path {s : State} {pos k : Nat} {tail : List Char} {token : Token}
    (h : c.Shows s pos tail) {t : Tree} {id : NodeId} (hpath : t.Path id (c.path.map Prod.fst))
    (hk : (c.path.map Prod.fst)[k]? = some token) : s.tokenAt (pos + k) = token := by
  rw [List.getElem?_map, Option.map_eq_some_iff] at hk
  obtain ⟨b, hb, rfl⟩ := hk
  obtain ⟨p, htoken⟩ := h.path hb
  rw [htoken, hpath.movedTo (List.mem_map_of_mem (List.mem_of_getElem? hb))]

/-- A call is read as one: the receiver as a copy of a path, and the argument as an arrow function of
which the body is an expression. -/
theorem Shows.expression {s : State} {pos : Nat} {tail : List Char} (h : c.Shows s pos tail)
    {t : Tree} {id : NodeId} (hpath : t.Path id (c.path.map Prod.fst)) (hs : Whole s)
    (hdepth : s.depth + 3 < maxDepth)
    (hbody : Phrased (s.depth + 4) (.operands .logicalOr) c.body c.inner Q)
    (hbrace : ∀ a ∈ c.inner.head?, a.1.isPunct .leftBrace = false)
    (hend : EndsExpression (s.tokenAt (pos + c.path.length + 5 + c.inner.length + 1))) :
    Makes Parse.expression s pos (pos + c.path.length + 5 + c.inner.length + 1)
      (Called (Accessed false c.method fun t' i' => t.Copied .none t' id i') (Arrowed c.param Q)) := by
  obtain ⟨token, more, htokens, hbegins, -⟩ := hpath.exists_cons
  have hfirst : s.tokenAt pos = token := h.tokenAt_path hpath (k := 0) (by rw [htokens]; rfl)
  have haccesses : Accesses s.deeper.deeper false pos (pos + c.path.length) fun t' i' =>
      t.Copied .none t' id i' := by
    have haccesses := hpath.accesses hs.deeper.deeper (fun _ _ => h.tokenAt_path hpath) (by
      rw [List.length_map]
      exact congrArg (·.isKeyword .functionWord) h.dot)
    rwa [List.length_map] at haccesses
  have hclose := h.closes
  have hsize := hs.succ_lt_size (show s.tokenAt (pos + c.path.length + 5 + c.inner.length) ≠ .eof by
    rw [hclose]
    exact nofun)
  have hgathers : Gathers s.deeper.deeper.deeper.deeper .logicalOr (pos + c.path.length + 5)
      (pos + c.path.length + 5 + c.inner.length) Q :=
    hbody.reads hs.deeper.deeper.deeper.deeper le_rfl h.body
      ((Lexeme.stops_cons (by decide) tail).clear _) ((marks_rightParen []).meets tail) ⟨rfl, nofun⟩
  have hclosing : EndsExpression (s.tokenAt (pos + c.path.length + 5 + c.inner.length)) :=
    hclose ▸ endsExpression_rightParen
  have hloosest : Precedence.nullCoalescing.level ≤ Precedence.logicalOr.level := by decide
  have hbinary := hgathers.binary hloosest
    ⟨hs.allowIn, Nat.lt_of_succ_lt hsize, hclosing.isName _, fun operator hoperator => by
      have hnone := hclosing.joins.symm.trans hoperator
      cases hnone⟩
  have hassignment : Makes Grammar.assignment s.deeper.deeper.deeper _ _ Q :=
    hbinary.assignment hs.deeper.deeper.deeper hdepth hclosing
  have hbrace : (s.tokenAt (pos + c.path.length + 5)).isPunct .leftBrace = false := by
    cases hinner : c.inner with
    | nil =>
      rw [hinner] at hclose
      exact congrArg (·.isPunct .leftBrace) hclose
    | cons a rest =>
      have hbody := h.body
      rw [hinner] at hbody
      obtain ⟨p, htoken⟩ := hbody.tokenAt_add (k := 0) rfl
      have hfirst := hbrace a (by rw [hinner]; rfl)
      rw [show s.tokenAt (pos + c.path.length + 5) = _ from htoken]
      generalize a.1 = first at hfirst
      cases first <;> exact hfirst
  exact haccesses.expression hs (Nat.lt_of_succ_lt hdepth) (Tree.lasting_copied .none t id)
    hbody.lasting (hfirst ▸ hbegins) h.dot h.method h.opens h.param h.arrow hbrace hassignment
    (Nat.le_add_right _ _) hclose hend

end CallText

end Parse
end ScriptLint
