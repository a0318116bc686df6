import ScriptLint.Proofs.Parse.Suffix

namespace ScriptLint
namespace Tree

/-- The nodes of a list are those of another tree, which stands below. -/
def ListedBelow (t : Tree) (items : List NodeId) (part : Tree) (roots : List NodeId) : Prop :=
  ∃ base, items = roots.map (base + ·) ∧ ∀ root < part.size, t.SameBelow (base + root) part root

end Tree

namespace Parse

open ScriptLint.Parser

variable {w : Passage} {m : Mark} {k : Nat} {s s' s'' : State} {pos pos' : Nat}

/-- The text ends, or a mark stands at which expressions do. -/
def atStop : Parser Bool := ask fun s => s.current.isEof || isStop s.current

/-- One argument, with the comma after it if there is more. -/
def argument (g : Grammar) : Parser NodeId := do
  let value ← spreadOrAssignment g
  if !(← atStop) then expect .comma
  return value

/-- Arguments without their parentheses. -/
def argumentList (g : Grammar) : Parser (List NodeId) := do
  let items ← loop [] fun items => do
    if ← atStop then return .stop items
    else return .next ((← argument g) :: items)
  return items.reverse

/-- One turn of the loop of `argumentList`. -/
def turnArguments (g : Grammar) (items : List NodeId) : Parser (Loop (List NodeId)) := do
  if ← atStop then return .stop items
  else return .next ((← argument g) :: items)

/-- One item of the list that the parentheses of a call hold. -/
def itemBeforeParen (g : Grammar) : Parser NodeId := do
  let value ← spreadOrAssignment g
  if !(← check .rightParen) then expect .comma
  return value

theorem atStop_apply (s : State) : atStop s = (.ok (s.current.isEof || isStop s.current), s) := rfl

theorem turnArguments_stop {g : Grammar} {items : List NodeId}
    (hstops : (s.current.isEof || isStop s.current) = true) :
    turnArguments g items s = (.ok (.stop items), s) := by
  rw [turnArguments, bind_of_ok (atStop_apply s), hstops]
  rfl

theorem turnArguments_next {g : Grammar} {items : List NodeId}
    (hstops : (s.current.isEof || isStop s.current) = false) :
    turnArguments g items s = (argument g >>= fun a => pure (.next (a :: items))) s := by
  rw [turnArguments, bind_of_ok (atStop_apply s), hstops]
  rfl

/-- A closing parenthesis is a stop. -/
theorem isPunct_of_stops (hstops : (s.current.isEof || isStop s.current) = false) :
    s.current.isPunct .rightParen = false := by
  by_contra hparen
  rw [eq_of_isPunct (Bool.eq_true_of_not_eq_false hparen)] at hstops
  cases hstops

/-- At a stop a list of arguments ends. -/
theorem eq_of_stops {g : Grammar} {fuel : Nat} {items found : List NodeId}
    (hstops : (s.current.isEof || isStop s.current) = true)
    (h : loopUpTo (turnArguments g) fuel items s = (.ok found, s')) : found = items ∧ s' = s := by
  cases fuel with
  | zero => cases h
  | succ fuel =>
    rw [loopUpTo, bind_of_ok (turnArguments_stop hstops)] at h
    cases h
    exact ⟨rfl, rfl⟩

theorem itemBeforeParen_of_argument {g : Grammar} {fuel : Nat} {value : NodeId}
    {items found : List NodeId} (h : argument g s = (.ok value, s'))
    (hrest : loopUpTo (turnArguments g) fuel items s' = (.ok found, s''))
    (hclose : s''.current = .punct .rightParen) : itemBeforeParen g s = (.ok value, s') := by
  obtain ⟨value', s₁, hvalue, h⟩ := exists_of_bind h
  rw [bind_of_ok (atStop_apply s₁)] at h
  rw [itemBeforeParen, bind_of_ok hvalue]
  have hcheck : check .rightParen s₁ = (.ok (s₁.current.isPunct .rightParen), s₁) := rfl
  rw [bind_of_ok hcheck]
  cases hstops : s₁.current.isEof || isStop s₁.current with
  | true =>
    rw [hstops] at h
    cases h
    obtain ⟨-, rfl⟩ := eq_of_stops hstops hrest
    rw [hclose]
    rfl
  | false =>
    rw [hstops] at h
    rw [isPunct_of_stops hstops]
    exact h

/-- Arguments that end before a closing parenthesis are the ones that a call takes there. -/
theorem loopUpTo_of_arguments {g : Grammar} {fuel : Nat} {items found : List NodeId}
    (h : loopUpTo (turnArguments g) fuel items s = (.ok found, s'))
    (hclose : s'.current = .punct .rightParen) :
    loopUpTo (turnUntil .rightParen (itemBeforeParen g)) fuel items s = (.ok found, s') := by
  induction fuel generalizing items s with
  | zero => cases h
  | succ fuel ih =>
    have hcheck : check .rightParen s = (.ok (s.current.isPunct .rightParen), s) := rfl
    have heof : Parser.atEof s = (.ok s.current.isEof, s) := rfl
    cases hstops : s.current.isEof || isStop s.current with
    | true =>
      obtain ⟨rfl, rfl⟩ := eq_of_stops hstops h
      have hturn : turnUntil .rightParen (itemBeforeParen g) found s' = (.ok (.stop found), s') := by
        rw [turnUntil, bind_of_ok hcheck, hclose]
        rfl
      rw [loopUpTo, bind_of_ok hturn]
      rfl
    | false =>
      rw [loopUpTo] at h
      obtain ⟨turn, s₁, hturn, h⟩ := exists_of_bind h
      rw [turnArguments_next hstops] at hturn
      obtain ⟨value, s₂, hvalue, hturn⟩ := exists_of_bind hturn
      cases hturn
      have hitem := itemBeforeParen_of_argument hvalue h hclose
      have hturn : turnUntil .rightParen (itemBeforeParen g) items s =
          (.ok (.next (value :: items)), s₁) := by
        rw [turnUntil, bind_of_ok hcheck, isPunct_of_stops hstops, bind_of_ok heof,
          (Bool.or_eq_false_iff.mp hstops).1]
        change (itemBeforeParen g >>= _) s = _
        rw [bind_of_ok hitem]
        rfl
      rw [loopUpTo, bind_of_ok hturn]
      exact ih h

theorem agrees_atStop :
    Agrees w m (fun b => m.knowing fun s => (s.current.isEof || isStop s.current) = b)
      fun _ => atStop :=
  Agrees.answer fun _ hs _ => hs.reads_current.apply (fun t => t.isEof || isStop t) (fun _ _ => rfl)
    fun _ _ t ht => by simp [ht, Token.isEof]

theorem agrees_argument {g : Side → Grammar} (hg : Grammars k g) (hm : m.Within k)
    (hclear : m.Clears w .nullCoalescing) :
    Agrees w m (fun _ => m.step) fun i => argument (g i) := by
  refine (agrees_spreadOrAssignment hg hm hclear).bind fun value => agrees_atStop.seq fun stops => ?_
  cases stops with
  | true => exact .pure value (fun _ => rfl) (Mark.knowing_implies _)
  | false =>
    refine ((Agrees.expect .comma rfl rfl).strengthen (Mark.knowing_implies _)).seq fun _ => ?_
    exact .pure value (fun _ => rfl) (Mark.step_implies _)

theorem agrees_argumentList {g : Side → Grammar} (hg : Grammars k g) (hm : m.Within k)
    (hclear : m.Clears w .nullCoalescing) :
    Agrees w m (fun _ => m.forget) fun i => argumentList (g i) := by
  refine .reversed (.loop [] (fun _ => rfl) fun j items => ?_)
  refine (agrees_atStop (m := m.turn j)).seq fun stops => ?_
  cases stops with
  | true => exact .pure (.stop items) (fun _ => rfl) (Mark.knowing_implies _)
  | false =>
    refine ((agrees_argument hg (m := m.turn j) hm hclear).strengthen (Mark.knowing_implies _)).bind
      fun value => ?_
    exact .pure (.next (value :: items)) (fun _ => rfl) (.refl _)

theorem grows_argument {g : Grammar} (hg : g.Sound) : GrowsNode (argument g) := by
  refine .of_leads fun s h => ?_
  refine (h.run (grows_spreadOrAssignment hg)).bind fun value s' h => .ask_bind ?_
  refine .when_bind (P := fun s' => Grown s s' false [value]) (fun _ => ?_) (fun _ => ?_)
    fun s' h => .pure h
  · exact (h.run (grows_expect .comma)).mono fun _ s' h => h.done (by simp)
  · simpa using h

theorem grows_argumentList {g : Grammar} (hg : g.Sound) : Grows (argumentList g) false id := by
  refine .of_leads fun s h => ?_
  refine .loop_bind (fun items s' => Grown s s' false items.reverse) h
    (fun _ _ h => h.frame) (fun items s' h => ?_) fun items s' h => .pure h
  refine .ask_bind (.ite (fun _ => .pure h) fun _ => ?_)
  refine (h.run (grows_argument hg)).bind fun item s' h => .pure ?_
  simpa [Leads.Turn] using h

theorem paired_argumentList : Paired .nullCoalescing argumentList where
  agrees := agrees_argumentList
  frame hg := (grows_argumentList hg).frame

/-- Arguments that end before a closing parenthesis are the ones that a call takes there. -/
theorem commaSeparated_of_argumentList {g : Grammar} {found : List NodeId}
    (h : argumentList g s = (.ok found, s')) (hclose : s'.current = .punct .rightParen) :
    commaSeparated .rightParen (spreadOrAssignment g) s = (.ok found, s') := by
  obtain ⟨items, s₁, hitems, h⟩ := exists_of_bind h
  cases h
  exact itemsUntil_of_loop (loopUpTo_of_arguments hitems hclose)

/-- From one place of the tokens to another stands the list of arguments that parentheses hold. -/
def Lists (s : State) (pos pos' : Nat) (P : Tree → List NodeId → Prop) : Prop :=
  ∀ k, (s.reading pos {}).reach ≤ k → ∀ tree, ∃ items tree',
    commaSeparated .rightParen (spreadOrAssignment (Grammar.upTo k)) (s.reading pos tree) =
        (.ok items, s.reading pos' tree') ∧
      tree.Continues tree' ∧ P tree' items

theorem Stands.lists {text tail : List Char} {inner : List SpannedToken} {part : Tree}
    {roots : List NodeId} (h : Stands s pos text inner tail) (hs : Whole s)
    (hdepth : s.depth ≤ maxDepth) (hread : ReadsAlone argumentList s.depth text inner part roots)
    (hmeets : Meets tail .rightParen) :
    Lists s pos (pos + inner.length) fun t items => Tree.ListedBelow t items part roots := by
  intro k hk tree
  obtain ⟨e, s', halone, rfl, rfl, rfl, hmark, hamid, hangles, huncut⟩ :=
    h.exists_readAlone hs hdepth hread hmeets rfl
  have hclosing := h.tokenAt_of_meets hmeets
  have hlooser : e.Looser Precedence.nullCoalescing.level :=
    Embedded.looser_of_mark hmark (by simp) fun operator hoperator => by cases hoperator
  have htwin := Embedded.twin (Embedded.balanced halone paired_argumentList) hangles hlooser s.depth tree
  have hreach := htwin.reach_le.trans (show _ ≤ k by rw [← hamid] at hk; exact hk)
  obtain ⟨tree', hrun, hcontinues, htwin'⟩ := Embedded.read (fun b => List.map_id' b)
    paired_argumentList halone hangles huncut hlooser hreach tree
  rw [hamid] at hrun
  exact ⟨_, tree', commaSeparated_of_argumentList hrun hclosing, hcontinues, tree.size, rfl,
    fun root hroot => Tree.sameBelow_of_twin htwin' hroot⟩

/-- A call with arguments. -/
def CalledWith (P : Tree → NodeId → Prop) (Q : Tree → List NodeId → Prop) (t : Tree) (i : NodeId) :
    Prop :=
  ∃ callee arguments, t.node i = .callExpression callee arguments false ∧ P t callee ∧ Q t arguments

theorem lasting_calledWith {P : Tree → NodeId → Prop} {Q : Tree → List NodeId → Prop}
    (hp : Lasting P) (hq : Lasting Q) : Lasting (CalledWith P Q) := by
  rintro t t' i ⟨callee, arguments, hnode, hcallee, harguments⟩ hsize hsame
  exact ⟨callee, arguments, Tree.node_of_kept hsame hnode (by simp [Node.missing]),
    hp _ _ _ hcallee hsize hsame, hq _ _ _ harguments hsize hsame⟩

theorem Follows.calledWith {P : Tree → NodeId → Prop} {Q : Tree → List NodeId → Prop} (hs : Whole s)
    (hopen : s.tokenAt pos = .punct .leftParen) (h : Lists s (pos + 1) pos' Q)
    (hclose : s.tokenAt pos' = .punct .rightParen) (hp : Lasting P) (hq : Lasting Q) :
    Follows s false pos (pos' + 1) P (CalledWith P Q) := by
  intro k hk start tree e hcallee
  have hsize := hs.succ_lt_size (show s.tokenAt pos ≠ .eof by simp [hopen])
  have hsize' := hs.succ_lt_size (show s.tokenAt pos' ≠ .eof by simp [hclose])
  have hreach := (State.reach_reading_le (s := s) (Nat.le_succ pos) {} {}).trans hk
  obtain ⟨items, tree', hlist, hcontinues, hitems⟩ := h k hreach tree
  have harguments : Parse.arguments (Grammar.upTo k) (s.reading pos tree) =
      (.ok items, s.reading (pos' + 1) tree') := by
    rw [Parse.arguments, bind_of_ok (expect_reading hopen hsize)]
    refine withIn_reading hs.allowIn ?_
    rw [bind_of_ok hlist, bind_of_ok (expect_reading hclose hsize')]
    rfl
  have hlast := (Tree.Continues.refl tree').alloc (.callExpression e items false)
    (some ((s.reading (pos' + 1) tree').spanFrom start))
  refine ⟨tree'.size, _, ?_, hcontinues.trans hlast, e, items, tree'.node_alloc_self _ _,
    hp.continues hcallee (hcontinues.trans hlast), hq.continues hitems hlast⟩
  rw [suffix?_call _ _ _ _ hopen, bind_of_ok harguments]
  rfl

end Parse
end ScriptLint
