import ScriptLint.Proofs.Parse.Conditional
import ScriptLint.Proofs.Parse.Later
import ScriptLint.Proofs.Parse.Standing

namespace ScriptLint
namespace Parse

open ScriptLint.Parser

variable {α : Type} [Renumber α] {s s' : State} {pos pos' k n : Nat} {tree tree' : Tree}
  {p : Grammar → Parser α} {a : α} {least : Precedence} {id : NodeId}

namespace Whole

variable (hs : Whole s)

include hs

theorem stretch (hpos : pos ≤ k) (hk : k < s.tokens.size) (tree : Tree)
    (hends : k + 1 = s.tokens.size ∨ k + 1 < s.tokens.size ∧ bracketStep (s.tokenAt k) = -1 ∧
      openBefore s.tokens.toList k - openBefore s.tokens.toList pos = 0) :
    Stretch (s.reading pos tree) k
      fun q => openBefore s.tokens.toList q - openBefore s.tokens.toList pos where
  scan := hs.scan
  pos_le := hpos
  lt_size := hk
  ends := hends
  level_pos := Int.sub_self _
  level_succ q c hc := by
    have hget : s.tokens.toList[q]? = some c := Array.getElem?_toList.trans hc
    rw [openBefore_succ hget]
    omega
  angleless b hb hopen c hc :=
    hs.unangled.beginsAngle (Array.mem_toList_iff.mpr hb) hopen (Array.mem_toList_iff.mpr hc)

/-- A token that is not the end is followed by one. -/
theorem succ_lt_size (h : s.tokenAt pos ≠ .eof) : pos + 1 < s.tokens.size := by
  have hplaced := tokenize_placed hs.scan
  by_contra hlast
  refine h ?_
  cases hget : s.tokens[pos]? with
  | none => simp [State.tokenAt, hget]
  | some b =>
    have hlt := (Array.getElem?_eq_some_iff.mp hget).1
    have heof : b.1 = .eof := hplaced.eof_of_last (by simpa using hget) (by
      simp only [Array.length_toList]
      omega)
    simp [State.tokenAt, hget, heof]

/-- A parser moves the cursor and makes nodes, and nothing else. -/
theorem eq_reading (hp : Paired least p) (hrun : p (Grammar.upTo n) (s.reading pos tree) = (.ok a, s')) :
    s' = s.reading s'.pos s'.tree ∧ pos ≤ s'.pos := by
  have hframe := hp.frame (Grammar.sound_upTo n) (s.reading pos tree)
  rw [hrun] at hframe
  have huncut : ∀ b ∈ s.tokens, afterClosingAngle b.1 = none :=
    fun b hb => hs.unangled.uncut b (Array.mem_toList_iff.mpr hb)
  exact ⟨hframe.eq_reading huncut, hframe.pos_le⟩

end Whole

/-- Between two places as many brackets are opened as closed, and nowhere more are closed. -/
structure Evens (s : State) (pos pos' : Nat) : Prop where
  le : pos ≤ pos'
  eq : openBefore s.tokens.toList pos' = openBefore s.tokens.toList pos
  le_openBefore : ∀ q, pos ≤ q → q ≤ pos' →
    openBefore s.tokens.toList pos ≤ openBefore s.tokens.toList q

theorem Evens.refl (s : State) (pos : Nat) : Evens s pos pos :=
  ⟨le_rfl, rfl, fun q hq hle => by rw [le_antisymm hle hq]⟩

theorem Evens.trans {pos'' : Nat} (h : Evens s pos pos') (h' : Evens s pos' pos'') :
    Evens s pos pos'' := by
  refine ⟨h.le.trans h'.le, h'.eq.trans h.eq, fun q hq hle => ?_⟩
  rcases le_total q pos' with hbefore | hafter
  · exact h.le_openBefore q hq hbefore
  · exact h.eq.ge.trans (h'.le_openBefore q hafter hle)

/-- A token that is no bracket. -/
theorem Evens.succ (h : Evens s pos pos') (hsize : pos' < s.tokens.size)
    (hstep : bracketStep (s.tokenAt pos') = 0) : Evens s pos (pos' + 1) := by
  have hnext := Enclosed.level_succ hsize
  rw [hstep, add_zero] at hnext
  refine ⟨h.le.trans (Nat.le_succ _), hnext.trans h.eq, fun q hq hle => ?_⟩
  rcases hle.lt_or_eq with hlt | rfl
  · exact h.le_openBefore q hq (Nat.le_of_lt_succ hlt)
  · exact (hnext.trans h.eq).ge

namespace Whole

variable (hs : Whole s)

include hs

theorem run_last (hp : Paired least p) (hpos : pos < s.tokens.size)
    (hn : (s.reading pos tree).reach ≤ n)
    (hrun : p (Grammar.upTo n) (s.reading pos tree) = (.ok a, s')) :
    s'.pos < s.tokens.size ∧
      openBefore s.tokens.toList s'.pos = openBefore s.tokens.toList pos := by
  have hlast : Stretch (s.reading pos tree) (s.tokens.size - 1) _ :=
    hs.stretch (by omega) (by omega) tree (.inl (by omega))
  obtain ⟨hend, hlevel⟩ := hlast.run hp hn hrun
  omega

/-- A parser closes the brackets that it opens, and no others. -/
theorem evens (hp : Paired least p) (hpos : pos < s.tokens.size)
    (hn : (s.reading pos tree).reach ≤ n)
    (hrun : p (Grammar.upTo n) (s.reading pos tree) = (.ok a, s')) : Evens s pos s'.pos := by
  obtain ⟨hend, hlevel⟩ := hs.run_last hp hpos hn hrun
  refine ⟨(hs.eq_reading hp hrun).2, by omega, fun q hq hle => ?_⟩
  induction q, hq using Nat.le_induction with
  | base => exact le_rfl
  | succ q hq ih =>
    have hbefore := ih (by omega)
    have hlt : q < s.tokens.size := by omega
    have hstep := Enclosed.level_succ hlt
    by_contra hneg
    have hge : -1 ≤ bracketStep (s.tokenAt q) := by
      unfold bracketStep
      split_ifs <;> decide
    -- the parser would stop at the bracket
    have hshort := hs.stretch hq hlt tree (.inr ⟨by omega, by omega, by omega⟩)
    have := (hshort.run hp hn hrun).1
    omega

theorem enclosed (hopen : s.tokenAt pos = .punct .leftParen) (h : Evens s (pos + 1) pos')
    (hclose : s.tokenAt pos' = .punct .rightParen) : Enclosed s pos pos' := by
  have hpos := hs.succ_lt_size (show s.tokenAt pos ≠ .eof by simp [hopen])
  have hstep := Enclosed.level_succ (s := s) (p := pos) (by omega)
  have hone : bracketStep (.punct .leftParen) = 1 := rfl
  have heq := h.eq
  rw [hopen, hone] at hstep
  refine ⟨hs.scan, fun b hb hless c hc => ?_, fun b hb => ?_, h.le,
    hs.succ_lt_size (by simp [hclose]), hopen, hclose, fun q hq hqle => ?_, by omega⟩
  · exact hs.unangled.beginsAngle (Array.mem_toList_iff.mpr hb) hless (Array.mem_toList_iff.mpr hc)
  · exact hs.unangled.uncut b (Array.mem_toList_iff.mpr hb)
  · have := h.le_openBefore q hq hqle
    omega

end Whole

/-- One level deeper. -/
abbrev State.deeper (s : State) : State := { s with depth := s.depth + 1 }

theorem Enclosed.of_deeper (h : Enclosed s.deeper pos pos') : Enclosed s pos pos' :=
  { h with }

theorem State.reach_deeper_le (h : pos ≤ pos') (tree tree' : Tree) :
    (s.deeper.reading pos' tree).reach ≤ (s.reading pos tree').reach :=
  (Nat.add_le_add_right (Nat.sub_le_sub_left (Nat.le_succ s.depth) maxDepth) _).trans
    (State.reach_reading_le h tree tree')

/-- What is read one level deeper. -/
theorem exists_of_nested {p : Parser NodeId} (h : nested p (s.reading pos tree) = (.ok id, s')) :
    s.depth < maxDepth ∧
      ∃ s₁, p (s.deeper.reading pos tree) = (.ok id, s₁) := by
  by_cases hdepth : maxDepth ≤ s.depth
  · have henter : ∃ e s₁, enter (s.reading pos tree) = (.error e, s₁) := ⟨_, _, if_pos hdepth⟩
    obtain ⟨e, s₁, henter⟩ := henter
    simp only [nested, henter] at h
    cases h
  · have henter : enter (s.reading pos tree) =
        (.ok (), s.deeper.reading pos tree) := if_neg hdepth
    simp only [nested, henter] at h
    rw [Prod.mk.injEq] at h
    exact ⟨Nat.lt_of_not_le hdepth, _, Prod.ext h.1 rfl⟩

/-- A token with which an operand begins that has no operator in front. -/
structure BeginsOperand (t : Token) : Prop where
  unary : UnaryOperator.ofToken? t = none
  update : UpdateOperator.ofToken? t = none
  isAwait : t.isKeyword .awaitWord = false
  less : t.isPunct .less = false

theorem beginsOperand_identifier (x : String) : BeginsOperand (.identifier x) :=
  ⟨rfl, rfl, rfl, rfl⟩

theorem beginsOperand_leftParen : BeginsOperand (.punct .leftParen) :=
  ⟨rfl, rfl, rfl, rfl⟩

theorem leftHandSide_eq {g : Grammar} (hnew : (s.tokenAt pos).isKeyword .newWord = false) :
    leftHandSide g (s.reading pos tree) =
      (primary g >>= suffixes g true (s.spanAt pos)) (s.reading pos tree) := by
  have hnew : checkKeyword .newWord (s.reading pos tree) = (.ok false, s.reading pos tree) := by
    simp [checkKeyword, ask, hnew]
  rw [leftHandSide, bind_of_ok (currentSpan_apply _), bind_of_ok hnew]
  rfl

section
variable {g : Grammar} (hbegins : BeginsOperand (s.tokenAt pos))

include hbegins

theorem unaryOperand_eq :
    unaryOperand g (s.reading pos tree) = postfixExpression g (s.reading pos tree) := by
  have hawait : eatKeyword .awaitWord (s.reading pos tree) = (.ok false, s.reading pos tree) := by
    simp [eatKeyword, eatIf, hbegins.isAwait]
  rw [unaryOperand, bind_of_ok (currentSpan_apply _), bind_of_ok (current_apply s pos tree),
    hbegins.unary, hbegins.update]
  change (eatKeyword .awaitWord >>= _) (s.reading pos tree) = _
  rw [bind_of_ok hawait, hbegins.less]
  rfl

/-- An operand that is left at once. -/
theorem unary_of_leftHandSide (hdepth : s.depth < maxDepth)
    (hrun : leftHandSide g (s.deeper.reading pos tree) =
      (.ok id, s.deeper.reading pos' tree'))
    (hupdate : UpdateOperator.ofToken? (s.tokenAt pos') = none) :
    unary g (s.reading pos tree) = (.ok id, s.reading pos' tree') := by
  have hbegins : BeginsOperand (s.deeper.tokenAt pos) := hbegins
  refine nested_reading hdepth ?_
  change unaryOperand g (s.deeper.reading pos tree) = _
  rw [unaryOperand_eq hbegins, postfixExpression, bind_of_ok (currentSpan_apply _), bind_of_ok hrun,
    bind_of_ok (current_apply _ _ _), show UpdateOperator.ofToken? (s.deeper.tokenAt pos') = none from
      hupdate]
  rfl

theorem exists_leftHandSide_of_unary (h : unary g (s.reading pos tree) = (.ok id, s')) :
    s.depth < maxDepth ∧ ∃ e s₁,
      leftHandSide g (s.deeper.reading pos tree) = (.ok e, s₁) := by
  have hbegins : BeginsOperand (s.deeper.tokenAt pos) := hbegins
  obtain ⟨hdepth, s₁, hrun⟩ := exists_of_nested h
  rw [unaryOperand_eq hbegins, postfixExpression, bind_of_ok (currentSpan_apply _)] at hrun
  obtain ⟨e, s₂, hrun, -⟩ := exists_of_bind hrun
  exact ⟨hdepth, e, s₂, hrun⟩

end

/-- What is left of a run of `binary` once the run of its first operand is known. -/
theorem binary_of_unary {g : Grammar} {e : NodeId} (hallow : s.allowIn = true)
    (hrun : Parse.binary g least (s.reading pos tree) = (.ok id, s'))
    (hunary : unary g (s.reading pos tree) = (.ok e, s.reading pos' tree'))
    (hname : (s.tokenAt pos').isName "as" = false)
    (hnone : InfixOperator.ofToken? true (s.tokenAt pos') = none) : s' = s.reading pos' tree' := by
  rw [binary_reading hallow hunary hname hnone, Prod.mk.injEq] at hrun
  exact hrun.2.symm

variable {x : String}

theorem leftHandSide_of_primary {g : Grammar} (hnew : (s.tokenAt pos).isKeyword .newWord = false)
    (hrun : primary g (s.reading pos tree) = (.ok id, s.reading pos' tree'))
    (hleaves : leavesOperand (s.tokenAt pos') = true) :
    leftHandSide g (s.reading pos tree) = (.ok id, s.reading pos' tree') := by
  rw [leftHandSide_eq hnew, bind_of_ok hrun]
  exact suffixes_reading hleaves

/-- A token before which an operand is left, and that no operator is. -/
structure LeavesExpression (t : Token) : Prop where
  operand : leavesOperand t = true
  update : UpdateOperator.ofToken? t = none
  isKeyword : t.isKeyword .functionWord = false
  isName : t.isName "as" = false
  joins : InfixOperator.ofToken? true t = none

theorem leavesExpression_of_arrow {t : Token} (h : t.isPunct .arrow = true ∨ t.isPunct .colon = true) :
    LeavesExpression t := by
  rcases h with h | h <;> obtain rfl := eq_of_isPunct h <;> exact ⟨rfl, rfl, rfl, rfl, rfl⟩

theorem paired_spreadOrAssignment : Paired .nullCoalescing spreadOrAssignment where
  agrees hg hm hclear := (agrees_spreadOrAssignment hg hm hclear).relax
  frame hg := (grows_spreadOrAssignment hg).frame

namespace Whole

variable (hs : Whole s)

include hs

theorem deeper : Whole s.deeper := ⟨by
    have heq := congrArg State.deeper hs.eq_alone
    exact heq, hs.scan, hs.unangled⟩

/-- A mark that is expected and stands there. -/
theorem expect_of_ok {mark : Punct} (h : Parser.expect mark (s.reading pos tree) = (.ok (), s')) :
    s.tokenAt pos = .punct mark ∧ pos + 1 < s.tokens.size ∧ s' = s.reading (pos + 1) tree := by
  obtain ⟨htoken, rfl⟩ := eq_of_expect h
  have htoken : s.tokenAt pos = .punct mark := htoken
  have hsize := hs.succ_lt_size (show s.tokenAt pos ≠ .eof by simp [htoken])
  exact ⟨htoken, hsize, State.advance_reading hsize tree⟩

theorem allowIn : s.allowIn = true := by
  rw [hs.eq_alone]
  rfl

omit [Renumber α] in
theorem exists_of_withIn {q : Parser α} (h : withIn true q (s.reading pos tree) = (.ok a, s')) :
    ∃ s₁, q (s.reading pos tree) = (.ok a, s₁) ∧ s' = { s₁ with allowIn := true } := by
  have hsame : { s.reading pos tree with allowIn := true } = s.reading pos tree := by
    rw [← hs.allowIn]
    rfl
  have hallow : (s.reading pos tree).allowIn = true := hs.allowIn
  rw [withIn, hsame, hallow, Prod.mk.injEq] at h
  exact ⟨_, Prod.ext h.1 rfl, h.2.symm⟩

/-- Parentheses enclose the expression that is read in them. -/
theorem enclosed_of_parenthesized (hn : (s.reading pos tree).reach ≤ n)
    (hrun : parenthesized (Grammar.upTo n) (s.reading pos tree) = (.ok id, s')) :
    ∃ close tree', Enclosed s pos close ∧ s' = s.reading (close + 1) tree' := by
  rw [parenthesized, bind_of_ok (currentSpan_apply _)] at hrun
  obtain ⟨_, s₁, hexpect, hrun⟩ := exists_of_bind hrun
  obtain ⟨hopen, hpos, rfl⟩ := hs.expect_of_ok hexpect
  obtain ⟨e, _, hwithin, hrun⟩ := exists_of_bind hrun
  obtain ⟨s₂, hinside, rfl⟩ := hs.exists_of_withIn hwithin
  have hreach := (State.reach_reading_le (Nat.le_succ pos) tree tree).trans hn
  have hevens := hs.evens paired_expression hpos hreach hinside
  obtain ⟨hread, -⟩ := hs.eq_reading paired_expression hinside
  have hback : { s₂ with allowIn := true } = s.reading s₂.pos s₂.tree := by
    rw [hread, ← hs.allowIn]
    rfl
  rw [hback] at hrun
  obtain ⟨_, s₃, hexpect, hrun⟩ := exists_of_bind hrun
  obtain ⟨hclose, -, rfl⟩ := hs.expect_of_ok hexpect
  cases hrun
  exact ⟨s₂.pos, _, hs.enclosed hopen hevens hclose, rfl⟩

omit hs in
/-- An item of a list with commas. -/
def commaItem (close : Punct) (item : Parser NodeId) : Parser NodeId := do
  let value ← item
  if !(← check close) then expect .comma
  return value

/-- Items with commas between them close the brackets that they open. -/
theorem evens_of_items (hn : (s.reading pos tree).reach ≤ n) (hpos : pos < s.tokens.size)
    {fuel : Nat} {items items' : List NodeId}
    (hrun : loopUpTo (turnUntil .rightParen
      (commaItem .rightParen (spreadOrAssignment (Grammar.upTo n)))) fuel items
        (s.reading pos tree) = (.ok items', s')) :
    ∃ stop tree', Evens s pos stop ∧ s' = s.reading stop tree' := by
  induction fuel generalizing pos tree items with
  | zero => cases hrun
  | succ fuel ih =>
    rw [loopUpTo] at hrun
    obtain ⟨turn, s₁, hturn, hrun⟩ := exists_of_bind hrun
    obtain ⟨closes, _, ⟨⟩, hturn⟩ := exists_of_bind hturn
    obtain ⟨ends, _, ⟨⟩, hturn⟩ := exists_of_bind hturn
    split at hturn
    · cases hturn
      cases hrun
      exact ⟨pos, tree, .refl s pos, rfl⟩
    · obtain ⟨value, s₂, hitem, hturn⟩ := exists_of_bind hturn
      cases hturn
      obtain ⟨value', s₃, hvalue, hitem⟩ := exists_of_bind hitem
      have hevens := hs.evens paired_spreadOrAssignment hpos hn hvalue
      obtain ⟨hread, hle⟩ := hs.eq_reading paired_spreadOrAssignment hvalue
      have hlt := (hs.run_last paired_spreadOrAssignment hpos hn hvalue).1
      have hreach : (s.reading s₃.pos s₃.tree).reach ≤ n :=
        (State.reach_reading_le hle _ _).trans hn
      rw [hread] at hitem
      obtain ⟨last, _, ⟨⟩, hitem⟩ := exists_of_bind hitem
      split at hitem
      · obtain ⟨_, s₄, hexpect, hitem⟩ := exists_of_bind hitem
        obtain ⟨hcomma, hnext, rfl⟩ := hs.expect_of_ok hexpect
        cases hitem
        obtain ⟨stop, tree', hrest, hend⟩ :=
          ih ((State.reach_reading_le (Nat.le_succ s₃.pos) _ _).trans hreach) hnext hrun
        exact ⟨stop, tree', (hevens.succ hlt (by rw [hcomma]; rfl)).trans hrest, hend⟩
      · cases hitem
        obtain ⟨stop, tree', hrest, hend⟩ := ih hreach hlt hrun
        exact ⟨stop, tree', hevens.trans hrest, hend⟩

/-- Parentheses enclose the arguments that are read in them. -/
theorem enclosed_of_arguments (hn : (s.reading pos tree).reach ≤ n) {items : List NodeId}
    (hrun : arguments (Grammar.upTo n) (s.reading pos tree) = (.ok items, s')) :
    ∃ close tree', Enclosed s pos close ∧ s' = s.reading (close + 1) tree' := by
  obtain ⟨_, s₁, hexpect, hrun⟩ := exists_of_bind hrun
  obtain ⟨hopen, hpos, rfl⟩ := hs.expect_of_ok hexpect
  obtain ⟨s₂, hinside, rfl⟩ := hs.exists_of_withIn hrun
  obtain ⟨arguments, s₃, hitems, hinside⟩ := exists_of_bind hinside
  obtain ⟨items', s₄, hloop, hitems⟩ := exists_of_bind hitems
  cases hitems
  have hreach := (State.reach_reading_le (Nat.le_succ pos) tree tree).trans hn
  obtain ⟨close, tree', hevens, rfl⟩ := hs.evens_of_items hreach hpos hloop
  obtain ⟨_, s₅, hexpect, hinside⟩ := exists_of_bind hinside
  obtain ⟨hclose, -, rfl⟩ := hs.expect_of_ok hexpect
  cases hinside
  refine ⟨close, tree', hs.enclosed hopen hevens hclose, ?_⟩
  rw [← hs.allowIn]
  rfl

end Whole

theorem exists_of_joinedTypes {mark : Punct} {operand : Parser NodeId} {join : List NodeId → Node}
    (hmark : (s.tokenAt pos).isPunct mark = false)
    (h : joinedTypes mark operand join (s.reading pos tree) = (.ok id, s')) :
    ∃ e s₁, operand (s.reading pos tree) = (.ok e, s₁) := by
  rw [joinedTypes, bind_of_ok (currentSpan_apply _), bind_of_ok (eat_reading hmark)] at h
  obtain ⟨_, s₁, hitems, -⟩ := exists_of_bind h
  obtain ⟨e, s₂, hoperand, -⟩ := exists_of_bind hitems
  exact ⟨e, s₂, hoperand⟩

/-- No type begins with an arrow. -/
theorem not_type_of_arrow {g : Grammar} (h : s.tokenAt pos = .punct .arrow)
    (hrun : type g (s.reading pos tree) = (.ok id, s')) : False := by
  have h : s.deeper.tokenAt pos = .punct .arrow := h
  obtain ⟨-, s₁, hrun⟩ := exists_of_nested hrun
  obtain ⟨_, s₂, hrun⟩ := exists_of_joinedTypes (by rw [h]; rfl) hrun
  obtain ⟨_, s₃, hrun⟩ := exists_of_joinedTypes (by rw [h]; rfl) hrun
  rw [typeOperator, bind_of_ok (currentSpan_apply _), bind_of_ok (current_apply _ _ _), h] at hrun
  change postfixType g (s.deeper.reading pos tree) = _ at hrun
  rw [postfixType, bind_of_ok (currentSpan_apply _)] at hrun
  obtain ⟨_, s₄, hrun, -⟩ := exists_of_bind hrun
  rw [primaryType, bind_of_ok (currentSpan_apply _), bind_of_ok (current_apply _ _ _), h] at hrun
  cases hrun

/-- One turn of the loop of `suffixes`. -/
def turnSuffix (g : Grammar) (calls : Bool) (start : Span) :
    NodeId × Bool → Parser (Loop (NodeId × Bool)) := fun (object, inChain) => do
  match ← suffix? g calls start object with
  | some (e, optional) => return .next (e, inChain || optional)
  | none => return .stop (object, inChain)

/-- What becomes of an expression after all that follows it directly. -/
def chained (start : Span) : NodeId × Bool → Parser NodeId := fun (e, inChain) =>
  if inChain then finish start (.chainExpression e) else return e

theorem suffixes_eq (g : Grammar) (calls : Bool) (start : Span) (object : NodeId) :
    suffixes g calls start object =
      loop (object, false) (turnSuffix g calls start) >>= chained start := rfl

theorem turnSuffix_stop {g : Grammar} {start : Span} {found : NodeId × Bool}
    (h : leavesOperand (s.tokenAt pos) = true) :
    turnSuffix g true start found (s.reading pos tree) = (.ok (.stop found), s.reading pos tree) := by
  obtain ⟨object, inChain⟩ := found
  rw [turnSuffix, bind_of_ok (suffix?_reading h)]
  rfl

theorem suffix?_call (g : Grammar) (start : Span) (object : NodeId) (tree : Tree)
    (h : s.tokenAt pos = .punct .leftParen) :
    suffix? g true start object (s.reading pos tree) = (do
      let arguments ← arguments g
      return some (← finish start (.callExpression object arguments false), false))
        (s.reading pos tree) := by
  rw [suffix?, bind_of_ok (current_apply _ _ _), h]
  rfl

theorem exists_unary_of_binary {g : Grammar}
    (hrun : Parse.binary g least (s.reading pos tree) = (.ok id, s')) :
    ∃ first s₁, unary g (s.reading pos tree) = (.ok first, s₁) ∧
      loop first (turnBinary g least (s.spanAt pos)) s₁ = (.ok id, s') := by
  rw [Parse.binary, bind_of_ok (currentSpan_apply _)] at hrun
  obtain ⟨first, s₁, hunary, hloop⟩ := exists_of_bind hrun
  exact ⟨first, s₁, hunary, hloop⟩

/-- Angles begin no operand. -/
theorem not_unary_of_less {g : Grammar} (h : s.tokenAt pos = .punct .less)
    (hrun : unary g (s.reading pos tree) = (.ok id, s')) : False := by
  have h : s.deeper.tokenAt pos = .punct .less := h
  obtain ⟨-, s₁, hrun⟩ := exists_of_nested hrun
  have hawait : eatKeyword .awaitWord (s.deeper.reading pos tree) =
      (.ok false, s.deeper.reading pos tree) := by
    simp [eatKeyword, eatIf, h, Token.isKeyword]
  rw [unaryOperand, bind_of_ok (currentSpan_apply _), bind_of_ok (current_apply _ _ _), h] at hrun
  change (eatKeyword .awaitWord >>= _) (s.deeper.reading pos tree) = _ at hrun
  rw [bind_of_ok hawait] at hrun
  cases hrun

namespace Whole

/-- Before a name that an arrow follows the loop of `binary` stops. -/
theorem stop_of_turnBinary (hs : Whole s) {levels : Nat} {start : Span} {left : NodeId} {y : String}
    {turn : Loop NodeId} (hname : s.tokenAt pos = .identifier y)
    (harrow : (s.tokenAt (pos + 1)).isPunct .arrow = true)
    (h : turnBinary (Grammar.upTo (levels + 1)) least start left (s.reading pos tree) =
      (.ok turn, s')) : turn = .stop left ∧ s' = s.reading pos tree := by
  obtain ⟨found, s₁, htail, hturn⟩ := exists_of_bind h
  rw [infixTail?_apply] at htail
  split_ifs at htail
  · exfalso
    have hsize := hs.succ_lt_size (show s.tokenAt pos ≠ .eof by simp [hname])
    have hskip : skip (s.reading pos tree) = (.ok (), s.reading (pos + 1) tree) := by
      simp [skip, update, State.advance_reading hsize]
    rw [assertTail, bind_of_ok hskip] at htail
    obtain ⟨_, s₂, htype, -⟩ := exists_of_bind htail
    exact not_type_of_arrow (eq_of_isPunct harrow) htype
  · have hnone : InfixOperator.ofToken? (s.reading pos tree).allowIn (s.reading pos tree).current =
        none := by
      rw [show (s.reading pos tree).current = .identifier y from hname]
      rfl
    rw [hnone] at htail
    cases htail
    cases hturn
    exact ⟨rfl, rfl⟩

section
variable {g : Grammar} (hs : Whole s)
  (hrun : Parse.binary g least (s.reading pos tree) = (.ok id, s.reading pos' tree'))

include hs hrun

/-- An operand that is left at once is all that `binary` reads. -/
theorem eq_of_leftHandSide {e : NodeId} {q : Nat} {tree₁ : Tree}
    (hbegins : BeginsOperand (s.tokenAt pos))
    (hleft : leftHandSide g (s.deeper.reading pos tree) = (.ok e, s.deeper.reading q tree₁))
    (hnext : LeavesExpression (s.tokenAt q)) : pos' = q := by
  obtain ⟨first, s₁, hunary, -⟩ := exists_unary_of_binary hrun
  have hunary' := unary_of_leftHandSide hbegins (exists_of_nested hunary).1 hleft hnext.update
  exact congrArg State.pos (binary_of_unary hs.allowIn hrun hunary' hnext.isName hnext.joins)

/-- A name that is left at once is all that `binary` reads. -/
theorem eq_of_identifier {x : String} (hname : s.tokenAt pos = .identifier x)
    (hnext : LeavesExpression (s.tokenAt (pos + 1))) : pos' = pos + 1 := by
  have hbegins : BeginsOperand (s.tokenAt pos) := hname ▸ beginsOperand_identifier x
  have hprimary : primary g (s.deeper.reading pos tree) = _ :=
    primary_reading (s := s.deeper) hname hnext.isKeyword (hs.succ_lt_size (by simp [hname]))
  exact hs.eq_of_leftHandSide hrun hbegins
    (leftHandSide_of_primary (s := s.deeper) (hname ▸ rfl) hprimary hnext.operand) hnext

end

variable (hs : Whole s) (hn : (s.reading pos tree).reach ≤ n)
  (hrun : Parse.binary (Grammar.upTo n) least (s.reading pos tree) = (.ok id, s.reading pos' tree'))

include hs hn hrun

/-- Parentheses that `binary` reads first are all that it reads, if it has to leave them. -/
theorem exists_enclosed_of_leftParen (hopen : s.tokenAt pos = .punct .leftParen) :
    ∃ close, Enclosed s pos close ∧
      (LeavesExpression (s.tokenAt (close + 1)) → pos' = close + 1) := by
  have hbegins : BeginsOperand (s.tokenAt pos) := hopen ▸ beginsOperand_leftParen
  obtain ⟨first, s₁, hunary, -⟩ := exists_unary_of_binary hrun
  obtain ⟨hdepth, e, s₂, hleft⟩ := exists_leftHandSide_of_unary hbegins hunary
  rw [leftHandSide_eq (s := s.deeper) (hopen ▸ rfl)] at hleft
  obtain ⟨inner, s₃, hprimary, -⟩ := exists_of_bind hleft
  have hsame : primary (Grammar.upTo n) (s.deeper.reading pos tree) =
      parenthesized (Grammar.upTo n) (s.deeper.reading pos tree) := by
    have hopen : s.deeper.tokenAt pos = .punct .leftParen := hopen
    rw [primary, bind_of_ok (currentSpan_apply _), bind_of_ok (current_apply _ pos tree), hopen]
  have hreach := (State.reach_deeper_le (le_refl pos) tree tree).trans hn
  obtain ⟨close, tree₁, henclosed, rfl⟩ :=
    hs.deeper.enclosed_of_parenthesized hreach (hsame.symm.trans hprimary)
  refine ⟨close, henclosed.of_deeper, fun hnext => ?_⟩
  exact hs.eq_of_leftHandSide hrun hbegins
    (leftHandSide_of_primary (s := s.deeper) (hopen ▸ rfl) hprimary hnext.operand) hnext

/-- The same of a name and the arguments it is called with. -/
theorem exists_enclosed_of_call {x : String} (hname : s.tokenAt pos = .identifier x)
    (hopen : s.tokenAt (pos + 1) = .punct .leftParen) :
    ∃ close, Enclosed s (pos + 1) close ∧
      (LeavesExpression (s.tokenAt (close + 1)) → pos' = close + 1) := by
  have hbegins : BeginsOperand (s.tokenAt pos) := hname ▸ beginsOperand_identifier x
  have hopen : s.deeper.tokenAt (pos + 1) = .punct .leftParen := hopen
  let tree₀ := (tree.alloc (.identifier { name := x }) (some (s.deeper.spanAt pos))).2
  have hprimary : primary (Grammar.upTo n) (s.deeper.reading pos tree) =
      (.ok tree.size, s.deeper.reading (pos + 1) tree₀) :=
    primary_reading hname (by rw [hopen]; rfl) (hs.succ_lt_size (by simp [hname]))
  obtain ⟨first, s₁, hunary, -⟩ := exists_unary_of_binary hrun
  obtain ⟨hdepth, e, s₂, hleft⟩ := exists_leftHandSide_of_unary hbegins hunary
  have hlhs : leftHandSide (Grammar.upTo n) (s.deeper.reading pos tree) =
      suffixes (Grammar.upTo n) true (s.spanAt pos) tree.size (s.deeper.reading (pos + 1) tree₀) :=
    (leftHandSide_eq (s := s.deeper) (hname ▸ rfl)).trans (bind_of_ok hprimary)
  rw [hlhs, suffixes_eq] at hleft
  obtain ⟨chain, s₃, hloop, -⟩ := exists_of_bind hleft
  obtain ⟨turn, s₄, hturn, -⟩ := exists_of_bind hloop
  obtain ⟨found, s₅, hsuffix, -⟩ := exists_of_bind hturn
  have hcall := suffix?_call (Grammar.upTo n) (s.spanAt pos) tree.size tree₀ hopen
  rw [hcall] at hsuffix
  obtain ⟨items, s₆, harguments, -⟩ := exists_of_bind hsuffix
  have hreach := (State.reach_deeper_le (Nat.le_succ pos) tree₀ tree).trans hn
  obtain ⟨close, tree₁, henclosed, rfl⟩ := hs.deeper.enclosed_of_arguments hreach harguments
  refine ⟨close, henclosed.of_deeper, fun hnext => ?_⟩
  have hturn : ∃ tree₂, turnSuffix (Grammar.upTo n) true (s.spanAt pos) (tree.size, false)
      (s.deeper.reading (pos + 1) tree₀) =
        (.ok (.next (tree₁.size, false)), s.deeper.reading (close + 1) tree₂) := by
    refine ⟨_, (bind_of_ok (hcall.trans (bind_of_ok harguments))).trans rfl⟩
  obtain ⟨tree₂, hturn⟩ := hturn
  have hstop : turnSuffix (Grammar.upTo n) true (s.spanAt pos) (tree₁.size, false)
      (s.deeper.reading (close + 1) tree₂) =
        (.ok (.stop (tree₁.size, false)), s.deeper.reading (close + 1) tree₂) :=
    turnSuffix_stop hnext.operand
  have hcalled : leftHandSide (Grammar.upTo n) (s.deeper.reading pos tree) =
      (.ok tree₁.size, s.deeper.reading (close + 1) tree₂) := by
    rw [hlhs, suffixes_eq,
      bind_of_ok (loop_of_next_stop hturn hstop (Nat.zero_lt_of_lt henclosed.lt_size))]
    rfl
  exact hs.eq_of_leftHandSide hrun hbegins hcalled hnext

/-- After a name, another one is read only as a type assertion, and no type begins with an arrow. -/
theorem eq_of_identifiers {x y : String} (hname : s.tokenAt pos = .identifier x)
    (hnext : s.tokenAt (pos + 1) = .identifier y)
    (harrow : (s.tokenAt (pos + 2)).isPunct .arrow = true) : pos' = pos + 1 := by
  have hbegins : BeginsOperand (s.tokenAt pos) := hname ▸ beginsOperand_identifier x
  have hnext : s.deeper.tokenAt (pos + 1) = .identifier y := hnext
  have hsize := hs.succ_lt_size (show s.tokenAt (pos + 1) ≠ .eof by simp [show s.tokenAt _ = _ from hnext])
  have hprimary : primary (Grammar.upTo n) (s.deeper.reading pos tree) = (.ok tree.size, _) :=
    primary_reading hname (by rw [hnext]; rfl) (Nat.lt_of_succ_lt hsize)
  obtain ⟨first, s₁, hunary, hloop⟩ := exists_unary_of_binary hrun
  have hsame := unary_of_leftHandSide hbegins (exists_of_nested hunary).1
    (leftHandSide_of_primary (s := s.deeper) (hname ▸ rfl) hprimary (by rw [hnext]; rfl))
    (by rw [show s.tokenAt (pos + 1) = _ from hnext]; rfl)
  rw [hsame] at hunary
  cases hunary
  obtain ⟨levels, rfl⟩ := Nat.exists_eq_add_one_of_ne_zero (show n ≠ 0 by
    have := State.reach_reading_succ (s := s) (show pos < s.tokens.size by omega) tree tree
    omega)
  obtain ⟨turn, s₂, hturn, hloop⟩ := exists_of_bind hloop
  obtain ⟨rfl, rfl⟩ := hs.stop_of_turnBinary hnext harrow hturn
  cases hloop
  rfl

/-- Where operands are read that no arrow, colon or name follows, no arrow function begins. -/
theorem arrowGuess_eq_no (hend : LeavesName (s.tokenAt pos')) :
    arrowGuess (s.reading pos tree) = .no := by
  have hparen : ∀ q, (∃ close, Enclosed s q close ∧
      (LeavesExpression (s.tokenAt (close + 1)) → pos' = close + 1)) →
        guessAfterParen (s.reading pos tree) q = .no := by
    rintro q ⟨close, henclosed, hclose⟩
    have hmatching : (s.reading pos tree).matchingClose q = some close := henclosed.matchingClose
    rw [guessAfterParen_eq, hmatching, Option.elim_some]
    change guessBy (s.tokenAt (close + 1)) = .no
    by_cases harrow : (s.tokenAt (close + 1)).isPunct .arrow = true ∨
        (s.tokenAt (close + 1)).isPunct .colon = true
    · rw [← hclose (leavesExpression_of_arrow harrow), hend.arrow, hend.colon] at harrow
      simp at harrow
    · generalize s.tokenAt (close + 1) = t at harrow
      cases t with
      | punct mark => cases mark <;> first | rfl | simp [Token.isPunct] at harrow
      | _ => rfl
  have hname : ∀ x, s.tokenAt pos' ≠ .identifier x := by
    intro x hx
    have hkind := hend.sameKind
    rw [hx] at hkind
    cases hkind
  have htokens : ∀ q, (s.reading pos tree).tokenAt q = s.tokenAt q := fun _ => rfl
  change guessAt (s.reading pos tree) (if isAsync (s.reading pos tree) then pos + 1 else pos) = .no
  by_cases hasync : isAsync (s.reading pos tree) = true
  · rw [if_pos hasync]
    simp only [isAsync, Bool.and_eq_true] at hasync
    obtain ⟨⟨hword, -⟩, hparams⟩ := hasync
    have hword : s.tokenAt pos = .identifier "async" := eq_of_isName hword
    have hparams : startsParams (s.tokenAt (pos + 1)) = true := hparams
    rw [guessAt, htokens (pos + 1)]
    cases hnext : s.tokenAt (pos + 1) with
    | identifier y =>
      refine if_neg fun harrow => hname y ?_
      rw [hs.eq_of_identifiers hn hrun hword hnext harrow, hnext]
    | punct mark =>
      rw [hnext] at hparams
      cases mark with
      | leftParen => exact hparen _ (hs.exists_enclosed_of_call hn hrun hword hnext)
      | _ => cases hparams
    | _ => rfl
  · rw [if_neg hasync]
    rw [guessAt, htokens pos]
    cases hfirst : s.tokenAt pos with
    | identifier x =>
      refine if_neg fun harrow => ?_
      have hnext := hs.eq_of_identifier hrun hfirst (leavesExpression_of_arrow (.inl harrow))
      rw [htokens, ← hnext, hend.arrow] at harrow
      cases harrow
    | punct mark =>
      cases mark with
      | leftParen => exact hparen _ (hs.exists_enclosed_of_leftParen hn hrun hfirst)
      | less =>
        obtain ⟨first, s₁, hunary, -⟩ := exists_unary_of_binary hrun
        exact (not_unary_of_less hfirst hunary).elim
      | _ => rfl
    | _ => rfl

end Whole

end Parse
end ScriptLint
