import ScriptLint.Proofs.Parse.Making
import ScriptLint.Proofs.Tree.Copied

namespace ScriptLint

open Position (origin)

namespace Parse

variable {s : State} {pos pos' limit : Nat} {text x y piece tail : List Char}
  {inner first second : List SpannedToken} {mark : Punct} {least : Precedence}
  {operator : InfixOperator} {P Q : Tree → NodeId → Prop}

/-- Whether operands end before a mark: a stop that no access begins with. -/
def endsOperands (mark : Punct) : Bool := isStop (.punct mark) && mark != .questionDot

theorem isStop_of_endsOperands (h : endsOperands mark = true) :
    isStop (.punct mark) = true ∧ mark ≠ .questionDot := by
  simpa [endsOperands] using h

/-- Where a construct stands in an expression. -/
inductive Place where
  /-- In parentheses. -/
  | expression
  /-- Where operators of at least a level are taken. -/
  | operands (least : Precedence)
  /-- After an operator that stands in front. -/
  | operand

namespace Place

def parser : Place → Grammar → Parser NodeId
  | .expression => Parse.expression
  | .operands least => fun g => Parse.binary g least
  | .operand => unary

/-- From one place of the tokens to another stands such a construct. -/
def Reads (s : State) (pos pos' : Nat) (P : Tree → NodeId → Prop) : Place → Prop
  | .expression => Makes Parse.expression s pos pos' P
  | .operands least => Gathers s least pos pos' P
  | .operand => Makes unary s pos pos' P

/-- Such a construct ends before a mark. -/
def Ends (mark : Punct) : Place → Prop
  | .expression => mark = .rightParen ∨ mark = .rightBracket
  | .operands least => endsOperands mark = true ∧
      ∀ operator, InfixOperator.ofToken? true (.punct mark) = some operator →
        operator.level ≤ least.level
  | .operand => endsOperands mark = true

theorem Ends.endsOperands {place : Place} (h : place.Ends mark) : Parse.endsOperands mark = true := by
  cases place with
  | expression => rcases h with rfl | rfl <;> rfl
  | operands least => exact h.1
  | operand => exact h

theorem Ends.endsExpression (h : Place.expression.Ends mark) : EndsExpression (.punct mark) := by
  rcases h with rfl | rfl
  · exact endsExpression_rightParen
  · exact endsExpression_rightBracket

end Place

theorem Makes.weaken {p : Grammar → Parser NodeId} (h : Makes p s pos pos' P)
    (himplies : ∀ t i, P t i → Q t i) : Makes p s pos pos' Q := by
  intro k hk tree
  obtain ⟨id, tree', hrun, hcontinues, hp⟩ := h k hk tree
  exact ⟨id, tree', hrun, hcontinues, himplies _ _ hp⟩

theorem Gathers.weaken (h : Gathers s least pos pos' P) (himplies : ∀ t i, P t i → Q t i) :
    Gathers s least pos pos' Q := by
  intro k hk tree
  obtain ⟨first, pos₁, tree₁, turns, id, tree', hfirst, hturns, hloop, hcontinues, hp⟩ := h k hk tree
  exact ⟨first, pos₁, tree₁, turns, id, tree', hfirst, hturns, hloop, hcontinues, himplies _ _ hp⟩

/-- In the middle of any text, a text with these tokens is read at a place of an expression, and what
is made has a property. -/
structure Phrased (limit : Nat) (place : Place) (text : List Char) (inner : List SpannedToken)
    (P : Tree → NodeId → Prop) : Prop where
  spells : ∀ tail, Lexeme.Clear text tail → Spells text inner tail
  ne_nil : text ≠ []
  lasting : Lasting P
  reads : ∀ {s : State} {pos : Nat} {tail : List Char} {mark : Punct}, Whole s → s.depth ≤ limit →
    Stands s pos text inner tail → Lexeme.Clear text tail → Meets tail mark → place.Ends mark →
      place.Reads s pos (pos + inner.length) P

/-- The same, whatever the tokens are. -/
def Phrase (limit : Nat) (place : Place) (text : List Char) (P : Tree → NodeId → Prop) : Prop :=
  ∃ inner, Phrased limit place text inner P

theorem level_of_endsOperands (hends : endsOperands mark = true)
    (h : InfixOperator.ofToken? true (.punct mark) = some operator) :
    operator.level < Precedence.exponentiation.level := by
  cases mark <;> cases hends <;> cases h <;> decide

theorem level_lt_next (hle : operator.level ≤ least.level)
    (hlt : operator.level < Precedence.exponentiation.level) : operator.level < least.next.level := by
  cases least <;> simp_all [Precedence.next, Precedence.level] <;> omega

theorem next_level_le (hle : least.level ≤ operator.level) :
    least.next.level ≤ operator.operandLevel.level := by
  by_cases hexponent : operator.precedence = .exponentiation
  · have hlevel := operator.level_le_operandLevel
    have htop : operator.level = Precedence.exponentiation.level := congrArg _ hexponent
    rw [htop] at hlevel
    refine le_trans ?_ hlevel
    cases least <;> decide
  · have hlt := InfixOperator.level_lt_operandLevel hexponent
    have hnext : least.next.level ≤ least.level + 1 := by cases least <;> decide
    omega

/-- A text that is one mark, on the line where what stands before it ends. -/
structure Marks (piece : List Char) (mark : Punct) (span : Span) (next : List Char) : Prop where
  spells : ∀ more, Spells piece [(.punct mark, span)] (next ++ more)
  ne_nil : piece ≠ []
  line : ∃ gap, gap <+: piece ∧ gap.contains '\n' = false ∧ span.start = byteLength gap

theorem Marks.meets {span : Span} {next : List Char} (h : Marks piece mark span next)
    (more : List Char) : Meets (piece ++ (next ++ more)) mark := by
  obtain ⟨gap, hprefix, hline, hstart⟩ := h.line
  refine ⟨gap, hprefix.trans (List.prefix_append _ _), hline, fun p => ?_⟩
  rw [(h.spells more).scan p]
  exact ⟨span.movedTo p, _, rfl, by rw [← hstart]; rfl⟩

namespace Phrased

theorem mono (h : Phrased limit (.operands least) text inner P) (floor : Precedence)
    (hle : floor.level ≤ least.level) :
    Phrased limit (.operands floor) text inner P :=
  { h with
    reads := fun hs hdepth hstands hclear hmeets hends =>
      (h.reads hs hdepth hstands hclear hmeets ⟨hends.1, fun operator hoperator =>
        (hends.2 operator hoperator).trans hle⟩).mono hle }

/-- An operand alone is what operands that are joined may be. -/
theorem operands (h : Phrased limit .operand text inner P) (least : Precedence) :
    Phrased limit (.operands least) text inner P :=
  { h with
    reads := fun hs hdepth hstands hclear hmeets hends =>
      (h.reads hs hdepth hstands hclear hmeets hends.1).gathers least }

/-- Operands that are joined are an expression. -/
theorem expression (h : Phrased (limit + 1) (.operands least) text inner P) (hlimit : limit < maxDepth)
    (hleast : Precedence.nullCoalescing.level ≤ least.level) :
    Phrased limit .expression text inner P := by
  refine ⟨h.spells, h.ne_nil, h.lasting, fun {s pos tail mark} hs hdepth hstands hclear hmeets hends => ?_⟩
  have hnext : s.tokenAt (pos + inner.length) = .punct mark := hstands.tokenAt_of_meets hmeets
  have hsize := hs.succ_lt_size (show s.tokenAt (pos + inner.length) ≠ .eof by simp [hnext])
  have hend : EndsExpression (s.tokenAt (pos + inner.length)) := hnext ▸ hends.endsExpression
  have hgathers : Gathers s.deeper least pos (pos + inner.length) P :=
    h.reads hs.deeper (Nat.succ_le_succ hdepth) hstands hclear hmeets
      ⟨hends.endsOperands, fun operator hoperator => by
        cases hends.endsExpression.joins.symm.trans hoperator⟩
  have hbinary := hgathers.binary hleast ⟨hs.allowIn, Nat.lt_of_succ_lt hsize, hend.isName _, by
    intro operator hoperator
    have hnone := hend.joins.symm.trans hoperator
    cases hnone⟩
  exact (hbinary.assignment hs (hdepth.trans_lt hlimit) hend).expression hend

end Phrased

/-- The span of a mark of one character at the start of a text. -/
def firstSpan : Span := .between origin (origin.after ['('])

theorem spells_leftParen (tail : List Char) :
    Spells ['('] [(.punct .leftParen, firstSpan)] tail := ⟨by decide, fun _ => rfl⟩

theorem spells_rightParen (tail : List Char) :
    Spells [')'] [(.punct .rightParen, firstSpan)] tail := ⟨by decide, fun _ => rfl⟩

theorem marks_rightParen (next : List Char) : Marks [')'] .rightParen firstSpan next :=
  ⟨fun _ => spells_rightParen _, List.cons_ne_nil _ _, [], List.nil_prefix, rfl, rfl⟩

theorem spells_bang (hclear : Lexeme.Clear ['!'] tail) :
    Spells ['!'] [(.punct .bang, firstSpan)] tail := by
  have hclosed : Closed ['!'] [(.punct .bang, firstSpan), endToken ['!']] := ⟨rfl, [], rfl, .nil⟩
  exact hclosed.spells_one hclear

theorem leavesOperand_of_endsOperands (h : endsOperands mark = true) :
    leavesOperand (.punct mark) = true ∧ UpdateOperator.ofToken? (.punct mark) = none := by
  cases mark <;> cases h <;> exact ⟨rfl, rfl⟩

namespace Phrased

/-- An expression in parentheses is an operand. -/
theorem group (h : Phrased (limit + 1) .expression text inner P) (hlimit : limit < maxDepth) :
    Phrased limit .operand (['('] ++ (text ++ [')']))
      ([(.punct .leftParen, firstSpan)] ++ tokensMovedTo (origin.after ['('])
        (inner ++ tokensMovedTo (origin.after text) [(.punct .rightParen, firstSpan)]))
      fun t i => ∃ e, t.node i = .parenthesizedExpression e ∧ P t e := by
  have hend : ∀ tail, Lexeme.Clear text ([')'] ++ tail) := fun tail =>
    (Lexeme.stops_cons (by decide) tail).clear text
  have htext : ∀ tail, Spells text inner ([')'] ++ tail) := fun tail => h.spells _ (hend tail)
  have hinside : ∀ tail, Spells (text ++ [')']) _ tail := fun tail =>
    (htext tail).append (spells_rightParen tail)
  refine ⟨fun tail _ => (spells_leftParen _).append (hinside tail), List.cons_ne_nil _ _,
    h.lasting.group, fun {s pos tail mark} hs hdepth hstands _ hmeets hends => ?_⟩
  have hopen := (hstands.left (hinside tail)).tokenAt
  have hafter := hstands.right (hinside tail)
  have hclosing := hafter.right (spells_rightParen tail)
  have hnext : s.tokenAt (pos + 1 + inner.length + 1) = .punct mark :=
    hclosing.tokenAt_of_meets hmeets
  have hmakes : Makes Parse.expression s.deeper (pos + 1) (pos + 1 + inner.length) P :=
    h.reads hs.deeper (Nat.succ_le_succ hdepth) (hafter.left (spells_rightParen tail))
      (hend tail) ((marks_rightParen []).meets tail) (.inl rfl)
  obtain ⟨hleaves, hupdate⟩ := leavesOperand_of_endsOperands hends
  have hgroup := hmakes.group h.lasting hs (hdepth.trans_lt hlimit) hopen hclosing.tokenAt
    (by rw [hnext]; exact hleaves) (by rw [hnext]; exact hupdate)
  simp only [Place.Reads, List.length_append, Spells.length_tokensMovedTo, List.length_singleton]
  rwa [show pos + (1 + (inner.length + 1)) = pos + 1 + inner.length + 1 by omega]

/-- An operand with `!` in front is one. -/
theorem not (h : Phrased (limit + 1) .operand text inner P) (hlimit : limit < maxDepth)
    (hclear : Lexeme.Clear ['!'] text) :
    Phrased limit .operand (['!'] ++ text)
      ([(.punct .bang, firstSpan)] ++ tokensMovedTo (origin.after ['!']) inner)
      fun t i => ∃ argument, t.node i = .unaryExpression .not argument ∧ P t argument := by
  have hspells : ∀ tail, Lexeme.Clear text tail → Spells (['!'] ++ text) _ tail := fun tail htail =>
    (spells_bang (hclear.append_right h.ne_nil tail)).append (h.spells tail htail)
  refine ⟨fun tail htail => hspells tail (htail.suffix _ h.ne_nil), List.cons_ne_nil _ _,
    h.lasting.not, fun {s pos tail mark} hs hdepth hstands htail hmeets hends => ?_⟩
  have htext := h.spells tail (htail.suffix _ h.ne_nil)
  have hbang := (hstands.left htext).tokenAt
  have hargument : Makes unary s.deeper (pos + 1) (pos + 1 + inner.length) P :=
    h.reads hs.deeper (Nat.succ_le_succ hdepth) (hstands.right htext) (htail.suffix _ h.ne_nil)
      hmeets hends
  have hnot := hargument.not h.lasting hs (hdepth.trans_lt hlimit) hbang
  simp only [Place.Reads, List.length_append, Spells.length_tokensMovedTo, List.length_singleton]
  rwa [← Nat.add_assoc]

/-- Two operands that an operator joins. -/
theorem join {span : Span} (h : Phrased limit (.operands operator.precedence) x first P)
    (h' : Phrased limit (.operands operator.operandLevel) y second Q)
    (hmark : operator.token = .punct mark) (hstop : endsOperands mark = true)
    (hpiece : Marks piece mark span y) (hclear : Lexeme.Clear x piece) :
    Phrased limit (.operands operator.precedence) (x ++ (piece ++ y))
      (first ++ tokensMovedTo (origin.after x) ([(.punct mark, span)] ++
        tokensMovedTo (origin.after piece) second))
      fun t i => ∃ left right, t.node i = infixNode left right operator ∧ P t left ∧ Q t right := by
  have hsecond : ∀ tail, Lexeme.Clear (x ++ (piece ++ y)) tail → Lexeme.Clear y tail :=
    fun tail htail => (htail.suffix _ (List.append_ne_nil_of_right_ne_nil _ h'.ne_nil)).suffix _
      h'.ne_nil
  have hafter : ∀ tail, Lexeme.Clear y tail → Spells (piece ++ y) _ tail := fun tail htail =>
    (hpiece.spells tail).append (h'.spells tail htail)
  have hbefore : ∀ tail, Lexeme.Clear x (piece ++ y ++ tail) := fun tail => by
    rw [List.append_assoc]
    exact hclear.append_right hpiece.ne_nil (y ++ tail)
  refine ⟨fun tail htail => (h.spells _ (hbefore tail)).append (hafter tail (hsecond tail htail)),
    List.append_ne_nil_of_left_ne_nil h.ne_nil _, h.lasting.join h'.lasting operator,
    fun {s pos tail outer} hs hdepth hstands htail hmeets hends => ?_⟩
  have hy := hsecond tail htail
  have hleft := hstands.left (hafter tail hy)
  have hpair := hstands.right (hafter tail hy)
  have htoken := (hpair.left (h'.spells tail hy)).tokenAt
  have hright := hpair.right (h'.spells tail hy)
  have hgathers : Gathers s operator.precedence pos (pos + first.length) P :=
    h.reads hs hdepth hleft (hbefore tail) (by simpa using hpiece.meets tail) ⟨hstop, by
      intro operator' hoperator'
      rw [← hmark, InfixOperator.ofToken?_eq_some_iff.mpr rfl] at hoperator'
      cases hoperator'
      exact le_rfl⟩
  have hlooser : ∀ operator', InfixOperator.ofToken? true (.punct outer) = some operator' →
      operator'.level < operator.operandLevel.level := fun operator' hoperator' =>
    (level_lt_next (hends.2 operator' hoperator') (level_of_endsOperands hends.1 hoperator')).trans_le
      (next_level_le le_rfl)
  have hoperand : Gathers s operator.operandLevel (pos + first.length + 1)
      (pos + first.length + 1 + second.length) Q :=
    h'.reads hs hdepth hright hy hmeets ⟨hends.1, fun operator' hoperator' =>
      (hlooser operator' hoperator').le⟩
  have hnext : s.tokenAt (pos + first.length + 1 + second.length) = .punct outer :=
    hright.tokenAt_of_meets hmeets
  have hsize := hs.succ_lt_size (show s.tokenAt (pos + first.length + 1 + second.length) ≠ .eof by
    simp [hnext])
  have hleaves : Leaves s (pos + first.length + 1 + second.length) operator.operandLevel :=
    ⟨hs.allowIn, Nat.lt_of_succ_lt hsize, by rw [hnext]; rfl, by rw [hnext]; exact hlooser⟩
  have hjoin := hgathers.join hs.allowIn (htoken.trans hmark.symm) (Nat.le_add_right _ _)
    (by omega) (hoperand.binary le_rfl hleaves) (by omega) h.lasting h'.lasting
  simp only [Place.Reads, List.length_append, Spells.length_tokensMovedTo, List.length_singleton]
  rwa [show pos + (first.length + (1 + second.length)) = pos + first.length + 1 + second.length by
    omega]

/-- What is told of a construct may be less. -/
theorem weaken {place : Place} (h : Phrased limit place text inner P) (hlasting : Lasting Q)
    (himplies : ∀ t i, P t i → Q t i) : Phrased limit place text inner Q := by
  refine ⟨h.spells, h.ne_nil, hlasting, fun hs hdepth hstands hclear hmeets hends => ?_⟩
  have hreads := h.reads hs hdepth hstands hclear hmeets hends
  cases place with
  | expression => exact Makes.weaken hreads himplies
  | operands least => exact Gathers.weaken hreads himplies
  | operand => exact Makes.weaken hreads himplies

theorem shallower {place : Place} {limit' : Nat} (h : Phrased limit place text inner P)
    (hlimit : limit' ≤ limit) : Phrased limit' place text inner P :=
  { h with reads := fun hs hdepth => h.reads hs (hdepth.trans hlimit) }

theorem tokenize_eq {place : Place} (h : Phrased limit place text inner P) :
    tokenize text = .ok (tokensMovedTo origin inner ++ [endToken text]) :=
  tokenize_of_spells (h.spells [] fun _ _ => nofun)

end Phrased

theorem unangled_of_all {read : List SpannedToken}
    (h : (read.all fun a => (afterClosingAngle a.1).isNone && !a.1.isPunct .less) = true) :
    Unangled read := by
  have h := List.all_eq_true.mp h
  refine ⟨fun a ha => ?_, fun a ha hopen => ?_⟩
  · simpa using (Bool.and_eq_true_iff.mp (h a ha)).1
  · have hless := (Bool.and_eq_true_iff.mp (h a ha)).2
    rw [hopen] at hless
    cases hless

/-- Tokens none of which is an angle, apart from ones that stand elsewhere among unangled ones. -/
theorem Unangled.of_forall {tokens more : List SpannedToken} (h : Unangled tokens)
    (hmore : ∀ a ∈ more, (afterClosingAngle a.1 = none ∧ a.1.isPunct .less = false ∧
      a.1.isPunct .greater = false) ∨
        ∃ b ∈ tokens, ∃ t p p', a.1 = Token.movedTo p t ∧ b.1 = Token.movedTo p' t) :
    Unangled more := by
  have hcut : ∀ (t : Token) (p : Position), afterClosingAngle (t.movedTo p) = afterClosingAngle t := by
    intro t p
    cases t <;> rfl
  have hmark : ∀ (t : Token) (p : Position) (mark : Punct),
      (t.movedTo p).isPunct mark = t.isPunct mark := by
    intro t p mark
    cases t <;> rfl
  refine ⟨fun a ha => ?_, fun a ha hopen b hb => ?_⟩
  · rcases hmore a ha with ⟨hnone, -⟩ | ⟨c, hc, t, p, p', heq, heq'⟩
    · exact hnone
    · rw [heq, hcut, ← hcut t p', ← heq']
      exact h.uncut c hc
  · rcases hmore a ha with ⟨-, hless, -⟩ | ⟨c, hc, t, p, p', heq, heq'⟩
    · cases hless.symm.trans hopen
    rcases hmore b hb with ⟨-, -, hgreater⟩ | ⟨d, hd, t', q, q', hd', hd''⟩
    · exact hgreater
    · rw [hd', hmark, ← hmark t' q', ← hd'']
      refine h.apart c hc ?_ d hd
      rwa [heq', hmark, ← hmark t p, ← heq]

/-- An expression in parentheses is a program. -/
theorem Phrased.exists_parse (h : Phrased 3 .expression text inner P)
    (hunangled : ∀ read, tokenize text = .ok read → Unangled read) :
    ∃ t root statement group e, parse ('(' :: text ++ [')']) = .ok t ∧ t.root = some root ∧
      t.node root = .program [statement] ∧ t.node statement = .expressionStatement group ∧
      t.node group = .parenthesizedExpression e ∧ P t e := by
  have hunangled := hunangled _ h.tokenize_eq
  let whole := ['('] ++ (text ++ [')'])
  let marked := [(Token.punct .leftParen, firstSpan)] ++ tokensMovedTo (origin.after ['('])
    (inner ++ tokensMovedTo (origin.after text) [(.punct .rightParen, firstSpan)])
  let tokens := tokensMovedTo origin marked ++ [endToken whole]
  have hclear : Lexeme.Clear text ([')'] ++ []) := (Lexeme.stops_cons (by decide) []).clear text
  have hinside := (h.spells _ hclear).append (spells_rightParen [])
  have hspells : Spells whole marked [] := (spells_leftParen _).append hinside
  have hscan : tokenize whole = .ok tokens := tokenize_of_spells hspells
  have htokens : tokens = (.punct .leftParen, firstSpan) :: (tokensMovedTo (origin.after ['(']) inner ++
      tokensMovedTo (origin.after ['(']) (tokensMovedTo (origin.after text)
        [(.punct .rightParen, firstSpan)])) ++ [endToken whole] := by
    simp only [tokens, marked]
    rw [tokensMovedTo_append, hinside.movedTo_movedTo, tokensMovedTo_append]
    rfl
  have hs : ∀ depth, Whole (State.alone whole tokens depth) := by
    refine fun depth => ⟨rfl, hscan, hunangled.of_forall fun a ha => ?_⟩
    simp only [State.alone, htokens, tokensMovedTo_eq_map, List.mem_append, List.mem_cons,
      List.mem_map, List.map_cons, List.map_nil, List.not_mem_nil, or_false] at ha
    rcases ha with (rfl | ⟨b, hb, rfl⟩ | rfl) | rfl
    · exact .inl ⟨rfl, rfl, rfl⟩
    · refine .inr ⟨(b.1.movedTo origin, b.2.movedTo origin), ?_, b.1, _, _, rfl, rfl⟩
      simp only [tokensMovedTo_eq_map, List.mem_append, List.mem_map]
      exact .inl ⟨b, hb, rfl⟩
    · exact .inl ⟨rfl, rfl, rfl⟩
    · exact .inl ⟨rfl, rfl, rfl⟩
  have hstands : ∀ depth, Stands (State.alone whole tokens depth) 0 whole marked [] :=
    stands_whole whole marked
  have hafter := fun depth => (hstands depth).right hinside
  have hclosing := (hafter 0).right (spells_rightParen [])
  have hreads : Makes Parse.expression (State.alone whole tokens 3) 1 (1 + inner.length) P := by
    have hreads := h.reads (hs 3) le_rfl ((hafter 3).left (spells_rightParen [])) hclear
      ((marks_rightParen []).meets []) (.inl rfl)
    simpa only [Place.Reads, List.length_singleton, Nat.zero_add] using hreads
  have hclose : (State.alone whole tokens 0).tokenAt (1 + inner.length) = .punct .rightParen := by
    simpa using hclosing.tokenAt
  have heof : (State.alone whole tokens 0).tokenAt (1 + inner.length + 1) = .eof := by
    rw [show 1 + inner.length + 1 = inner.length + 1 + 1 by omega]
    simp [Branches.tokenAt_eq, State.alone, htokens, endToken, tokensMovedTo_eq_map]
  exact parse_of_makes (hs 0) h.lasting ((hstands 0).left hinside).tokenAt hreads hclose heof

end Parse
/-- A text in parentheses, if this is asked for. -/
def parenthesized (asked : Bool) (text : List Char) : List Char :=
  if asked then '(' :: text ++ [')'] else text

namespace Tree

/-- A node of a tree is in parentheses if this is asked for. -/
def Encloses (asked : Bool) (P : Tree → NodeId → Prop) (t : Tree) (id : NodeId) : Prop :=
  if asked then ∃ inner, t.node id = .parenthesizedExpression inner ∧ P t inner else P t id

theorem lasting_copied (x : Exchange) (t : Tree) (id : NodeId) :
    Parse.Lasting fun t' i' => t.Copied x t' id i' :=
  fun _ _ _ h => h.congr

end Tree

namespace Parse

variable {room limit : Nat} {P Q : Tree → NodeId → Prop} {text x y next : List Char} {least : Precedence}

/-- Alone, a text is read at some place as what has a property. -/
def Rereads (room : Nat) (place : Place) (text : List Char) (P : Tree → NodeId → Prop) : Prop :=
  text ≠ [] ∧ ReadAs room place.parser text P

/-- Where parsers are nested as deep as they may be, nothing is read. -/
theorem Place.lt_maxDepth {place : Place} {s s' : State} {n : Nat} {id : NodeId}
    (h : place.parser (Grammar.upTo (n + 1)) s = (.ok id, s')) : s.depth < maxDepth := by
  cases place with
  | expression =>
    obtain ⟨_, s₁, ⟨⟩, hrun⟩ := exists_of_bind h
    obtain ⟨_, s₂, hitems, -⟩ := exists_of_bind hrun
    obtain ⟨_, s₃, hfirst, -⟩ := exists_of_bind hitems
    have hnested : assignment (Grammar.upTo n) s = _ := hfirst
    exact (exists_of_nested hnested).1
  | operands least =>
    obtain ⟨_, s₁, hfirst, -⟩ := exists_unary_of_binary h
    exact (exists_of_nested hfirst).1
  | operand => exact (exists_of_nested h).1

theorem Rereads.lt_maxDepth {place : Place} (h : Rereads room place text P) : room < maxDepth := by
  obtain ⟨-, inner, h⟩ := h
  obtain ⟨part, root, ⟨-, -, s', hrun, -⟩, -⟩ := h room le_rfl
  exact Place.lt_maxDepth hrun

/-- A text that is read alone is read in the middle of other ones too. -/
theorem Rereads.phrase {place : Place} (h : Rereads room place text P) (hlimit : limit ≤ room)
    (hlasting : Lasting P)
    (hbelow : ∀ t i part root, P part root → t.SameBelow i part root → P t i) :
    Phrase limit place text P := by
  have hroom := h.lt_maxDepth
  obtain ⟨hne, inner, h⟩ := h
  refine ⟨inner, fun tail hclear => ?_, hne, hlasting,
    fun {s pos tail mark} hs hdepth hstands _ hmeets hends => ?_⟩
  · obtain ⟨part, root, hread, -⟩ := h 0 (Nat.zero_le _)
    obtain ⟨inner', heq, -, hspells⟩ := hread.closed.exists_spells
    rw [List.append_cancel_right heq]
    exact hspells tail hclear
  · obtain ⟨part, root, hread, hp⟩ := h s.depth (hdepth.trans hlimit)
    have hdepth : s.depth ≤ maxDepth := (hdepth.trans hlimit).trans hroom.le
    have hoperands := hends.endsOperands
    obtain ⟨hstop, haccess⟩ := isStop_of_endsOperands hoperands
    cases place with
    | expression =>
      exact (hstands.makes hs hdepth paired_expression (fun _ => grows_expression (Grammar.sound_upTo _))
        hread hmeets hstop haccess fun operator hoperator => by
          cases hends.endsExpression.joins.symm.trans hoperator).weaken
            fun t i => hbelow t i part root hp
    | operands least =>
      exact (hstands.gathers hs hdepth hread hmeets hstop haccess (fun operator hoperator =>
        level_lt_next (hends.2 operator hoperator) (level_of_endsOperands hoperands hoperator))
        fun operator => next_level_le).weaken fun t i => hbelow t i part root hp
    | operand =>
      exact (hstands.makes hs hdepth (paired_unary .exponentiation)
        (fun _ => grows_unary (Grammar.sound_upTo _)) hread hmeets hstop haccess fun operator hoperator =>
          level_of_endsOperands hoperands hoperator).weaken fun t i => hbelow t i part root hp

/-- Where operands are read, and if they are in parentheses where one is. -/
def Place.enclosed (asked : Bool) (least : Precedence) : Place :=
  if asked then .operand else .operands least

/-- A text in parentheses, if this is asked for. -/
theorem Phrase.enclosed (h : Phrase (limit + 2) (.operands least) x P)
    (hleast : Precedence.nullCoalescing.level ≤ least.level) (hlimit : limit + 1 < maxDepth)
    (asked : Bool) : Phrase limit (.enclosed asked least) (ScriptLint.parenthesized asked x)
      (Tree.Encloses asked P) := by
  obtain ⟨inner, h⟩ := h
  cases asked with
  | false => exact ⟨inner, h.shallower (Nat.le_add_right limit 2)⟩
  | true =>
    have hexpression : Phrased (limit + 1) .expression x inner P := h.expression hlimit hleast
    exact ⟨_, hexpression.group (Nat.lt_of_succ_lt hlimit)⟩

theorem Phrase.operands {asked : Bool} (h : Phrase limit (.enclosed asked least) x P) :
    Phrase limit (.operands least) x P := by
  obtain ⟨inner, h⟩ := h
  cases asked with
  | false => exact ⟨inner, h⟩
  | true => exact ⟨inner, Phrased.operands h least⟩

theorem Phrase.mono (h : Phrase limit (.operands least) x P) (floor : Precedence)
    (hle : floor.level ≤ least.level) : Phrase limit (.operands floor) x P := by
  obtain ⟨inner, h⟩ := h
  exact ⟨inner, h.mono floor hle⟩

theorem Phrase.shallower {place : Place} {limit' : Nat} (h : Phrase limit place x P)
    (hlimit : limit' ≤ limit) : Phrase limit' place x P := by
  obtain ⟨inner, h⟩ := h
  exact ⟨inner, h.shallower hlimit⟩

theorem Phrase.expression (h : Phrase (limit + 1) (.operands least) x P) (hlimit : limit < maxDepth)
    (hleast : Precedence.nullCoalescing.level ≤ least.level) : Phrase limit .expression x P := by
  obtain ⟨inner, h⟩ := h
  exact ⟨inner, Phrased.expression h hlimit hleast⟩

/-- A mark with a blank on each side of it. -/
theorem marks_spaced {mark : Punct} {spelling : List Char}
    (h : Closed spelling [(.punct mark, .between origin (origin.after spelling)), endToken spelling])
    (next : List Char) : Marks ([' '] ++ (spelling ++ [' '])) mark
      ((Span.between origin (origin.after spelling)).movedTo (origin.after [' '])) next where
  spells more := by
    have hmark : Spells spelling _ ([' '] ++ (next ++ more)) :=
      h.spells_one ((Lexeme.stops_cons (by decide) _).clear spelling)
    have hafter := hmark.append (.skipped (.blank (c := ' ') (by decide) .nil) (next ++ more))
    have hall := (Spells.skipped (.blank (c := ' ') (by decide) .nil) _).append hafter
    simpa [tokensMovedTo, Token.movedTo] using hall
  ne_nil := List.cons_ne_nil _ _
  line := ⟨[' '], ⟨spelling ++ [' '], rfl⟩, rfl, rfl⟩

/-- Two operands with a mark between them, and blanks around it. -/
theorem Phrase.spaced (operator : InfixOperator) {mark : Punct} {spelling : List Char}
    (h : Phrase limit (.operands operator.precedence) x P)
    (h' : Phrase limit (.operands operator.operandLevel) y Q)
    (hmark : operator.token = .punct mark) (hstop : endsOperands mark = true)
    (hclosed : Closed spelling
      [(.punct mark, .between origin (origin.after spelling)), endToken spelling]) :
    Phrase limit (.operands operator.precedence) (x ++ ([' '] ++ (spelling ++ [' ']) ++ y))
      fun t i => ∃ left right, t.node i = infixNode left right operator ∧ P t left ∧ Q t right := by
  obtain ⟨first, h⟩ := h
  obtain ⟨second, h'⟩ := h'
  exact ⟨_, h.join h' hmark hstop (marks_spaced hclosed y)
    ((Lexeme.stops_cons (by decide) _).clear x)⟩

/-- Whether a text, which ends with blanks at most, is read as something that passes a test, however
deep it is. -/
def isReadAs {α : Type} (room : Nat) (p : Grammar → Parser α) (text : List Char)
    (test : Tree → α → Bool) : Bool :=
  match tokenize text with
  | .error _ => false
  | .ok tokens =>
    (slice? text (((tokens.filter fun a => !a.1.isEof).getLast?.map (·.2.stop)).getD 0)
        (byteLength text)).any (·.all Lexeme.isBlank) &&
      (List.range (room + 1)).all fun depth =>
        match withGrammar p (State.alone text tokens depth) with
        | (.ok root, s) => s.atEof && test s.tree root
        | _ => false

theorem readAs_of_isReadAs {α : Type} {p : Grammar → Parser α} {test : Tree → α → Bool}
    {P : Tree → α → Prop} (h : isReadAs room p text test = true)
    (htest : ∀ part root, test part root = true → P part root) : ReadAs room p text P := by
  unfold isReadAs at h
  split at h
  · cases h
  · next tokens htokens =>
    simp only [Bool.and_eq_true, Option.any_eq_true] at h
    obtain ⟨⟨gap, hslice, hblank⟩, hreads⟩ := h
    have hgap : Skipped false gap := by
      clear hslice
      induction gap with
      | nil => exact .nil
      | cons c rest ih =>
        obtain ⟨hc, hrest⟩ := Bool.and_eq_true_iff.mp hblank
        exact .blank hc (ih hrest)
    have hclosed : Closed text tokens := ⟨htokens, gap, hslice, hgap⟩
    obtain ⟨inner, rfl, hplain, -⟩ := hclosed.exists_spells
    refine ⟨inner, fun depth hdepth => ?_⟩
    have hread := List.all_eq_true.mp hreads depth (List.mem_range.mpr (Nat.lt_succ_of_le hdepth))
    split at hread
    · next root s hrun =>
      obtain ⟨hend, hroot⟩ := Bool.and_eq_true_iff.mp hread
      exact ⟨s.tree, root, ⟨hclosed, hplain, s, hrun, hend, rfl⟩, htest _ _ hroot⟩
    · cases hread

end Parse
end ScriptLint
