import ScriptLint.Proofs.Parse.Expression
import ScriptLint.Proofs.Parse.Infix
import ScriptLint.Proofs.Tree.Nesting

namespace ScriptLint
namespace Parse

open ScriptLint.Parser

variable {α : Type} {g : Grammar} {b s s' : State} {m : Bool} {id : NodeId}

/-- The node reaches over all that was read since `b`. -/
def Spans (b s : State) (id : NodeId) : Prop :=
  b.Ready → s.tree.range id = some (s.spanFrom b.currentSpan)

/-- A parser whose node reaches over all that it reads. -/
def Covering (p : Parser NodeId) : Prop := ∀ s, Leads s s p fun id s' => Spans s s' id

/-- A token with which no operand begins: the end of the text, and what can be left of another
token. -/
def Closes (t : Token) : Prop := t = .eof ∨ IsRemainder t

/-- A parser of an operand: its node reaches over all that it reads, which begins with a token of
its own. -/
def Operand (p : Parser NodeId) : Prop :=
  ∀ s, Leads s s p fun id s' => Spans s s' id ∧ ¬ Closes s.current

/-- Runs a parser of which no more is needed than that it is one. -/
theorem Frame.run (h : Frame b s) {p : Parser α} {out : α → List NodeId} (hp : Grows p m out) :
    Leads b s p fun _ s' => Frame b s' :=
  ((hp s).rebase h).mono fun _ _ h' => h.trans h'.frame

theorem leads_eatIf (test : Token → Bool) :
    Leads s s (eatIf test) fun eaten s' =>
      Frame s s' ∧ eaten = test s.current ∧ (eaten = false → s' = s) := by
  by_cases htest : test s.current
  · simpa [Leads, eatIf, htest] using Frame.advance s
  · simpa [Leads, eatIf, htest] using Frame.refl s

/-- A construct that is ended reaches over all that was read since it began. -/
theorem leads_spans_finish (node : Node) :
    Leads b s (Parser.finish b.currentSpan node) fun id s' => Spans b s' id := by
  intro _
  have hentry := Tree.entry?_alloc s.tree node (some (s.spanFrom b.currentSpan)) s.tree.size
  rw [if_pos rfl] at hentry
  exact Tree.range_of_entry hentry

/-- So does a construct of one token. -/
theorem leads_spans_leaf (heof : s.current.isEof = false) (node : Node) :
    Leads s s.advance (Parser.alloc node s.currentSpan) fun id s' => Spans s s' id := by
  intro hs
  have hentry := Tree.entry?_alloc s.advance.tree node (some s.currentSpan) s.advance.tree.size
  rw [if_pos rfl] at hentry
  have hspan := spanFrom_advance hs heof
  exact (Tree.range_of_entry hentry).trans (congrArg some hspan.symm)

theorem covering_identifier : Covering identifier := by
  intro s
  unfold identifier
  refine .ask_bind (.ask_bind ?_)
  split
  · next hcurrent => exact .skip_bind (leads_spans_leaf (by simp [hcurrent, Token.isEof]) _)
  · exact .unexpected (.refl s)

theorem leads_spans_literal (heof : s.current.isEof = false) (value : LiteralValue) :
    Leads s s (literal value) fun id s' => Spans s s' id := by
  unfold literal
  exact .ask_bind (.skip_bind (.ask_bind (leads_spans_leaf heof _)))

theorem leads_spans_word (heof : s.current.isEof = false) (node : Node) :
    Leads s s (word node) fun id s' => Spans s s' id := by
  unfold word
  exact .ask_bind (.skip_bind (leads_spans_leaf heof _))

theorem covering_functionExpression (hg : g.Sound) : Covering (functionExpression g) := by
  intro s
  unfold functionExpression
  refine .ask_bind ?_
  refine ((Frame.refl s).run (grows_functionHead hg)).bind fun _ s' h => ?_
  exact (h.run (grows_block hg)).bind fun _ s' _ => leads_spans_finish _

theorem covering_classLike (hg : g.Sound) (expression : Bool) :
    Covering (classLike g expression) := by
  intro s
  unfold classLike
  refine .ask_bind ?_
  refine ((Frame.refl s).run (grows_expectKeyword _)).bind fun _ s' h => ?_
  refine (h.run (grows_optionally (asks_ask _).grows grows_identifier)).bind fun _ s' h => ?_
  refine (h.run grows_skipTypeParameters).bind fun _ s' h => ?_
  refine (h.run (grows_optionally (grows_eatIf _) (grows_superClass hg))).bind fun _ s' h => ?_
  refine (h.run (grows_eatIf _)).bind fun _ s' h => ?_
  refine .when_bind (P := fun s' => Frame s s') (fun _ => h.run (grows_separatedBy _ hg.type))
    (fun _ => h) fun s' h => ?_
  exact (h.run (grows_classBody hg)).bind fun _ s' _ => leads_spans_finish _

theorem covering_template (hg : g.Sound) : Covering (template g) := by
  intro s
  unfold template
  refine .ask_bind (.advance_bind ?_)
  split
  · next parts hcurrent =>
    refine ((leads_templateParts hg _ parts [] []).rebase (Frame.advance s)).bind ?_
    rintro _ s' ⟨q, e, rfl, h⟩ hs
    have hentry := Tree.entry?_alloc s'.tree (.templateLiteral q e) (some s.currentSpan) s'.tree.size
    rw [if_pos rfl] at hentry
    exact (Tree.range_of_entry hentry).trans (congrArg some (h.spanFrom_eq hcurrent hs).symm)
  · exact .fail (Frame.advance s)

theorem covering_parenthesized (hg : g.Sound) : Covering (parenthesized g) := by
  intro s
  unfold parenthesized
  refine .ask_bind ?_
  refine ((Frame.refl s).run (grows_expect _)).bind fun _ s' h => ?_
  refine (h.run (grows_withIn (grows_expression hg) true)).bind fun _ s' h => ?_
  exact (h.run (grows_expect _)).bind fun _ s' _ => leads_spans_finish _

theorem covering_arrayLiteral (hg : g.Sound) : Covering (arrayLiteral g) := by
  intro s
  unfold arrayLiteral
  refine .ask_bind ?_
  refine ((Frame.refl s).run (grows_expect _)).bind fun _ s' h => ?_
  have helements := grows_elementsWithHoles (grows_spreadOrAssignment hg)
  refine (h.run (grows_withIn helements true)).bind fun _ s' h => ?_
  exact (h.run (grows_expect _)).bind fun _ s' _ => leads_spans_finish _

theorem covering_objectLiteral (hg : g.Sound) : Covering (objectLiteral g) := by
  intro s
  unfold objectLiteral
  refine .ask_bind ?_
  refine ((Frame.refl s).run (grows_expect _)).bind fun _ s' h => ?_
  have hmembers := grows_commaSeparated .rightBrace (grows_objectMember hg)
  refine (h.run (grows_withIn hmembers true)).bind fun _ s' h => ?_
  exact (h.run (grows_expect _)).bind fun _ s' _ => leads_spans_finish _

theorem covering_primary (hg : g.Sound) : Covering (primary g) := by
  intro s
  unfold primary
  refine .ask_bind (.ask_bind ?_)
  split
  · exact .ask_bind (.ite (fun _ => covering_functionExpression hg s)
      fun _ => covering_identifier s)
  · next hcurrent => exact leads_spans_word (by simp [hcurrent, Token.isEof]) _
  · next hcurrent => exact leads_spans_word (by simp [hcurrent, Token.isEof]) _
  · next hcurrent => exact leads_spans_literal (by simp [hcurrent, Token.isEof]) _
  · next hcurrent => exact leads_spans_literal (by simp [hcurrent, Token.isEof]) _
  · next hcurrent => exact leads_spans_literal (by simp [hcurrent, Token.isEof]) _
  · exact covering_functionExpression hg s
  · exact covering_classLike hg true s
  · next hcurrent => exact leads_spans_word (by simp [hcurrent, Token.isEof]) _
  · next hcurrent => exact leads_spans_literal (by simp [hcurrent, Token.isEof]) _
  · next hcurrent => exact leads_spans_literal (by simp [hcurrent, Token.isEof]) _
  · exact covering_template hg s
  · exact covering_parenthesized hg s
  · exact covering_arrayLiteral hg s
  · exact covering_objectLiteral hg s
  · exact .fail (.refl s)
  · exact .fail (.refl s)
  · exact .fail (.refl s)
  · exact .unexpected (.refl s)

/-- An access, call or template after an expression that began at `b` reaches over both. -/
theorem leads_spans_suffix? (hg : g.Sound) (calls : Bool) {object : NodeId} (h : Frame b s)
    (hspans : Spans b s object) :
    Leads b s (suffix? g calls b.currentSpan object) fun found s' =>
      Spans b s' ((found.map Prod.fst).getD object) := by
  have hfinish : ∀ (node : Node) (optional : Bool) (s : State), Leads b s (do
      let e ← finish b.currentSpan node
      return some (e, optional)) fun found s' => Spans b s' ((found.map Prod.fst).getD object) :=
    fun node _ _ => (leads_spans_finish node).bind fun _ _ h => .pure h
  unfold suffix?
  refine .ask_bind ?_
  split
  · refine (h.run grows_skip).bind fun _ s' h => ?_
    exact (h.run grows_propertyIdentifier).bind fun _ s' _ => hfinish _ _ s'
  · refine .ite (fun _ => ?_) fun _ => .pure hspans
    refine (h.run grows_skip).bind fun _ s' h => .ask_bind ?_
    split
    · exact (h.run (grows_arguments hg)).bind fun _ s' _ => hfinish _ _ s'
    · exact (h.run (grows_index hg)).bind fun _ s' _ => hfinish _ _ s'
    · exact (h.run grows_propertyIdentifier).bind fun _ s' _ => hfinish _ _ s'
  · exact (h.run (grows_index hg)).bind fun _ s' _ => hfinish _ _ s'
  · exact .ite (fun _ => (h.run (grows_arguments hg)).bind fun _ s' _ => hfinish _ _ s')
      fun _ => .pure hspans
  · exact (h.run (grows_template hg)).bind fun _ s' _ => hfinish _ _ s'
  · refine .ask_bind (.ite (fun _ => .pure hspans) fun _ => ?_)
    exact (h.run grows_skip).bind fun _ s' _ => hfinish _ _ s'
  · exact .pure hspans

theorem leads_spans_suffixes (hg : g.Sound) (calls : Bool) {object : NodeId}
    (h : Grown b s m [object]) (hspans : Spans b s object) :
    Leads b s (suffixes g calls b.currentSpan object) fun id s' => Spans b s' id := by
  unfold suffixes
  refine .loop_bind (fun value s' => Grown b s' false [value.1] ∧ Spans b s' value.1)
    ⟨h.done rfl, hspans⟩ (fun _ _ h => h.1.frame) ?_ ?_
  · rintro ⟨object, inChain⟩ s' ⟨h, hspans⟩
    refine ((leads_suffix? hg calls h).and (leads_spans_suffix? hg calls h.frame hspans)).bind
      fun found s' h => ?_
    split <;> exact .pure h
  · rintro ⟨e, inChain⟩ s' ⟨-, hspans⟩
    exact .ite (fun _ => leads_spans_finish _) fun _ => .pure hspans

theorem covering_newExpression (hg : g.Sound) : Covering (newExpression g) := by
  intro s
  unfold newExpression
  refine .ask_bind ?_
  refine ((Frame.refl s).run (grows_expectKeyword _)).bind fun _ s' h => .ask_bind ?_
  refine .when_bind (P := fun s' => Frame s s') (fun _ => .fail h) (fun _ => h)
    fun s₁ h => .ask_bind (.ask_bind ?_)
  have hcallee := Growth.refl s₁
  refine .either_bind (P := fun callee s' => Grown s₁ s' false [callee])
    (fun _ => (hcallee.run hg.new).rebase h)
    (fun _ => (hcallee.run (grows_primary hg)).rebase h) fun callee s' hcallee => ?_
  refine ((leads_suffixes hg false hcallee).rebase h).bind fun callee s' hcallee => .ask_bind ?_
  have h := h.trans hcallee.frame
  exact .either_bind (P := fun _ s' => Frame s s') (fun _ => h.run (grows_arguments hg))
    (fun _ => .pure h) fun _ s' _ => leads_spans_finish _

theorem covering_leftHandSide (hg : g.Sound) : Covering (leftHandSide g) := by
  intro s
  unfold leftHandSide
  refine .ask_bind (.ask_bind (.either_bind (P := fun id s' => Grown s s' false [id] ∧ Spans s s' id)
    (fun _ => ?_) (fun _ => ?_) fun e s' h => leads_spans_suffixes hg true h.1 h.2))
  · exact (grows_newExpression hg s).and (covering_newExpression hg s)
  · exact (grows_primary hg s).and (covering_primary hg s)

theorem covering_postfixExpression (hg : g.Sound) : Covering (postfixExpression g) := by
  intro s
  unfold postfixExpression
  refine .ask_bind ?_
  refine ((grows_leftHandSide hg s).and (covering_leftHandSide hg s)).bind
    fun argument s' h => .ask_bind ?_
  split
  · refine .ask_bind (.ite (fun _ => .pure h.2) fun _ => ?_)
    exact (h.1.frame.run grows_skip).bind fun _ s' _ => leads_spans_finish _
  · exact .pure h.2

theorem covering_unaryOperand (hg : g.Sound) : Covering (unaryOperand g) := by
  intro s
  have h := Frame.refl s
  unfold unaryOperand
  refine .ask_bind (.ask_bind ?_)
  split
  · refine (h.run grows_skip).bind fun _ s' h => ?_
    exact (h.run hg.unary).bind fun _ s' _ => leads_spans_finish _
  · refine (h.run grows_skip).bind fun _ s' h => ?_
    exact (h.run hg.unary).bind fun _ s' _ => leads_spans_finish _
  · refine (leads_eatIf _).bind fun awaits s' h => .ite (fun _ => ?_) fun hawaits => ?_
    · exact (h.1.run hg.unary).bind fun _ s' _ => leads_spans_finish _
    · obtain rfl := h.2.2 (by simpa using hawaits)
      exact .ite (fun _ => .fail h.1) fun _ => covering_postfixExpression hg s'

/-- What holds one level deeper holds of a state that differs from the one after in its depth. -/
theorem leads_nested {p : Parser α} {Q : α → State → Prop}
    (hp : Leads { s with depth := s.depth + 1 } { s with depth := s.depth + 1 } p Q) :
    Leads s s (nested p) fun a s' => ∃ inner, Q a inner ∧ s' = { inner with depth := s'.depth } := by
  by_cases hdeep : maxDepth ≤ s.depth
  · simpa [Leads, nested, enter, hdeep] using Frame.refl s
  · simp only [Leads, nested, enter, if_neg hdeep] at hp ⊢
    split at hp
    · next a s' heq =>
      simp only [heq]
      exact ⟨s', hp, rfl⟩
    · next e s' heq =>
      simp only [heq]
      have hdepth : s'.depth - 1 = s.depth := by simp [hp.depth]
      rw [hdepth]
      have hwithin := hp.within
      rwa [← hp.allowIn] at hwithin

theorem covering_nested {p : Parser NodeId} (hp : Covering p) : Covering (nested p) := by
  refine fun s => (leads_nested (hp { s with depth := s.depth + 1 })).mono ?_
  rintro id s' ⟨inner, hspans, heq⟩ hs
  rw [heq]
  exact hspans (hs.congr rfl rfl hs.pos_lt)

theorem covering_unary (hg : g.Sound) : Covering (unary g) :=
  covering_nested (covering_unaryOperand hg)

/-- One operator after an operand that began at `b`, with what stands after it. -/
theorem leads_spans_infixTail? (hg : g.Sound) (least : Precedence) {left : NodeId} (h : Frame b s)
    (hspans : Spans b s left) :
    Leads b s (infixTail? g least b.currentSpan left) fun found s' =>
      Spans b s' (found.getD left) := by
  unfold infixTail?
  refine .ask_bind (.ask_bind (.ite (fun _ => ?_) fun _ => .ask_bind (.ask_bind ?_)))
  · refine (h.run grows_skip).bind fun _ s' h => ?_
    refine (h.run hg.type).bind fun _ s' _ => ?_
    exact (leads_spans_finish _).bind fun e s' h => .pure h
  · split
    · refine .ite (fun _ => .pure hspans) fun _ => ?_
      refine (h.run grows_skip).bind fun _ s' h => ?_
      refine (h.run (hg.binary _)).bind fun _ s' _ => ?_
      exact (leads_spans_finish _).bind fun e s' h => .pure h
    · exact .pure hspans

theorem covering_binary (hg : g.Sound) (least : Precedence) : Covering (binary g least) := by
  intro s
  unfold binary
  refine .ask_bind ?_
  refine ((grows_unary hg s).and (covering_unary hg s)).bind fun first s' h => ?_
  refine .loop (fun left s' => Grown s s' false [left] ∧ Spans s s' left) h (fun _ _ h => h.1.frame)
    fun left s' h => ?_
  refine ((leads_infixTail? hg least h.1).and
    (leads_spans_infixTail? hg least h.1.frame h.2)).bind fun found s' h => ?_
  split
  · exact .pure h
  · exact .pure h.2

theorem Closes.eq_or {t : Token} (h : Closes t) :
    t = .eof ∨ t = .punct .greater ∨ t = .punct .greaterGreater ∨ t = .punct .equal ∨
      t = .punct .greaterEqual ∨ t = .punct .greaterGreaterEqual := by
  obtain heof | ⟨t', ht⟩ := h
  · exact .inl heof
  · unfold afterClosingAngle at ht
    split at ht <;> cases ht <;> simp

theorem leads_false_primary (h : Closes s.current) : Leads s s (primary g) fun _ _ => False := by
  unfold primary
  refine .ask_bind (.ask_bind ?_)
  obtain heq | heq | heq | heq | heq | heq := h.eq_or <;>
    · simp only [heq]
      exact .unexpected (.refl s)

theorem leads_false_leftHandSide (h : Closes s.current) :
    Leads s s (leftHandSide g) fun _ _ => False := by
  have hnew : s.current.isKeyword .newWord = false := by
    obtain heq | heq | heq | heq | heq | heq := h.eq_or <;> rw [heq] <;> rfl
  unfold leftHandSide
  refine .ask_bind (.ask_bind (.either_bind (P := fun _ _ => False) (fun hword => ?_)
    (fun _ => leads_false_primary h) fun _ _ h => h.elim))
  rw [hnew] at hword
  cases hword

theorem leads_false_unary (h : Closes s.current) : Leads s s (unary g) fun _ _ => False := by
  have hnone : UnaryOperator.ofToken? s.current = none ∧ UpdateOperator.ofToken? s.current = none ∧
      s.current.isKeyword .awaitWord = false ∧ s.current.isPunct .less = false := by
    obtain heq | heq | heq | heq | heq | heq := h.eq_or <;> rw [heq] <;> exact ⟨rfl, rfl, rfl, rfl⟩
  obtain ⟨hunary, hupdate, hawait, hless⟩ := hnone
  refine (leads_nested (Q := fun _ _ => False) ?_).mono fun _ _ h => h.elim fun _ h => h.1
  generalize hinner : { s with depth := s.depth + 1 } = inner
  have hcurrent : inner.current = s.current := by
    subst hinner
    rfl
  rw [← hcurrent] at h hunary hupdate hawait hless
  unfold unaryOperand
  refine .ask_bind (.ask_bind ?_)
  simp only [hunary, hupdate, hless]
  refine (leads_eatIf _).bind fun awaits s' hs' => ?_
  obtain ⟨-, rfl, heq⟩ := hs'
  obtain rfl := heq hawait
  rw [hawait]
  refine .ite (fun hcontra => by simp at hcontra) fun _ => ?_
  refine .ite (fun hcontra => by simp at hcontra) fun _ => ?_
  unfold postfixExpression
  exact .ask_bind ((leads_false_leftHandSide h).bind fun _ _ h => h.elim)

theorem operand_binary (hg : g.Sound) (least : Precedence) : Operand (binary g least) := by
  intro s
  by_cases h : Closes s.current
  · unfold binary
    exact .ask_bind ((leads_false_unary h).bind fun _ _ h => h.elim)
  · exact (covering_binary hg least s).mono fun _ _ hspans => ⟨hspans, h⟩

theorem isEof_token (operator : InfixOperator) : operator.token.isEof = false := by
  rcases operator with operator | operator <;> cases operator <;> rfl

theorem not_isRemainder_token {operator : InfixOperator} (hangled : operator.isAngled = false) :
    ¬ IsRemainder operator.token := by
  intro h
  obtain heq | heq | heq | heq | heq | heq := Closes.eq_or (.inr h) <;>
    rcases operator with operator | operator <;> cases operator <;>
    first | exact absurd hangled (by decide) | cases heq

/-- An operator is written as it is spelled. -/
theorem slice?_of_placed_token {text : List Char} {operator : InfixOperator} {span : Span}
    (h : Placed text operator.token span) :
    slice? text span.start span.stop = some operator.spelling.toList := by
  generalize ht : operator.token = t at h
  cases h with
  | mark mark a b htext =>
    have hspelling : mark.spelling = operator.spelling := by
      rcases operator with operator | operator <;> cases operator <;> cases ht <;> rfl
    rw [← hspelling]
    refine slice?_eq_some_iff.mpr ⟨a, b, htext.symm, ?_, ?_⟩ <;> simp [Span.between]
  | template => rcases operator with operator | operator <;> cases operator <;> cases ht
  | plain _ hmark _ hword =>
    rcases operator with operator | operator <;> cases operator <;> subst ht <;>
      first | exact absurd rfl (hmark _) | exact (hword _ rfl).slice

/-- What a node reaches over it keeps. -/
theorem Spans.range_later (h : Spans b s id) (hb : b.Ready) (hcontinues : s.tree.Continues s'.tree) :
    s'.tree.range id = some (s.spanFrom b.currentSpan) := by
  have hinside : id < s.tree.size := by
    by_contra hge
    have hnone := Tree.entry?_eq_none_iff.mpr (not_lt.mp hge)
    simpa [Tree.range, hnone] using h hb
  rw [← h hb]
  simp only [Tree.range, hcontinues.kept id hinside]

/-- What goes on with a mark at the cursor begins with the operand before it and ends after that. -/
theorem prolongs_of_spans {object : NodeId} {mark : Punct} (hb : b.Ready) (h : Frame b s)
    (hmoved : b.pos < s.pos) (hspans : Spans b s object) (hmark : s.current = .punct mark)
    (h' : Frame s s') (hmoved' : s.pos < s'.pos) :
    ∃ q, s'.tree.range object = some q ∧ q.start = (s'.spanFrom b.currentSpan).start ∧
      q.stop < (s'.spanFrom b.currentSpan).stop := by
  have hs := h.ready hb
  obtain ⟨-, hstart, hstop⟩ := h.spanFrom hb hmoved
  obtain ⟨-, hstart', hstop'⟩ := (h.trans h').spanFrom hb (hmoved.trans hmoved')
  refine ⟨_, hspans.range_later hb h'.tree.toContinues, hstart.trans hstart'.symm, ?_⟩
  have hlong : s.here < s.currentSpan.stop := by
    obtain ⟨a, ha, hspan, hcurrent⟩ := hs.token
    have hplaced := hs.placed s.pos a ha
    rw [← hcurrent, hmark, ← hspan] at hplaced
    exact hplaced.start_lt_stop
  calc (s.spanFrom b.currentSpan).stop = s.passed := hstop
    _ ≤ s.here := hs.passed_le_here
    _ < s.currentSpan.stop := hlong
    _ ≤ s'.passed := h'.stop_le_passed hs hmoved'
    _ = (s'.spanFrom b.currentSpan).stop := hstop'.symm

/-- An operator at the cursor stands between the operand that ends before it and the one that begins
after it. -/
theorem between_of_spans {operator : InfixOperator} {left right : NodeId} (hb : b.Ready)
    (h : Frame b s) (hmoved : b.pos < s.pos) (hleft : Spans b s left)
    (hoperator : s.current = operator.token) (hangled : operator.isAngled = false)
    (h' : Frame s.advance s') (hmoved' : s.advance.pos < s'.pos) (hright : Spans s.advance s' right)
    (hopens : ¬ Closes s.advance.current) :
    s'.tree.Between b.source operator left right := by
  have hs := h.ready hb
  have hs' := (Frame.advance s).ready hs
  have heof : s.current.isEof = false := by rw [hoperator, isEof_token]
  have hpos := pos_advance hs heof
  obtain ⟨previous, c, hprevious, hc, hpassed⟩ := hs.previous (Nat.zero_lt_of_lt hmoved)
  obtain ⟨a, ha, -, hcurrent⟩ := hs.token
  obtain ⟨d, hd, hspan, hcurrent'⟩ := hs'.token
  rw [tokens_advance, hpos] at hd
  -- Neither the operator nor what stands after it is the last token.
  have hlast : ∀ i e, s.tokens[i]? = some e → e.1 ≠ .eof → i + 1 < s.tokens.size := by
    intro i e he hne
    refine lt_of_le_of_ne (Array.getElem?_eq_some_iff.mp he).1 fun hi => hne (hs.last i e he hi)
  have hlt := hlast _ _ ha (by rintro heq; rw [hcurrent, heq] at heof; cases heof)
  have hlt' := hlast _ _ hd (fun heq => hopens (.inl (hcurrent'.trans heq)))
  obtain ⟨before, hbefore, hskipped⟩ := hs.spaced previous c a hc (hprevious ▸ ha) (by omega)
    (by rw [← hcurrent, hoperator]; exact not_isRemainder_token hangled)
  obtain ⟨after, hafter, hskipped'⟩ := hs.spaced s.pos a d ha hd hlt'
    (fun hremainder => hopens (.inr (hcurrent' ▸ hremainder)))
  have hwritten := slice?_of_placed_token (hoperator ▸ hcurrent ▸ hs.placed s.pos a ha)
  have hkept := hleft.range_later hb ((Frame.advance s).trans h').tree.toContinues
  refine ⟨_, _, before, after, hkept, hright hs', ?_, hskipped, hskipped'⟩
  rw [(h.spanFrom hb hmoved).2.2, (h'.spanFrom hs' hmoved').2.1, hpassed, State.here, hspan,
    ← h.source]
  exact slice?_append (slice?_append hbefore hwritten) hafter

end Parse
end ScriptLint
