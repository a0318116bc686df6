import ScriptLint.Proofs.Parse.Expression
import ScriptLint.Proofs.Parse.Nesting.Function

namespace ScriptLint
namespace Parse

open ScriptLint.Parser

variable {g : Grammar} {b c s s' : State} {k : Nat} {m : Bool} {free bound : List NodeId}

attribute [local simp] Node.Encloses Node.cost Node.isBracket Node.children Node.bindings
  Node.Plain Node.infix? Node.applied? Node.isQuoted or_imp

theorem nests_expression (hg : g.Ample) : NestsNode (expression g) 0 := by
  refine .of_leads fun s h => ?_
  unfold expression
  refine .ask_bind ?_
  refine (h.run (nests_separatedBy _ hg.assignment)).bind fun expressions s' h => ?_
  split
  · exact .pure h
  · exact h.finish (by simp +contextual)

theorem nests_spreadOrAssignment (hg : g.Ample) : NestsNode (spreadOrAssignment g) 0 := by
  refine .of_leads fun s h => ?_
  unfold spreadOrAssignment
  refine .ask_bind (.ite (fun _ => .ask_bind ?_) fun _ => h.run hg.assignment)
  refine (h.pass grows_skip).bind fun _ s' h => ?_
  exact (h.run hg.assignment).bind fun argument s' h => h.finish (by simp +contextual)

theorem nests_arguments (hg : g.Ample) : Nests (arguments g) 0 id fun _ => [] := by
  have hinside : Nests (do
      let arguments ← commaSeparated .rightParen (spreadOrAssignment g)
      expect .rightParen
      return arguments) 0 id fun _ => [] := by
    refine .of_leads fun s h => ?_
    refine (h.run (nests_commaSeparated _ (nests_spreadOrAssignment hg))).bind fun _ s' h => ?_
    exact (h.pass (grows_expect _)).bind fun _ s' h => .pure (h.sub (by simp) (by simp))
  refine .of_leads fun s h => ?_
  unfold arguments
  refine (h.pass (grows_expect _)).bind fun _ s' h => ?_
  exact h.run (nests_withIn hinside true)

/-- The expression of a substitution, which is read from tokens of its own. -/
theorem leads_fitted_substitution (hg : g.Ample) {tokens : List SpannedToken}
    (h : Fitted b s 0 free bound)
    (hplaced : b.Ready → ∃ lo hi, TokensPlaced b.source lo hi tokens) :
    Leads b s (substitution g tokens) fun id s' => Fitted b s' 0 (free ++ [id]) (bound ++ []) := by
  refine leads_fitted_withTokens (.of_leads fun s h => ?_) h hplaced
  refine (h.run (nests_expression hg)).bind fun e s' h => .ask_bind ?_
  exact .ite (fun _ => .pure h) fun _ => .unexpected h.frame

theorem leads_fitted_templateParts (hg : g.Ample) (quasiCount : Nat) {parts : List TemplatePart}
    {quasis expressions : List NodeId} (h : Fitted b s 0 (quasis ++ expressions) [])
    (hplaced : b.Ready → ∀ tokens, .substitution tokens ∈ parts →
      ∃ lo hi, TokensPlaced b.source lo hi tokens) :
    Leads b s (templateParts g quasiCount parts quasis expressions) fun nodes s' =>
      Fitted b s' 0 (nodes.1 ++ nodes.2) [] := by
  induction parts generalizing s quasis expressions with
  | nil => exact .pure (h.sub (by simp) (by simp))
  | cons part parts ih =>
    have hrest := fun hb tokens htokens => hplaced hb tokens (List.mem_cons_of_mem _ htokens)
    cases part with
    | quasi raw span =>
      have hquasi := h.alloc (.templateElement raw (quasis.length + 1 == quasiCount)) span
        (fun _ => .plain (by simp)) le_rfl (by simp)
      exact .alloc_bind (ih hquasi hrest)
    | substitution tokens =>
      have hhere := fun hb => hplaced hb tokens List.mem_cons_self
      refine (leads_fitted_substitution hg h hhere).bind fun x s' h => ?_
      exact ih (h.sub (by simp) (by simp)) hrest

theorem nests_template (hg : g.Ample) : NestsNode (template g) 0 := by
  refine .of_leads fun s h => ?_
  unfold template
  refine .ask_bind (.advance_bind ?_)
  split
  · next parts hcurrent =>
    have hadvance : Fitted s s.advance 0 ([] ++ []) [] := .of_frame (.advance s)
    have hplaced : s.Ready → ∀ tokens, .substitution tokens ∈ parts →
        ∃ lo hi, TokensPlaced s.source lo hi tokens :=
      fun hs tokens htokens => (hs.partsPlaced hcurrent).tokens htokens
    refine (leads_fitted_templateParts hg _ hadvance hplaced).bind ?_
    rintro ⟨quasis, expressions⟩ s' h
    have hquotes : (Node.templateLiteral quasis expressions).Quotes s.current :=
      hcurrent ▸ .template quasis expressions parts
    have htoken : s.Steady → TokenAt s.source s.currentSpan (.template parts) := fun hs =>
      hcurrent ▸ hs.ready.tokenAt hquotes
    have htemplate := h.alloc (.templateLiteral quasis expressions) s.currentSpan
      (fun hs => ⟨by simp, by simp, by simp,
        fun _ => ⟨_, .template quasis expressions parts, htoken hs⟩⟩)
      le_rfl fun c hc => .inl (mem_interleave hc)
    exact htemplate.sub (by simp) (by simp)
  · exact .fail (Frame.advance s)

theorem nests_parenthesized (hg : g.Ample) : NestsNode (parenthesized g) 1 := by
  intro s
  have h := Fitted.refl (k := 0) s
  unfold parenthesized
  refine .ask_bind ?_
  refine (h.pass (grows_expect _)).bind fun _ s' h => ?_
  refine (h.run (nests_withIn (nests_expression hg) true)).bind fun e s' h => ?_
  exact (h.pass (grows_expect _)).bind fun _ s' h => h.finish (by simp +contextual)

theorem nests_arrayLiteral (hg : g.Ample) : NestsNode (arrayLiteral g) 1 := by
  intro s
  have h := Fitted.refl (k := 0) s
  unfold arrayLiteral
  refine .ask_bind ?_
  refine (h.pass (grows_expect _)).bind fun _ s' h => ?_
  have helements := nests_elementsWithHoles (nests_spreadOrAssignment hg)
  refine (h.run (nests_withIn helements true)).bind fun elements s' h => ?_
  exact (h.pass (grows_expect _)).bind fun _ s' h => h.finish (by simp +contextual)

theorem mem_children_shorthand {p : Property} (hshorthand : p.shorthand = true) {c : NodeId}
    (hc : c ∈ (Node.property p).children) : c = p.value := by
  simp only [Node.children, hshorthand, if_true] at hc
  split at hc <;> simp_all

theorem nests_objectMember (hg : g.Ample) : NestsNode (objectMember g) 1 := by
  refine .of_leads fun s h => ?_
  unfold objectMember
  refine .ask_bind (.ask_bind (.ite (fun _ => h.run_zero (nests_spreadOrAssignment hg))
    fun _ => ?_))
  refine (h.pass grows_memberHead).bind fun head s' h => ?_
  refine (h.run_zero (nests_propertyKey hg)).bind ?_
  rintro ⟨key, computed⟩ s' h
  refine .ask_bind (.ask_bind (.ite (fun _ => ?_) fun _ => ?_))
  · exact (h.run (nests_methodFunction hg _ _)).bind
      fun value s' h => h.finish (by simp +contextual)
  refine .ite (fun _ => .unexpected h.frame) fun _ => ?_
  refine (h.pass (grows_eatIf _)).bind fun colon s' h => .ite (fun _ => ?_) fun _ => ?_
  · exact (h.run_zero hg.assignment).bind fun value s' h => h.finish (by simp +contextual)
  refine .asks_bind (asks_isIdentifier key) fun named _ =>
    .ite (fun _ => .unexpected h.frame) fun _ => ?_
  have hshorthand : ∀ value s', Fitted s s' 1 [value] [] → Leads s s' (finish s.currentSpan
      (.property { key, value, kind := propertyKind head.accessor, computed := false,
                   shorthand := true, method := false })) fun id s' => Fitted s s' 1 [id] [] :=
    fun value s' h =>
      h.finish ⟨le_rfl, fun c hc => by simp [mem_children_shorthand rfl hc], by simp⟩
  refine (h.pass (grows_eatIf _)).bind fun equal s' h => .ite (fun _ => ?_) fun _ => ?_
  · refine (h.run_zero hg.assignment).bind fun right s' h => ?_
    exact (h.finish (by simp +contextual)).bind fun value s' h => hshorthand value s' h
  · exact hshorthand key s' h

theorem nests_objectLiteral (hg : g.Ample) : NestsNode (objectLiteral g) 2 := by
  intro s
  have h := Fitted.refl (k := 1) s
  unfold objectLiteral
  refine .ask_bind ?_
  refine (h.pass (grows_expect _)).bind fun _ s' h => ?_
  have hmembers := nests_commaSeparated .rightBrace (nests_objectMember hg)
  refine (h.run (nests_withIn hmembers true)).bind fun properties s' h => ?_
  exact (h.pass (grows_expect _)).bind fun _ s' h => h.finish (by simp +contextual)

/-- A node of the token that stands here. -/
theorem leads_fitted_word {node : Node} (hchildren : node.children = [])
    (hcost : node.cost false = 0)
    (hname : ∀ ident, node = .identifier ident → s.current.word? = some ident.name)
    (hquoted : node.isQuoted = false) :
    Leads s s (word node) fun id s' => Fitted s s' k [id] [] := by
  unfold word
  refine .ask_bind (.skip_bind (leads_fitted_leaf hchildren hcost hname fun hquotes => ?_))
  rw [hquoted] at hquotes
  cases hquotes

theorem nests_primary (hg : g.Ample) : NestsNode (primary g) 2 := by
  refine .of_leads fun s h => ?_
  unfold primary
  refine .ask_bind (.ask_bind ?_)
  split
  · exact .ask_bind (.ite (fun _ => h.run ((nests_functionExpression hg).weaken (by omega)))
      fun _ => h.run_zero nests_identifier)
  · exact leads_fitted_word rfl rfl (by simp) rfl
  · exact leads_fitted_word rfl rfl (by simp) rfl
  · exact h.literal (by simp)
  · exact h.literal (by simp)
  · exact h.literal (by simp)
  · exact h.run ((nests_functionExpression hg).weaken (by omega))
  · exact h.run (nests_classLike hg true)
  · next hcurrent =>
    refine leads_fitted_word rfl rfl ?_ rfl
    rintro _ ⟨⟩
    rw [hcurrent]
    rfl
  · exact h.literal (by simp)
  · next value hcurrent => exact h.literal (by simp [hcurrent])
  · exact h.run_zero (nests_template hg)
  · exact h.run ((nests_parenthesized hg).weaken (by omega))
  · exact h.run ((nests_arrayLiteral hg).weaken (by omega))
  · exact h.run (nests_objectLiteral hg)
  · exact .fail h.frame
  · exact .fail h.frame
  · exact .fail h.frame
  · exact .unexpected h.frame

theorem nests_index (hg : g.Ample) : NestsNode (index g) 0 := by
  refine .of_leads fun s h => ?_
  unfold index
  refine (h.pass grows_skip).bind fun _ s' h => ?_
  refine (h.run (nests_withIn (nests_expression hg) true)).bind fun property s' h => ?_
  exact (h.pass (grows_expect _)).bind fun _ s' h => .pure h

/-- Runs a part of what stands after an expression, and tells how far the parser came. -/
theorem Fitted.read {α : Type} {p : Parser α} {out out' out'' : α → List NodeId} {m m' : Bool}
    {ids : List NodeId} (h : Fitted b s' k free bound) (hs : Frame b s) (hread : Grown s s' m ids)
    (hp : Nests p 0 out out') (hgrows : Grows p m' out'') :
    Leads b s' p fun a s'' => Fitted b s'' k (free ++ out a) (bound ++ out' a) ∧
      Grown s s'' (m || m') (ids ++ out'' a) :=
  (h.run_zero hp).and ((hread.run hgrows).rebase hs)

/-- The node of an access or a call after an expression that began at `c`, once all of it has been
read. -/
theorem leads_finish_suffix {object : NodeId} {mark : Punct} {node : Node} {m m' : Bool}
    {ids : List NodeId} (hc : Frame b c) (hgrown : Grown c s m [object]) (hspans : Spans c s object)
    (hmark : s.current = .punct mark) (h : Fitted b s' k free []) (hread : Grown s s' m' ids)
    (hmoved : m' = true ∨ ids ≠ []) (happlied : node.applied? = some object)
    (hchildren : ∀ i ∈ node.children, i ∈ free) (optional : Bool) :
    Leads b s' (do
      let e ← finish c.currentSpan node
      return some (e, optional)) fun found s' =>
        Fitted b s' k [(found.map Prod.fst).getD object] [] := by
  refine (h.finish_applied happlied hchildren fun hb => ?_).bind fun e s' h => .pure h
  have hready := hc.ready hb.ready
  exact prolongs_of_spans hready hgrown.frame (hgrown.moved hready (.inr (by simp))) hspans hmark
    hread.frame (hread.moved (hgrown.frame.ready hready) hmoved)

/-- One access, call or template after an expression that began at `c`. -/
theorem leads_fitted_suffix? (hg : g.Ample) (calls : Bool) {object : NodeId} (hc : Frame b c)
    (h : Fitted b s k [object] []) (hgrown : Grown c s m [object]) (hspans : Spans c s object) :
    Leads b s (suffix? g calls c.currentSpan object) fun found s' =>
      Fitted b s' k [(found.map Prod.fst).getD object] [] := by
  have hstart := Growth.refl s
  have hskip : Nests skip 0 (fun _ => []) fun _ => [] := fun s => .of_frame (.advance s)
  unfold suffix?
  refine .ask_bind ?_
  split
  · next hmark =>
    refine (h.read h.frame hstart hskip grows_skip).bind fun _ s' h' => ?_
    refine (h'.1.read h.frame h'.2 nests_propertyIdentifier grows_propertyIdentifier).bind
      fun property s' h' => ?_
    exact leads_finish_suffix hc hgrown hspans hmark h'.1 h'.2 (.inr (by simp)) rfl (by simp) _
  · next hmark =>
    refine .ite (fun _ => ?_) fun _ => .pure h
    refine (h.read h.frame hstart hskip grows_skip).bind fun _ s' h' => .ask_bind ?_
    split
    · refine (h'.1.read h.frame h'.2 (nests_arguments hg) (grows_arguments hg.sound)).bind
        fun arguments s' h' => ?_
      exact leads_finish_suffix hc hgrown hspans hmark h'.1 h'.2 (.inl (by simp)) rfl (by simp) _
    · refine (h'.1.read h.frame h'.2 (nests_index hg) (grows_index hg.sound)).bind
        fun property s' h' => ?_
      exact leads_finish_suffix hc hgrown hspans hmark h'.1 h'.2 (.inr (by simp)) rfl (by simp) _
    · refine (h'.1.read h.frame h'.2 nests_propertyIdentifier grows_propertyIdentifier).bind
        fun property s' h' => ?_
      exact leads_finish_suffix hc hgrown hspans hmark h'.1 h'.2 (.inr (by simp)) rfl (by simp) _
  · next hmark =>
    refine (h.read h.frame hstart (nests_index hg) (grows_index hg.sound)).bind
      fun property s' h' => ?_
    exact leads_finish_suffix hc hgrown hspans hmark h'.1 h'.2 (.inr (by simp)) rfl (by simp) _
  · next hmark =>
    refine .ite (fun _ => ?_) fun _ => .pure h
    refine (h.read h.frame hstart (nests_arguments hg) (grows_arguments hg.sound)).bind
      fun arguments s' h' => ?_
    exact leads_finish_suffix hc hgrown hspans hmark h'.1 h'.2 (.inl (by simp)) rfl (by simp) _
  · refine (h.run_zero (nests_template hg)).bind fun quasi s' h => ?_
    exact (h.finish (by simp +contextual)).bind fun e s' h => .pure h
  · refine .ask_bind (.ite (fun _ => .pure h) fun _ => ?_)
    refine (h.pass grows_skip).bind fun _ s' h => ?_
    exact (h.finish (by simp +contextual)).bind fun e s' h => .pure h
  · exact .pure h

theorem leads_fitted_suffixes (hg : g.Ample) (calls : Bool) {object : NodeId} (hc : Frame b c)
    (h : Fitted b s k [object] []) (hgrown : Grown c s m [object]) (hspans : Spans c s object) :
    Leads b s (suffixes g calls c.currentSpan object) fun id s' => Fitted b s' k [id] [] := by
  unfold suffixes
  refine .loop_bind (fun value s' => Fitted b s' k [value.1] [] ∧ Grown c s' false [value.1] ∧
    Spans c s' value.1) ⟨h, hgrown.done rfl, hspans⟩ (fun _ _ h => h.1.frame) ?_ ?_
  · rintro ⟨object, inChain⟩ s' ⟨h, hgrown, hspans⟩
    refine ((leads_fitted_suffix? hg calls hc h hgrown hspans).and
      (((leads_suffix? hg.sound calls hgrown).and
        (leads_spans_suffix? hg.sound calls hgrown.frame hspans)).rebase hc)).bind fun found s' h => ?_
    split <;> exact .pure h
  · rintro ⟨e, inChain⟩ s' ⟨h, -, -⟩
    exact .ite (fun _ => h.finish (by simp)) fun _ => .pure h

theorem nests_newExpression (hg : g.Ample) : NestsNode (newExpression g) 2 := by
  refine .of_leads fun s h => ?_
  unfold newExpression
  refine .ask_bind ?_
  refine (h.pass (grows_expectKeyword _)).bind fun _ s' h => .ask_bind ?_
  refine .when_bind (P := fun s' => Fitted s s' 2 [] []) (fun _ => .fail h.frame) (fun _ => h)
    fun s₁ h => .ask_bind (.ask_bind ?_)
  have hcallee := fun {p : Parser NodeId} (hp : NestsNode p 2) (hgrows : GrowsNode p)
    (hcovers : Covering p) => (h.run hp).and (((hgrows s₁).and (hcovers s₁)).rebase h.frame)
  refine .either_bind (P := fun callee s' => Fitted s s' 2 [callee] [] ∧
      Grown s₁ s' false [callee] ∧ Spans s₁ s' callee)
    (fun _ => hcallee hg.new hg.sound.new hg.construction)
    (fun _ => hcallee (nests_primary hg) (grows_primary hg.sound) (covering_primary hg.sound))
    fun callee s' hread => ?_
  refine (leads_fitted_suffixes hg false h.frame hread.1 hread.2.1 hread.2.2).bind
    fun callee s' h => .ask_bind ?_
  refine .either_bind (fun _ => h.run_zero (nests_arguments hg)) (fun _ => .pure ?_)
    fun arguments s' h => h.finish (by simp +contextual)
  simpa using h

theorem nests_leftHandSide (hg : g.Ample) : NestsNode (leftHandSide g) 2 := by
  refine .of_leads fun s h => ?_
  have hfirst := fun {p : Parser NodeId} (hp : NestsNode p 2) (hgrows : GrowsNode p)
    (hcovers : Covering p) => (h.run hp).and ((hgrows s).and (hcovers s))
  unfold leftHandSide
  refine .ask_bind (.ask_bind (.either_bind (P := fun first s' => Fitted s s' 2 [first] [] ∧
      Grown s s' false [first] ∧ Spans s s' first)
    (fun _ => hfirst (nests_newExpression hg) (grows_newExpression hg.sound)
      (covering_newExpression hg.sound))
    (fun _ => hfirst (nests_primary hg) (grows_primary hg.sound) (covering_primary hg.sound))
    fun first s' hread => ?_))
  exact leads_fitted_suffixes hg true (.refl s) hread.1 hread.2.1 hread.2.2

theorem nests_postfixExpression (hg : g.Ample) : NestsNode (postfixExpression g) 2 := by
  refine .of_leads fun s h => ?_
  unfold postfixExpression
  refine .ask_bind ?_
  refine (h.run (nests_leftHandSide hg)).bind fun argument s' h => .ask_bind ?_
  split
  · refine .ask_bind (.ite (fun _ => .pure h) fun _ => ?_)
    exact (h.pass grows_skip).bind fun _ s' h => h.finish (by simp +contextual)
  · exact .pure h

theorem nests_unaryOperand (hg : g.Ample) : NestsNode (unaryOperand g) 2 := by
  refine .of_leads fun s h => ?_
  unfold unaryOperand
  refine .ask_bind (.ask_bind ?_)
  split
  · refine (h.pass grows_skip).bind fun _ s' h => ?_
    exact (h.run (hg.unary.weaken (by omega))).bind
      fun argument s' h => h.finish (by simp +contextual)
  · refine (h.pass grows_skip).bind fun _ s' h => ?_
    exact (h.run (hg.unary.weaken (by omega))).bind
      fun argument s' h => h.finish (by simp +contextual)
  · refine (h.pass (grows_eatIf _)).bind fun awaits s' h => .ite (fun _ => ?_) fun _ => ?_
    · exact (h.run (hg.unary.weaken (by omega))).bind
        fun argument s' h => h.finish (by simp +contextual)
    · exact .ite (fun _ => .fail h.frame) fun _ => h.run (nests_postfixExpression hg)

theorem nests_unary (hg : g.Ample) : NestsNode (unary g) 1 := nests_nested (nests_unaryOperand hg)

/-- One operator after an operand that began at `b`, with what stands after it. -/
theorem leads_fitted_infixTail? (hg : g.Ample) (least : Precedence) {left : NodeId}
    (h : Fitted b s 1 [left] []) (hmoved : b.Ready → b.pos < s.pos) (hspans : Spans b s left) :
    Leads b s (infixTail? g least b.currentSpan left) fun found s' =>
      Fitted b s' 1 [found.getD left] [] := by
  unfold infixTail?
  refine .ask_bind (.ask_bind (.ite (fun _ => ?_) fun _ => .ask_bind (.ask_bind ?_)))
  · refine (h.pass grows_skip).bind fun _ s' h => ?_
    refine (h.run_zero hg.type).bind fun type s' h => ?_
    exact (h.finish (by simp +contextual)).bind fun e s' h => .pure h
  · split
    · next operator hoperator =>
      refine .ite (fun _ => .pure h) fun _ => .skip_bind ?_
      have hskipped := h.later (Frame.advance s)
      have hright := ((hg.sound.binary operator.operandLevel s.advance).and
        (hg.operand operator.operandLevel s.advance)).rebase hskipped.frame
      refine ((hskipped.run (hg.binary _)).and hright).bind fun right s' hread => ?_
      obtain ⟨hfitted, hgrown, hspans', hopens⟩ := hread
      refine Leads.bind (hfitted.finish_infix (by simp) (by simp) fun hb hangled => ?_)
        fun e s' h => .pure h
      exact between_of_spans hb.ready h.frame (hmoved hb.ready) hspans
        (InfixOperator.eq_token_of_ofToken? hoperator) hangled hgrown.frame
        (hgrown.moved (hskipped.frame.ready hb.ready) (.inr (by simp))) hspans' hopens
    · exact .pure h

theorem nests_binary (hg : g.Ample) (least : Precedence) : NestsNode (binary g least) 1 := by
  refine .of_leads fun s h => ?_
  unfold binary
  refine .ask_bind ?_
  have hfirst := (grows_unary hg.sound s).and (covering_unary hg.sound s)
  refine ((h.run (nests_unary hg)).and hfirst).bind fun first s' h => ?_
  refine .loop (fun left s' => Fitted s s' 1 [left] [] ∧ Grown s s' false [left] ∧ Spans s s' left) h
    (fun _ _ h => h.1.frame) fun left s' h => ?_
  obtain ⟨hfitted, hgrown, hspans⟩ := h
  have hmoved := fun hs => hgrown.moved hs (.inr (by simp))
  refine ((leads_fitted_infixTail? hg least hfitted hmoved hspans).and
    ((leads_infixTail? hg.sound least hgrown).and
      (leads_spans_infixTail? hg.sound least hgrown.frame hspans))).bind fun found s' h => ?_
  split
  · exact .pure h
  · exact .pure h.1

theorem nests_conditional (hg : g.Ample) : NestsNode (conditional g) 1 := by
  refine .of_leads fun s h => ?_
  unfold conditional
  refine .ask_bind ?_
  refine (h.run (nests_binary hg _)).bind fun test s' h => ?_
  refine (h.pass (grows_eatIf _)).bind fun eaten s' h => .ite (fun _ => ?_) fun _ => .pure h
  refine (h.run_zero (nests_withIn hg.assignment true)).bind fun consequent s' h => ?_
  refine (h.pass (grows_expect _)).bind fun _ s' h => ?_
  exact (h.run_zero hg.assignment).bind fun alternate s' h => h.finish (by simp +contextual)

theorem nests_yieldExpression (hg : g.Ample) : NestsNode (yieldExpression g) 0 := by
  refine .of_leads fun s h => ?_
  unfold yieldExpression
  refine .ask_bind ((h.pass grows_skip).bind fun _ s' h => ?_)
  refine (h.pass (grows_eatIf _)).bind fun delegate s' h => .ask_bind (.ask_bind ?_)
  exact .either_bind (P := fun (argument : Option NodeId) s' => Fitted s s' 0 argument.toList [])
    (fun _ => .pure h) (fun _ => .map (h.run hg.assignment))
      fun argument s' h => h.finish (by simp +contextual)

theorem nests_arrowFunction (hg : g.Ample) : NestsNode (arrowFunction g) 1 := by
  refine .of_leads fun s h => ?_
  unfold arrowFunction
  refine .ask_bind (.ask_bind (.ask_bind ?_))
  refine .when_bind (P := fun s' => Fitted s s' 1 [] []) (fun _ => h.pass grows_skip) (fun _ => h)
    fun s' h => ?_
  refine (h.pass grows_skipTypeParameters).bind fun _ s' h => .ask_bind ?_
  refine .either_bind (P := fun params s' => Fitted s s' 1 [] params) (fun _ => ?_) (fun _ => ?_)
    fun params s' h => ?_
  · exact .map ((h.run_zero nests_identifier).mono
      fun id s' h => h.weaken le_rfl (by simp) (by simp))
  · exact h.run_zero (nests_formalParameters hg)
  refine (h.run_zero (nests_typeAscription? hg)).bind fun returnType s' h => ?_
  refine (h.pass (grows_expect _)).bind fun _ s' h => .ask_bind (.ite (fun _ => ?_) fun _ => ?_)
  · exact (h.run (nests_block hg)).bind fun body s' h => h.finish (by simp +contextual)
  · exact (h.run_zero hg.assignment).bind fun body s' h => h.finish (by simp +contextual)

theorem nests_plainAssignment (hg : g.Ample) : NestsNode (plainAssignment g) 1 := by
  refine .of_leads fun s h => ?_
  unfold plainAssignment
  refine .ask_bind (.ite (fun _ => h.run_zero (nests_yieldExpression hg)) fun _ => .ask_bind ?_)
  refine (h.run (nests_conditional hg)).bind fun left s' h => .ask_bind ?_
  split
  · exact .pure h
  · refine (h.pass grows_skip).bind fun _ s' h => ?_
    refine .when_bind (P := fun s' => Fitted s s' 1 [left] []) (fun _ => h.toPattern) (fun _ => h)
      fun s' h => ?_
    exact (h.run_zero hg.assignment).bind fun right s' h => h.finish (by simp +contextual)

theorem nests_assignment (hg : g.Ample) : NestsNode (assignment g) 0 := by
  refine nests_nested (.of_leads fun s h => .ask_bind ?_)
  split
  · exact h.run (nests_arrowFunction hg)
  · refine (h.run (nests_attempt (nests_arrowFunction hg))).bind fun found s' h => ?_
    split
    · exact .pure h
    · exact h.run (nests_plainAssignment hg)
  · exact h.run (nests_plainAssignment hg)

end Parse
end ScriptLint
