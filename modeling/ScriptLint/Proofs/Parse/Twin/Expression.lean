import ScriptLint.Proofs.Parse.Expression
import ScriptLint.Proofs.Parse.Infix
import ScriptLint.Proofs.Parse.Twin.Template

namespace ScriptLint
namespace Parse

open ScriptLint.Parser

variable {w : Passage} {m : Mark} {k : Nat} {g : Side → Grammar}

theorem agrees_spreadOrAssignment (hg : Grammars k g) (hm : m.Within k)
    (hclear : m.Clears w .nullCoalescing) :
    Agrees w m (fun _ => m.step) fun i => spreadOrAssignment (g i) := by
  unfold spreadOrAssignment
  refine .check_ite (fun _ hs hm => (takes_mark w m rfl rfl).alike hs hm) ?_ (hg.assignment hm hclear)
  refine .span fun start => (Agrees.skip_of (takes_mark w m rfl rfl)).seq fun _ => ?_
  refine (hg.assignment hm.step hclear).relax.bind fun argument => ?_
  exact .finish (.spreadElement argument) fun _ => rfl

theorem agrees_arguments (hg : Grammars k g) (hm : m.Within k) :
    Agrees w m (fun _ => m.step) fun i => arguments (g i) := by
  unfold arguments
  refine (Agrees.expect_open .leftParen rfl rfl).seq fun _ => ?_
  refine Agrees.withIn (m := m.opened) (N := fun _ => m.step) true ?_
  have harguments := Agrees.commaSeparated (m.inside_opened w) .rightParen fun j =>
    agrees_spreadOrAssignment hg (m := m.opened.turn j) hm.opened (m.clears_opened w _)
  refine harguments.bind fun arguments => ?_
  exact (Agrees.expect_close _ rfl).seq fun _ => .pure arguments (fun _ => rfl) (.refl _)

theorem agrees_parenthesized (hg : Grammars k g) (hm : m.Within k) :
    Agrees w m (fun _ => m.step) fun i => parenthesized (g i) := by
  unfold parenthesized
  refine .span fun start => (Agrees.expect_open .leftParen rfl rfl).seq fun _ => ?_
  refine (Agrees.withIn (m := m.opened) true (agrees_expression hg hm.opened (m.clears_opened w _))).relax.bind fun e => ?_
  refine (Agrees.expect_close _ rfl).seq fun _ => ?_
  exact .finish (.parenthesizedExpression e) fun _ => rfl

theorem agrees_arrayLiteral (hg : Grammars k g) (hm : m.Within k) :
    Agrees w m (fun _ => m.step) fun i => arrayLiteral (g i) := by
  unfold arrayLiteral
  refine .span fun start => (Agrees.expect_open .leftBracket rfl rfl).seq fun _ => ?_
  have helements := agrees_elementsWithHoles (m.inside_opened w) fun j =>
    agrees_spreadOrAssignment hg (m := m.opened.turn j) hm.opened (m.clears_opened w _)
  refine (Agrees.withIn (m := m.opened) true helements).bind fun elements => ?_
  refine (Agrees.expect_close _ rfl).seq fun _ => ?_
  exact .finish (.arrayExpression elements) fun _ => rfl

theorem agrees_objectMember (hg : Grammars k g) (hm : m.Within k) (hin : m.Inside w) :
    Agrees w m (fun _ => m.step) fun i => objectMember (g i) := by
  unfold objectMember
  refine .span fun start => ?_
  refine .check_ite (fun _ hs hm => (takes_mark w m rfl rfl).alike hs hm) ?_ ?_
  · exact (agrees_spreadOrAssignment hg hm (hin.clears _)).strengthen (Mark.knowing_implies _)
  refine (agrees_memberHead hin).seq fun head => ?_
  refine (agrees_propertyKey hg (m := m.forget) hm).bind_pair fun key computed => ?_
  refine (Agrees.check (m := m.step) (takes_open w _ rfl rfl)).seq fun paren => ?_
  refine (Agrees.check (takes_mark w _ rfl rfl)).seq fun angle => ?_
  refine Agrees.strengthen (n := m.step) ?_ (Mark.implies_forget _)
  refine .ite (fun _ => ?_) fun _ => .ite (fun _ => .unexpected _) fun _ => ?_
  · refine (agrees_methodFunction hg hm.step _ _).relax.bind fun value => ?_
    exact .finish (.property
      { key, value, kind := propertyKind head.accessor, computed, shorthand := false,
        method := propertyKind head.accessor == .init }) fun _ => rfl
  refine .eatIf_ite (takes_mark w m.step rfl rfl) ?_ ?_
  · refine (hg.assignment hm.step.step (hin.clears _)).relax.bind fun value => ?_
    refine (Agrees.finish (.property
      { key, value, kind := propertyKind head.accessor, computed, shorthand := false,
        method := false }) fun _ => rfl).weaken fun _ => Mark.step_implies _
  refine (agrees_isIdentifier key).seq fun named => .ite (fun _ => .unexpected _) fun _ => ?_
  have hrest : ∀ value : NodeId, Agrees w m.step (fun _ => m.step) fun i =>
      finish (start i) (.property
        { key := w.id i key, value := w.id i value, kind := propertyKind head.accessor,
          computed := false, shorthand := true, method := false }) :=
    fun value => .finish (.property
      { key, value, kind := propertyKind head.accessor, computed := false, shorthand := true,
        method := false }) fun _ => rfl
  refine .eatIf_ite (takes_mark w m.step rfl rfl) ?_ (hrest key)
  refine (hg.assignment hm.step.step (hin.clears _)).relax.bind fun right => ?_
  have hvalue : Agrees w m.step.step (fun _ => m.step) fun i =>
      finish (start i) (.assignmentPattern (w.id i key) (w.id i right)) :=
    (Agrees.finish (.assignmentPattern key right) fun _ => rfl).weaken fun _ => Mark.step_implies _
  exact hvalue.bind hrest

theorem agrees_objectLiteral (hg : Grammars k g) (hm : m.Within k) :
    Agrees w m (fun _ => m.step) fun i => objectLiteral (g i) := by
  unfold objectLiteral
  refine .span fun start => (Agrees.expect_open .leftBrace rfl rfl).seq fun _ => ?_
  have hproperties := Agrees.commaSeparated (m.inside_opened w) .rightBrace fun j =>
    agrees_objectMember hg (m := m.opened.turn j) hm.opened (m.inside_opened w)
  refine (Agrees.withIn (m := m.opened) true hproperties).bind fun properties => ?_
  refine (Agrees.expect_close _ rfl).seq fun _ => ?_
  exact .finish (.objectExpression properties) fun _ => rfl

theorem agrees_word (node : Node) (hnode : ∀ f, node = node.renumber f) {t : Token}
    (heof : t.isEof = false) (hstep : bracketStep t = 0) :
    Agrees w (m.knowing fun s => s.current = t) (fun _ => m.step) fun _ => word node := by
  unfold word
  refine .span fun span => (Agrees.skip_at heof hstep).seq fun _ => ?_
  exact .alloc node fun i => hnode (w.id i)

theorem agrees_atAsyncFunction : Agrees w m (fun _ => m) fun _ => atAsyncFunction := by
  refine (Agrees.answer fun s hs hm => ?_).weaken fun _ => Mark.knowing_implies _
  have hname := (takes_name w m "async").alike hs hm
  cases hasync : (s .left).current.isName "async" with
  | false => simp only [hname.trans hasync, Bool.false_and]
  | true =>
    have hlt := hs.lt_count (by rw [eq_of_isName hasync]; rfl)
    have hfunction := hs.apply_peek (fun _ => hlt) (·.isKeyword .functionWord) (fun _ _ => rfl)
      (by rintro _ ⟨⟩ <;> rfl)
    simp only [hname.trans hasync, hfunction, hs.newlineAfter hlt]

theorem agrees_primary (hg : Grammars k g) (hm : m.Within k) :
    Agrees w m (fun _ => m.step) fun i => primary (g i) := by
  unfold primary
  refine .span fun span => .current_or (.unexpected _) (by rintro _ _ ⟨⟩ <;> rfl) (fun _ _ => ?_)
    fun t => ?_
  · exact agrees_template hg hm fun s hs => ⟨_, hs.2⟩
  cases t with
  | identifier name =>
    refine agrees_atAsyncFunction.seq fun async => .ite (fun _ => ?_) fun _ => ?_
    · exact (agrees_functionExpression hg hm).strengthen (Mark.knowing_implies _)
    · exact agrees_identifier
  | keyword word =>
    cases word with
    | thisWord => exact agrees_word _ (fun _ => rfl) rfl rfl
    | superWord => exact agrees_word _ (fun _ => rfl) rfl rfl
    | trueWord => exact .literal _ rfl rfl
    | falseWord => exact .literal _ rfl rfl
    | nullWord => exact .literal _ rfl rfl
    | functionWord => exact (agrees_functionExpression hg hm).strengthen (Mark.knowing_implies _)
    | classWord => exact (agrees_classLike hg hm true).strengthen (Mark.knowing_implies _)
    | importWord => exact agrees_word _ (fun _ => rfl) rfl rfl
    | _ => exact .unexpected _
  | number value => exact .literal _ rfl rfl
  | string value => exact .literal _ rfl rfl
  | template parts => exact agrees_template hg hm fun s hs => ⟨parts, hs.2⟩
  | punct mark =>
    cases mark with
    | leftParen => exact (agrees_parenthesized hg hm).strengthen (Mark.knowing_implies _)
    | leftBracket => exact (agrees_arrayLiteral hg hm).strengthen (Mark.knowing_implies _)
    | leftBrace => exact (agrees_objectLiteral hg hm).strengthen (Mark.knowing_implies _)
    | slash => exact .fail _ _ fun _ => ⟨rfl, rfl⟩
    | slashEqual => exact .fail _ _ fun _ => ⟨rfl, rfl⟩
    | less => exact .fail _ _ fun _ => ⟨rfl, rfl⟩
    | _ => exact .unexpected _
  | _ => exact .unexpected _

/-- An expression in brackets, the first of which is there. -/
theorem agrees_index (hg : Grammars k g) (hm : m.Within k) :
    Agrees w (m.knowing fun s => s.current = .punct .leftBracket) (fun _ => m.step)
      fun i => index (g i) := by
  unfold index
  refine (Agrees.skip_open_at rfl rfl).seq fun _ => ?_
  refine (Agrees.withIn (m := m.opened) true (agrees_expression hg hm.opened (m.clears_opened w _))).relax.bind
    fun property => ?_
  exact (Agrees.expect_close _ rfl).seq fun _ => .pure property (fun _ => rfl) (.refl _)

/-- Where an access may stand after the passage that is taken, the cursor is not there. -/
theorem agrees_suffix? (hg : Grammars k g) (hm : m.Within k) (hmoved : m.moved = true) (calls : Bool)
    (hclear : calls = true → m.Clears w .exponentiation ∨ ∀ s, m.known s → s.current ≠ .eof)
    (start : Side → Span) (object : NodeId) :
    Agrees w m (fun found => m.stepIf found.isSome) fun i =>
      suffix? (g i) calls (start i) (w.id i object) := by
  unfold suffix?
  have hnone : ∀ n : Mark, n.Implies w m.forget → Agrees w n (fun found => m.stepIf found.isSome)
      fun _ => (pure none : Parser (Option (NodeId × Bool))) :=
    fun n hn => .pure none (fun _ => rfl) hn
  -- what was found is one node longer
  have hsome : ∀ (node : Node) (optional : Bool) {v : Side → Node}, (∀ i, v i = node.renumber (w.id i)) →
      Agrees w m.step (fun found => m.stepIf found.isSome) fun i => (do
        let e ← finish (start i) (v i)
        return some (e, optional)) := by
    intro node optional v hv
    exact (Agrees.finish node hv).bind fun e => .pure (some (e, optional)) (fun _ => rfl) (.refl _)
  have htemplate : ∀ parts, Agrees w (m.knowing fun s => s.current = .template parts)
      (fun found => m.stepIf found.isSome) fun i => (do
        let quasi ← template (g i)
        return some (← finish (start i) (.taggedTemplateExpression (w.id i object) quasi), false)) := by
    intro parts
    refine (agrees_template hg (m := m.knowing _) hm fun s hs => ⟨parts, hs.2⟩).bind fun quasi => ?_
    exact hsome (.taggedTemplateExpression object quasi) false fun _ => rfl
  have hend : ∀ t, (m.knowing fun s => s.current = t).Implies w m.forget :=
    fun _ => Mark.implies_forget _
  refine .current (fun t => ?_) (fun _ _ => htemplate _) fun t hends _ _ haccess => ?_
  rotate_left
  · cases calls with
    | false =>
      refine (hnone _ (hend .eof)).congr fun i => ?_
      generalize t i = t, hends i = hends
      cases hends <;> rfl
    | true =>
      rcases hclear rfl with hclear | hinside
      · refine (hnone _ (hend .eof)).congr fun i => ?_
        have hne := haccess hclear i
        generalize t i = t, hends i = hends at hne
        cases hends <;> first | rfl | exact absurd rfl hne
      · exact fun s _ hmark => absurd hmark.known.2 (hinside _ hmark.known.1)
  cases t with
  | punct mark =>
    cases mark with
    | dot =>
      refine (Agrees.skip_at rfl rfl).seq fun _ => ?_
      refine agrees_propertyIdentifier.relax.bind fun property => ?_
      exact hsome (.memberExpression { object, property, computed := false, optional := false }) false
        fun _ => rfl
    | questionDot =>
      refine .ite (fun _ => ?_) fun _ => hnone _ (hend _)
      refine (Agrees.skip_at rfl rfl).seq fun _ => ?_
      have hnamed : Agrees w m.step (fun found => m.stepIf found.isSome) fun i => (do
          let property ← propertyIdentifier
          let e ← finish (start i) (.memberExpression
            { object := w.id i object, property, computed := false, optional := true })
          return some (e, true)) :=
        agrees_propertyIdentifier.relax.bind fun property =>
          hsome (.memberExpression { object, property, computed := false, optional := true }) true
            fun _ => rfl
      refine .token hnamed (fun _ _ => rfl) (by rintro _ _ ⟨⟩ <;> rfl) fun t => ?_
      cases t with
      | punct mark =>
        cases mark with
        | leftParen =>
          refine Agrees.strengthen ?_ (Mark.knowing_implies _)
          refine (agrees_arguments hg hm.step).relax.bind fun arguments => ?_
          exact hsome (.callExpression object arguments true) true fun _ => rfl
        | leftBracket =>
          refine (agrees_index hg hm.step).relax.bind fun property => ?_
          exact hsome (.memberExpression { object, property, computed := true, optional := true }) true
            fun _ => rfl
        | _ => exact hnamed.strengthen (Mark.knowing_implies _)
      | _ => exact hnamed.strengthen (Mark.knowing_implies _)
    | leftBracket =>
      refine (agrees_index hg hm).bind fun property => ?_
      exact hsome (.memberExpression { object, property, computed := true, optional := false }) false
        fun _ => rfl
    | leftParen =>
      refine .ite (fun _ => ?_) fun _ => hnone _ (hend _)
      refine ((agrees_arguments hg hm).strengthen (Mark.knowing_implies _)).bind fun arguments => ?_
      exact hsome (.callExpression object arguments false) false fun _ => rfl
    | bang =>
      refine (Agrees.newlineBefore (m := m.knowing _) hmoved).seq fun newline =>
        .ite (fun _ => hnone _ ?_) fun _ => ?_
      · exact Mark.implies_forget _
      · refine Agrees.seq ((Agrees.skip_at rfl rfl).strengthen (Mark.knowing_implies _)) fun _ => ?_
        exact hsome (.nonNullExpression object) false fun _ => rfl
    | _ => exact hnone _ (hend _)
  | template parts => exact htemplate parts
  | _ => exact hnone _ (hend _)

theorem agrees_suffixes (hg : Grammars k g) (hm : m.Within k) (hmoved : m.moved = true) (calls : Bool)
    (hclear : calls = true → m.Clears w .exponentiation) (start : Side → Span) (object : NodeId) :
    Agrees w m (fun _ => m.forget) fun i => suffixes (g i) calls (start i) (w.id i object) := by
  unfold suffixes
  refine Agrees.bind (Agrees.loop (object, false) (fun _ => rfl) fun j chain => ?_) fun chain => ?_
  · refine (agrees_suffix? hg (m := m.turn j) hm hmoved calls (fun hcalls => .inl (hclear hcalls)) start
      chain.1).bind fun found => ?_
    cases found with
    | none => exact .pure (.stop chain) (fun _ => rfl) (.refl _)
    | some found => exact .pure (.next (found.1, chain.2 || found.2)) (fun _ => rfl) (.refl _)
  · refine .ite (c := chain.2 = true) (fun _ => ?_) fun _ => .pure chain.1 (fun _ => rfl) (.refl _)
    exact .finish (.chainExpression chain.1) fun _ => rfl

theorem agrees_newExpression (hg : Grammars k g) (hm : m.Within k) :
    Agrees w m (fun _ => m.step) fun i => newExpression (g i) := by
  unfold newExpression
  refine .span fun start => (Agrees.expectKeyword .newWord).seq fun _ => ?_
  refine .check_ite (fun _ hs hm => (takes_mark w m.step rfl rfl).alike hs hm)
    (.fail _ _ fun _ => ⟨rfl, rfl⟩) ?_
  refine .span fun calleeStart => ?_
  have hrest : ∀ callee : NodeId, Agrees w m.step (fun _ => m.step) fun i => (do
      let callee ← suffixes (g i) false (calleeStart i) (w.id i callee)
      let arguments ← if ← check .leftParen then arguments (g i) else pure []
      finish (start i) (.newExpression callee arguments)) := by
    intro callee
    refine (agrees_suffixes hg hm.step rfl false (nomatch ·) calleeStart callee).bind fun callee => ?_
    have hfinish : ∀ arguments : List NodeId, Agrees w m.step (fun _ => m.step) fun i =>
        finish (start i) (.newExpression (w.id i callee) (renumber (w.id i) arguments)) :=
      fun arguments => .finish (.newExpression callee arguments) fun _ => rfl
    refine .check_ite (fun _ hs hm => (takes_open w m.step rfl rfl).alike hs hm) ?_ (hfinish [])
    exact ((agrees_arguments hg hm.step).relax.strengthen (Mark.knowing_implies _)).bind hfinish
  refine .check_ite (fun _ hs hm => (takes_keyword w m.step _).alike hs hm) ?_ ?_
  · exact ((hg.new (hm.lt hg.pos)).relax.strengthen (Mark.knowing_implies _)).bind hrest
  · exact (agrees_primary hg hm.step).relax.bind hrest

theorem agrees_leftHandSide (hg : Grammars k g) (hm : m.Within k)
    (hclear : m.Clears w .exponentiation) :
    Agrees w m (fun _ => m.step) fun i => leftHandSide (g i) := by
  unfold leftHandSide
  refine .span fun start => ?_
  have hrest := agrees_suffixes hg hm.step (w := w) rfl true (fun _ => hclear) start
  refine .check_ite (fun _ hs hm => (takes_keyword w m _).alike hs hm) ?_ ?_
  · exact ((agrees_newExpression hg hm).strengthen (Mark.knowing_implies _)).bind hrest
  · exact (agrees_primary hg hm).bind hrest

/-- No bracket, and not the end. -/
def Plain (t : Token) : Prop := t.isEof = false ∧ bracketStep t = 0

theorem UpdateOperator.plain {t : Token} {operator : UpdateOperator}
    (h : UpdateOperator.ofToken? t = some operator) : Plain t := by
  unfold UpdateOperator.ofToken? at h
  split at h <;> first | exact ⟨rfl, rfl⟩ | cases h

theorem UnaryOperator.plain {t : Token} {operator : UnaryOperator}
    (h : UnaryOperator.ofToken? t = some operator) : Plain t := by
  unfold UnaryOperator.ofToken? at h
  split at h <;> first | exact ⟨rfl, rfl⟩ | cases h

theorem AssignmentOperator.plain {t : Token} {operator : AssignmentOperator}
    (h : AssignmentOperator.ofToken? t = some operator) : Plain t := by
  unfold AssignmentOperator.ofToken? at h
  split at h
  · split at h <;> first | exact ⟨rfl, rfl⟩ | cases h
  · cases h

theorem InfixOperator.plain {t : Token} {allowIn : Bool} {operator : InfixOperator}
    (h : InfixOperator.ofToken? allowIn t = some operator) : Plain t := by
  cases t with
  | punct mark => cases mark <;> first | exact ⟨rfl, rfl⟩ | cases h
  | keyword word => exact ⟨rfl, rfl⟩
  | _ => cases h

theorem agrees_postfixExpression (hg : Grammars k g) (hm : m.Within k)
    (hclear : m.Clears w .exponentiation) :
    Agrees w m (fun _ => m.step) fun i => postfixExpression (g i) := by
  unfold postfixExpression
  refine .span fun start => (agrees_leftHandSide hg hm hclear).bind fun argument => ?_
  have hplain : ∀ n : Mark, n.Implies w m.step →
      Agrees w n (fun _ => m.step) fun i => pure (w.id i argument) :=
    fun n hn => .pure argument (fun _ => rfl) hn
  refine .token (hplain _ (.refl _)) (fun _ _ => rfl) (by rintro _ _ ⟨⟩ <;> rfl) fun t => ?_
  cases hoperator : UpdateOperator.ofToken? t with
  | none => exact hplain _ (Mark.knowing_implies _)
  | some operator =>
    obtain ⟨heof, hstep⟩ := UpdateOperator.plain hoperator
    refine (Agrees.newlineBefore rfl).seq fun newline => .ite (fun _ => hplain _ ?_) fun _ => ?_
    · exact Mark.implies_forget _
    · refine Agrees.seq ((Agrees.skip_at heof hstep).strengthen (Mark.knowing_implies _)) fun _ => ?_
      exact (Agrees.finish (.updateExpression operator false argument) fun _ => rfl).weaken
        fun _ => Mark.step_implies _

theorem agrees_unaryOperand (hg : Grammars k g) (hm : m.Within k)
    (hclear : m.Clears w .exponentiation) :
    Agrees w m (fun _ => m.step) fun i => unaryOperand (g i) := by
  unfold unaryOperand
  refine .span fun start => ?_
  have hplain : Agrees w m (fun _ => m.step) fun i => (do
      if ← eatKeyword .awaitWord then
        let argument ← (g i).unary
        finish (start i) (.awaitExpression argument)
      else postfixExpression (g i)) := by
    refine .eatIf_ite (takes_keyword w m _) ?_ (agrees_postfixExpression hg (m := m.forget) hm hclear)
    refine (hg.unary hm.step hclear).relax.bind fun argument => ?_
    exact .finish (.awaitExpression argument) fun _ => rfl
  refine .token hplain (fun _ _ => rfl) (by rintro _ _ ⟨⟩ <;> rfl) fun t => ?_
  cases hunary : UnaryOperator.ofToken? t with
  | some operator =>
    obtain ⟨heof, hstep⟩ := UnaryOperator.plain hunary
    refine (Agrees.skip_at heof hstep).seq fun _ => ?_
    refine (hg.unary hm.step hclear).relax.bind fun argument => ?_
    exact .finish (.unaryExpression operator argument) fun _ => rfl
  | none =>
    cases hupdate : UpdateOperator.ofToken? t with
    | some operator =>
      obtain ⟨heof, hstep⟩ := UpdateOperator.plain hupdate
      refine (Agrees.skip_at heof hstep).seq fun _ => ?_
      refine (hg.unary hm.step hclear).relax.bind fun argument => ?_
      exact .finish (.updateExpression operator true argument) fun _ => rfl
    | none =>
      refine Agrees.strengthen ?_ (Mark.knowing_implies _)
      refine .eatIf_ite (takes_keyword w m _) ?_ ?_
      · refine (hg.unary hm.step hclear).relax.bind fun argument => ?_
        exact .finish (.awaitExpression argument) fun _ => rfl
      · exact .ite (fun _ => .fail _ _ fun _ => ⟨rfl, rfl⟩) fun _ =>
          agrees_postfixExpression hg (m := m.forget) hm hclear

theorem agrees_unary (hg : Grammars k g) (hm : m.Within (k + 1)) (hclear : m.Clears w .exponentiation) :
    Agrees w m (fun _ => m.step) fun i => unary (g i) :=
  .nested (agrees_unaryOperand hg hm.deeper hclear)

/-- Where an operator may stand after the passage that is taken, the cursor is not there. -/
theorem agrees_infixTail? (hg : Grammars k g) (hm : m.Within k) (hmoved : m.moved = true)
    {least : Precedence} (hend : m.Clears w least ∨ ∀ s, m.known s → s.current ≠ .eof)
    (hclear : ∀ operator : InfixOperator, least.level ≤ operator.precedence.level →
      m.Clears w operator.operandLevel) (start : Side → Span) (left : NodeId) :
    Agrees w m (fun found => m.stepIf found.isSome) fun i =>
      infixTail? (g i) least (start i) (w.id i left) := by
  unfold infixTail?
  have hnone : ∀ n : Mark, n.Implies w m.forget → Agrees w n (fun found => m.stepIf found.isSome)
      fun _ => (pure none : Parser (Option NodeId)) :=
    fun n hn => .pure none (fun _ => rfl) hn
  have hsome : ∀ (node : Node) {v : Side → Node}, (∀ i, v i = node.renumber (w.id i)) →
      Agrees w m.step (fun found => m.stepIf found.isSome) fun i => (do
        return some (← finish (start i) (v i))) :=
    fun node v hv => (Agrees.finish node hv).bind fun e => .pure (some e) (fun _ => rfl) (.refl _)
  refine (Agrees.check (takes_name w m "as")).seq fun named => ?_
  refine (Agrees.newlineBefore (m := m.knowing _) hmoved).seq fun newline => ?_
  refine Agrees.strengthen ?_ (Mark.knowing_implies _)
  refine .ite (fun has => ?_) fun _ => Agrees.strengthen ?_ (Mark.knowing_implies _)
  · have hnamed : named = true := by
      revert has
      cases named <;> simp
    rw [hnamed]
    refine (Agrees.skip_of (takes_name w m "as")).seq fun _ => ?_
    refine (hg.type hm.step).relax.bind fun type => ?_
    exact hsome (.asExpression left type) fun _ => rfl
  refine .asks (fun s hs _ => hs.allowIn .right) fun allowIn => ?_
  refine Agrees.strengthen ?_ (Mark.knowing_implies _)
  have hended : (m.knowing fun s => s.current = .eof).Implies w m.forget := Mark.implies_forget _
  refine .current (fun t => ?_) (fun _ _ => hnone _ (Mark.implies_forget _)) fun t _ _ hlooser _ => ?_
  · have hforget : (m.knowing fun s => s.current = t).Implies w m.forget := Mark.implies_forget _
    cases hoperator : InfixOperator.ofToken? allowIn t with
    | none => exact hnone _ hforget
    | some operator =>
      obtain ⟨heof, hstep⟩ := InfixOperator.plain hoperator
      refine .ite (fun _ => hnone _ hforget) fun hlevel => ?_
      refine (Agrees.skip_at heof hstep).seq fun _ => ?_
      have hright := hclear operator (Nat.le_of_not_lt hlevel)
      refine (hg.binary (hm.lt hg.pos) _ hright).relax.bind fun right => ?_
      refine hsome (infixNode left right operator) fun _ => ?_
      cases operator <;> rfl
  · rcases hend with hend | hend
    · refine (hnone _ hended).congr fun i => ?_
      cases hoperator : InfixOperator.ofToken? allowIn (t i) with
      | none => rfl
      | some operator =>
        have htoken := InfixOperator.ofToken?_eq_some_iff.mpr
          (InfixOperator.eq_token_of_ofToken? hoperator)
        simp only [if_pos (hlooser least hend i operator htoken)]
    · exact fun s _ hmark => absurd hmark.known.2 (hend _ hmark.known.1)

theorem agrees_binary (hg : Grammars k g) (hm : m.Within k) (least : Precedence)
    (hclear : m.Clears w least) : Agrees w m (fun _ => m.step) fun i => binary (g i) least := by
  unfold binary
  refine .span fun start => (agrees_unary hg (Nat.le_succ_of_le hm) hclear.exponentiation).bind fun first => ?_
  refine .loop first (fun _ => rfl) fun j left => ?_
  have hturn : (m.step.turn j).Clears w least := hclear
  refine (agrees_infixTail? hg (m := m.step.turn j) hm.step rfl (.inl hturn) (fun operator hle =>
    hturn.mono (hle.trans operator.level_le_operandLevel)) start left).bind fun found => ?_
  cases found with
  | none => exact .pure (.stop left) (fun _ => rfl) (.refl _)
  | some e => exact .pure (.next e) (fun _ => rfl) (.refl _)

theorem agrees_conditional (hg : Grammars k g) (hm : m.Within k)
    (hclear : m.Clears w .nullCoalescing) :
    Agrees w m (fun _ => m.step) fun i => conditional (g i) := by
  unfold conditional
  refine .span fun start => (agrees_binary hg hm _ hclear).bind fun test => ?_
  refine .eatIf_ite (takes_mark w m.step rfl rfl) ?_ (.pure test (fun _ => rfl) (.refl _))
  have hn : m.step.step.Within k := hm.step.step
  refine (Agrees.withIn (m := m.step.step) true (hg.assignment hn hclear)).relax.bind fun consequent => ?_
  refine (Agrees.expect (m := m.step.step) .colon rfl rfl).relax.seq fun _ => ?_
  refine (hg.assignment (m := m.step.step) hn hclear).relax.bind fun alternate => ?_
  exact (Agrees.finish (.conditionalExpression test consequent alternate) fun _ => rfl).weaken
    fun _ => Mark.step_implies _

/-- Both sides see whether a `yield` has an operand. -/
theorem Passage.Twin.endsYield_alike {s : Side → State} (hs : w.Twin s) (hm : m.Holds w (s .left))
    (hclear : m.Clears w .nullCoalescing) :
    endsYield (s .right).current = endsYield (s .left).current := by
  cases hs.reads_current with
  | token hlt htwin heof =>
    generalize (s .left).current = t, (s .right).current = t' at htwin
    cases htwin <;> rfl
  | ending heq hleft hright hlooser haccess =>
    rw [hleft]
    split at hright
    · next hon =>
      rcases hclear hon with hpos | hle
      · exact absurd (hm.lt_count hs (fun _ => hpos) hon) (by omega)
      · -- no operator is looser than all of them
        have hnone : InfixOperator.ofToken? true (s .right).current = none := by
          refine Option.eq_none_iff_forall_ne_some.mpr fun operator hoperator => ?_
          have hlt := (hlooser operator hoperator).trans_le hle
          have hpos : 1 ≤ operator.precedence.level := operator.level_pos
          exact absurd hlt (Nat.not_lt_of_le hpos)
        have hmark : (s .right).current ≠ .punct .questionDot := fun hmark =>
          Nat.not_lt_of_le (hle.trans (by decide)) (haccess hmark)
        generalize (s .right).current = t at hright hnone hmark
        cases Ends.of_isStop hright <;> first | rfl | exact absurd rfl hmark | cases hnone
    · rw [hright]

theorem agrees_yieldExpression (hg : Grammars k g) (hm : m.Within k)
    (hclear : m.Clears w .nullCoalescing) :
    Agrees w (m.knowing fun s => s.current.isKeyword .yieldWord = true) (fun _ => m.step)
      fun i => yieldExpression (g i) := by
  unfold yieldExpression
  refine .span fun start => (Agrees.skip_of (takes_keyword w m _)).seq fun _ => ?_
  refine (Agrees.eat_relax (takes_mark w m.step rfl rfl)).seq fun delegate => ?_
  refine (Agrees.newlineBefore (m := m.step) rfl).seq fun newline => ?_
  refine Agrees.strengthen ?_ (Mark.knowing_implies _)
  refine .ask fun s hs hmark => Agrees.strengthen ?_ (Mark.knowing_implies _)
  have hends : ∀ i, endsYield (s i).current = endsYield (s .left).current := fun i => by
    cases i with
    | left => rfl
    | right =>
      exact hs.endsYield_alike hmark hclear
  simp only [hends]
  have hrest : ∀ argument : Option NodeId, Agrees w m.step (fun _ => m.step) fun i =>
      finish (start i) (.yieldExpression (renumber (w.id i) argument) delegate) :=
    fun argument => .finish (.yieldExpression argument delegate) fun _ => rfl
  refine .ite (fun _ => hrest none) fun _ => ?_
  have hargument : Agrees w m.step (fun _ => m.step) fun i => some <$> (g i).assignment :=
    (hg.assignment hm.step hclear).relax.map some fun _ _ => rfl
  exact hargument.bind hrest

theorem agrees_arrowFunction (hg : Grammars k g) (hm : m.Within k)
    (hclear : m.Clears w .nullCoalescing) :
    Agrees w m (fun _ => m.step) fun i => arrowFunction (g i) := by
  unfold arrowFunction
  refine .span fun start => (Agrees.check (takes_name w m "async")).seq fun named => ?_
  refine .ask fun s hs hmark => Agrees.strengthen ?_ (Mark.knowing_implies _)
  -- what follows is only looked at after the word, so inside the passage
  have harrow : ∀ i, (named && !(s i).peek.isPunct .arrow) =
      (named && !(s .left).peek.isPunct .arrow) := fun i => by
    cases named with
    | false => rfl
    | true =>
      have hlt := hs.lt_count (by rw [eq_of_isName hmark.known.2]; rfl)
      rw [hs.peek_alike (fun _ => hlt) (·.isPunct .arrow) (fun _ _ => rfl) (by rintro _ ⟨⟩ <;> rfl) i]
  simp only [harrow]
  generalize hasync : (named && !(s .left).peek.isPunct .arrow) = isAsync
  refine .skip_if (fun htrue => .skip_identifier fun s hs => ⟨"async", eq_of_isName ?_⟩) ?_
  · refine hs.2.trans ?_
    rw [htrue, Bool.and_eq_true] at hasync
    exact hasync.1
  refine (Agrees.skipTypeParameters (m := m.forget)).seq fun _ => ?_
  have hrest : ∀ params : List NodeId, Agrees w m.step (fun _ => m.step) fun i => (do
      let returnType ← typeAscription? (g i)
      expect .arrow
      if ← check .leftBrace then
        let body ← block (g i)
        finish (start i) (.arrowFunctionExpression
          { params := renumber (w.id i) params, body, isAsync, expression := false, returnType })
      else
        let body ← (g i).assignment
        finish (start i) (.arrowFunctionExpression
          { params := renumber (w.id i) params, body, isAsync, expression := true, returnType })) := by
    intro params
    refine (agrees_typeAscription? hg (m := m.step) hm.step).bind fun returnType => ?_
    refine (Agrees.expect (m := m.step) .arrow rfl rfl).relax.seq fun _ => ?_
    refine .check_ite (fun _ hs hm => (takes_open w m.step rfl rfl).alike hs hm) ?_ ?_
    · refine Agrees.strengthen ?_ (Mark.knowing_implies _)
      refine (agrees_block hg hm.step).relax.bind fun body => ?_
      exact .finish (.arrowFunctionExpression
        { params, body, isAsync, expression := false, returnType }) fun _ => rfl
    · refine (hg.assignment hm.step hclear).relax.bind fun body => ?_
      exact .finish (.arrowFunctionExpression
        { params, body, isAsync, expression := true, returnType }) fun _ => rfl
  refine .check_ite (fun _ hs hm => (takes_named w m.forget).alike hs hm) ?_ ?_
  · have hsingle : Agrees w m.forget (fun _ => m.step) fun _ => (fun id => [id]) <$> identifier :=
      agrees_identifier.map (fun id => [id]) fun _ _ => rfl
    exact (hsingle.strengthen (Mark.knowing_implies _)).bind hrest
  · exact (agrees_formalParameters hg (m := m.forget) hm).bind hrest

/-- The nodes of a parser are held by the tree, which bounds the chains of targets below them. -/
theorem Agrees.bounded {α : Type} [Renumber α] {p : Side → Parser α} {N : α → Mark}
    {moved : Bool} {out : α → List NodeId} (h : Agrees w m N p)
    (hgrows : Grows (p .left) moved out) (hleft : ∀ a : α, renumber (w.id .left) a = a) :
    Agrees w m (fun a => (N a).knowing fun s => ∀ id ∈ out a, s.tree.Bounded s.tree.size id) p := by
  intro s hs hm
  cases h s hs hm with
  | error e r hrun hfailed => exact .error e r hrun hfailed
  | value a r hrun htwin hmark =>
    refine .value a r hrun htwin { hmark with known := ⟨hmark.known, fun id hid => ?_⟩ }
    have hgrown := hgrows (s .left)
    rw [Leads, hrun .left, hleft] at hgrown
    obtain ⟨f, hroots, -, hf⟩ := hgrown.sown (hs.ready .left)
    exact hf.bounded (by rwa [hroots])

/-- Takes a token and keeps what is known of the tree. -/
theorem Agrees.skip_keeping {P : Tree → Prop}
    (h : ∀ s, m.known s → Plain s.current ∧ P s.tree) :
    Agrees w m (fun _ => m.step.knowing fun s => P s.tree) fun _ => Parser.skip := by
  intro s hs hm
  obtain ⟨⟨heof, hstep⟩, htree⟩ := h _ hm.known
  have hlt := hs.lt_count heof
  have hafter : m.step.Holds w (s .left).advance := hm.advance hs hlt fun _ _ => by
    rw [hstep, Int.add_zero]
  refine .value () _ (fun _ => rfl) (hs.advance hlt) { hafter with known := ⟨trivial, ?_⟩ }
  rw [hs.advance_eq hlt .left]
  exact htree

theorem agrees_plainAssignment (hg : Grammars k g) (hm : m.Within k)
    (hclear : m.Clears w .nullCoalescing) :
    Agrees w m (fun _ => m.step) fun i => plainAssignment (g i) := by
  unfold plainAssignment
  refine .check_ite (fun _ hs hm => (takes_keyword w m _).alike hs hm) (agrees_yieldExpression hg hm hclear) ?_
  refine .span fun start => ?_
  refine ((agrees_conditional hg hm hclear).bounded (grows_conditional (hg.sound .left)) fun _ => rfl).bind
    fun left => ?_
  refine .token (.pure left (fun _ => rfl) (Mark.knowing_implies _)) (fun _ _ => rfl)
    (by rintro _ _ ⟨⟩ <;> rfl) fun t => ?_
  cases hoperator : AssignmentOperator.ofToken? t with
  | none =>
    exact .pure left (fun _ => rfl) (Mark.implies_forget _)
  | some operator =>
    have hplain := AssignmentOperator.plain hoperator
    refine Agrees.seq (Agrees.skip_keeping (P := fun tree => tree.Bounded tree.size left)
      fun s hs => ⟨hs.2 ▸ hplain, hs.1.2 left (List.mem_singleton_self _)⟩) fun _ => ?_
    have hrest : Agrees w m.step.step (fun _ => m.step) fun i => (do
        let right ← (g i).assignment
        finish (start i) (.assignmentExpression operator (w.id i left) right)) := by
      refine (hg.assignment hm.step.step hclear).relax.bind fun right => ?_
      exact (Agrees.finish (.assignmentExpression operator left right) fun _ => rfl).weaken
        fun _ => Mark.step_implies _
    refine .ite (fun _ => ?_) fun _ => hrest.strengthen (Mark.knowing_implies _)
    refine Agrees.seq (Agrees.toPattern left ?_) fun _ => hrest
    exact fun s hs => hs.2

theorem agrees_assignment (hg : Grammars k g) (hm : m.Within (k + 1))
    (hclear : m.Clears w .nullCoalescing) :
    Agrees w m (fun _ => m.step) fun i => assignment (g i) := by
  have hn := hm.deeper
  refine .nested (.asks (fun s hs hm => hs.arrowGuess hm) fun guess => ?_)
  refine Agrees.strengthen ?_ (Mark.knowing_implies _)
  cases guess with
  | yes => exact agrees_arrowFunction hg hn hclear
  | no => exact agrees_plainAssignment hg hn hclear
  | maybe =>
    refine (Agrees.attempt (fun i => grows_arrowFunction (hg.sound i))
      (agrees_arrowFunction hg hn hclear)).bind fun found => ?_
    cases found with
    | some arrow => exact .pure arrow (fun _ => rfl) (.refl _)
    | none => exact agrees_plainAssignment hg (m := m.deeper.forget) hn hclear

end Parse
end ScriptLint
