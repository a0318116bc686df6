import ScriptLint.Proofs.Parse.Twin.Pattern

namespace ScriptLint
namespace Parse

open ScriptLint.Parser

variable {w : Passage} {m : Mark} {k : Nat} {g : Side → Grammar}

theorem agrees_typeArguments (hg : Grammars k g) (hm : m.Within k) :
    Agrees w m (fun _ => m.step) fun i => typeArguments (g i) := by
  unfold typeArguments
  refine (Agrees.expect .less rfl rfl).seq fun _ => ?_
  have htypes := Agrees.separatedBy .comma rfl rfl (hg.type (w := w) hm.step)
    fun j => hg.type (m := (m.step.step.turn j).step) hm.step.step.step
  refine htypes.relax.bind fun types => ?_
  refine (Agrees.closingAngle rfl).relax.seq fun _ => ?_
  exact .pure types (fun _ => rfl) (.refl _)

theorem agrees_entityName : Agrees w m (fun _ => m.step) fun _ => entityName := by
  unfold entityName
  refine .span fun start => agrees_identifier.bind fun first => ?_
  refine .loop first (fun _ => rfl) fun j left => ?_
  refine .eatIf_ite (takes_mark w _ rfl rfl) ?_ (.pure (.stop left) (fun _ => rfl) (.refl _))
  refine agrees_propertyIdentifier.relax.bind fun right => ?_
  refine (Agrees.finish (.qualifiedName left right) fun _ => rfl).bind fun name => ?_
  exact .pure (.next name) (fun _ => rfl) (.refl _)

theorem agrees_typeReference (hg : Grammars k g) (hm : m.Within k) :
    Agrees w m (fun _ => m.step) fun i => typeReference (g i) := by
  unfold typeReference
  refine .span fun start => agrees_entityName.bind fun name => ?_
  refine (Agrees.check (takes_mark w m.step rfl rfl)).seq fun angle => ?_
  refine ((Agrees.newlineBefore rfl).strengthen (Mark.knowing_implies _)).seq fun newline => ?_
  refine Agrees.strengthen ?_ (Mark.knowing_implies _)
  have hrest : ∀ arguments : List NodeId, Agrees w m.step (fun _ => m.step) fun i =>
      finish (start i) (.typeReference (w.id i name) (renumber (w.id i) arguments)) :=
    fun arguments => .finish (.typeReference name arguments) fun _ => rfl
  exact .ite (fun _ => (agrees_typeArguments hg hm.step).relax.bind hrest) fun _ => hrest []

/-- Words that are types, and literals used as types. -/
theorem agrees_wordReference (name : String) {t : Token} (heof : t.isEof = false)
    (hstep : bracketStep t = 0) :
    Agrees w (m.knowing fun s => s.current = t) (fun _ => m.step) fun _ => wordReference name := by
  unfold wordReference
  refine .span fun span => (Agrees.skip_at heof hstep).seq fun _ => ?_
  refine (Agrees.alloc (.identifier { name }) fun _ => rfl).bind fun typeName => ?_
  exact .alloc (.typeReference typeName []) fun _ => rfl

theorem agrees_literalType (value : LiteralValue) {t : Token} (hspelled : isSpelled t = true)
    (hstep : bracketStep t = 0) :
    Agrees w (m.knowing fun s => s.current = t) (fun _ => m.step) fun _ => literalType value := by
  unfold literalType
  refine .span fun span => (Agrees.literal value hspelled hstep).bind fun value => ?_
  exact .alloc (.literalType value) fun _ => rfl

theorem agrees_wordType (word : TypeWord) {t : Token} (heof : t.isEof = false)
    (hstep : bracketStep t = 0) :
    Agrees w (m.knowing fun s => s.current = t) (fun _ => m.step) fun _ => wordType word := by
  unfold wordType
  refine .span fun span => (Agrees.skip_at heof hstep).seq fun _ => ?_
  exact .alloc (.typeWord word) fun _ => rfl

theorem agrees_functionType (hg : Grammars k g) (hm : m.Within k) :
    Agrees w m (fun _ => m.step) fun i => functionType (g i) := by
  unfold functionType
  refine .span fun start => Agrees.skipTypeParameters.seq fun _ => ?_
  refine (agrees_formalParameters hg (m := m.forget) hm).bind fun params => ?_
  refine (Agrees.expect (m := m.step) .arrow rfl rfl).relax.seq fun _ => ?_
  refine (hg.type hm.step).relax.bind fun returnType => ?_
  exact .finish (.functionType params returnType) fun _ => rfl

theorem atFunctionType_eq :
    atFunctionType = ask fun s =>
      (s.matchingClose s.pos).elim false fun c => (s.tokenAt (c + 1)).isPunct .arrow := by
  unfold atFunctionType
  congr 1
  funext s
  cases s.matchingClose s.pos <;> rfl

/-- What follows a parenthesis that is closed further on. -/
theorem agrees_atFunctionType (h : ∀ s, m.known s → State.opensBracket s.current = true) :
    Agrees w m (fun _ => m) fun _ => atFunctionType := by
  rw [atFunctionType_eq]
  refine (Agrees.answer fun s hs hm => ?_).weaken fun _ => Mark.knowing_implies _
  have hlt := hs.lt_count (isEof_of_opensBracket (h _ hm.known))
  have hpos := hs.pos .right
  rw [Passage.place_right] at hpos
  rw [hpos]
  refine hs.afterClose hlt (h _ hm.known) (fun f hf => ?_) (·.isPunct .arrow) false (fun _ _ => rfl) ?_
  · rw [hm.level f hf]
    exact Int.natCast_nonneg _
  · rintro _ ⟨⟩ <;> rfl

/-- Whether the first of two tokens names the element of a tuple. -/
def labels : Token → Token → Bool
  | .identifier _, .punct .colon => true
  | .identifier _, .punct .question => true
  | _, _ => false

theorem eq_of_labels {t u : Token} (h : labels t u = true) : ∃ name, t = .identifier name := by
  unfold labels at h
  split at h <;> first | exact ⟨_, rfl⟩ | cases h

theorem agrees_atTupleLabel :
    Agrees w m (fun b => m.knowing fun s => labels s.current s.peek = b) fun _ => atTupleLabel := by
  refine .answer fun s hs _ => hs.apply_both labels false (fun _ _ => rfl) ?_ ?_ ?_
  · rintro _ _ ⟨⟩ <;> rfl
  · intro t parts parts'
    cases t <;> rfl
  · rintro t _ ⟨⟩ <;> cases t <;> rfl

theorem agrees_tupleType (hg : Grammars k g) (hm : m.Within k) :
    Agrees w m (fun _ => m.step) fun i => tupleType (g i) := by
  unfold tupleType
  refine .span fun start => (Agrees.expect_open .leftBracket rfl rfl).seq fun _ => ?_
  refine (Agrees.commaSeparated (m.inside_opened w) _ fun j => ?_).bind fun elements => ?_
  · have htype := hg.type (w := w) (m := m.opened.turn j) hm.opened
    refine (Agrees.eat_relax (takes_mark w _ rfl rfl)).seq fun _ => ?_
    refine agrees_atTupleLabel.seq fun label => ?_
    cases label with
    | false => exact htype.strengthen (Mark.knowing_implies _)
    | true =>
      refine Agrees.seq (Agrees.skip_identifier fun s hs => eq_of_labels hs.2) fun _ => ?_
      refine (Agrees.eat_relax (takes_mark w _ rfl rfl)).seq fun _ => ?_
      refine (Agrees.expect .colon rfl rfl).relax.seq fun _ => ?_
      exact htype.strengthen (Mark.step_implies _)
  · refine (Agrees.expect_close _ rfl).seq fun _ => ?_
    exact .finish (.tupleType elements) fun _ => rfl

/-- Whether three tokens begin an index signature. -/
def indexes : Token → Token → Token → Bool
  | .punct .leftBracket, .identifier _, .punct .colon => true
  | _, _, _ => false

theorem eq_of_indexes {t u v : Token} (h : indexes t u v = true) : t = .punct .leftBracket := by
  unfold indexes at h
  split at h <;> first | rfl | cases h

theorem indexes_eq_false {t : Token} (h : t.isPunct .leftBracket = false) (u v : Token) :
    indexes t u v = false := by
  cases hindexes : indexes t u v with
  | false => rfl
  | true =>
    rw [eq_of_indexes hindexes] at h
    cases h

theorem Passage.Twin.indexes_eq {s : Side → State} (hs : w.Twin s) :
    indexes (s .right).current (s .right).peek ((s .right).tokenAt ((s .right).pos + 2)) =
      indexes (s .left).current (s .left).peek ((s .left).tokenAt ((s .left).pos + 2)) := by
  have hbracket := hs.reads_current.apply (·.isPunct .leftBracket) (fun _ _ => rfl)
    fun _ _ t ht => isPunct_of_isStop ht rfl
  cases hopen : (s .left).current.isPunct .leftBracket with
  | false => rw [indexes_eq_false hopen, indexes_eq_false (hbracket.trans hopen)]
  | true =>
    rw [eq_of_isPunct hopen, eq_of_isPunct (hbracket.trans hopen)]
    have hlt := hs.lt_count (by rw [eq_of_isPunct hopen]; rfl)
    rcases (Nat.succ_le_of_lt hlt).lt_or_eq with hnext | heq
    · have hpeek : indexes (.punct .leftBracket) (s .right).peek =
          indexes (.punct .leftBracket) (s .left).peek :=
        (hs.reads_next hlt).apply (indexes (.punct .leftBracket)) (fun _ _ => rfl)
          fun _ heq => absurd heq hnext.ne
      rw [hpeek]
      refine (hs.reads_next hnext).apply (indexes _ (s .left).peek) (fun _ _ => ?_) fun _ _ t ht => ?_
      · cases (s .left).peek <;> rfl
      · cases Ends.of_isStop ht <;> cases (s .left).peek <;> rfl
    · have hends : ∀ i, Ends (s i).peek := (hs.reads_next hlt).ends heq
      have hfalse : ∀ u v, Ends u → indexes (.punct .leftBracket) u v = false := by
        rintro _ _ ⟨⟩ <;> rfl
      rw [hfalse _ _ (hends .left), hfalse _ _ (hends .right)]

theorem agrees_atIndexSignature :
    Agrees w m (fun b => m.knowing fun s =>
        indexes s.current s.peek (s.tokenAt (s.pos + 2)) = b)
      fun _ => atIndexSignature :=
  .answer fun _ hs _ => hs.indexes_eq

/-- Whether the first of two tokens is the modifier `readonly`. -/
def readonlyModifies (t u : Token) : Bool :=
  t.isName "readonly" &&
    match u with
    | .punct .colon | .punct .question | .punct .leftParen => false
    | _ => true

theorem agrees_atReadonlyModifier :
    Agrees w m (fun b => m.knowing fun s => readonlyModifies s.current s.peek = b)
      fun _ => atReadonlyModifier := by
  refine .answer fun s hs _ => hs.apply_both readonlyModifies false (fun _ _ => rfl) ?_ ?_ ?_
  · rintro _ _ ⟨⟩ <;> rfl
  · exact fun _ _ _ => rfl
  · rintro t _ ⟨⟩ <;> rfl

theorem eq_of_readonlyModifies {t u : Token} (h : readonlyModifies t u = true) :
    ∃ name, t = .identifier name :=
  ⟨"readonly", eq_of_isName (Bool.and_eq_true_iff.mp h).1⟩

theorem agrees_typeMember (hg : Grammars k g) (hm : m.Within k) :
    Agrees w m (fun _ => m.step) fun i => typeMember (g i) := by
  unfold typeMember
  refine .span fun start => agrees_atReadonlyModifier.seq fun readonly => ?_
  refine .skip_if (fun hreadonly => .skip_identifier fun s hs => ?_) ?_
  · exact eq_of_readonlyModifies (hs.2.trans hreadonly)
  refine agrees_atIndexSignature.seq fun indexed => .ite (fun hindexed => ?_) fun _ => ?_
  · refine Agrees.seq (Agrees.skip_open fun s hs => ?_) fun _ => ?_
    · rw [eq_of_indexes (hs.2.trans hindexed)]
      exact ⟨rfl, rfl⟩
    refine agrees_identifier.relax.bind fun key => ?_
    refine (Agrees.expect (m := m.opened) .colon rfl rfl).relax.seq fun _ => ?_
    refine (hg.type (m := m.opened) hm.opened).relax.bind fun _ => ?_
    refine (Agrees.expect_close _ rfl).seq fun _ => ?_
    refine (agrees_typeAscription hg hm.step).relax.bind fun ascription => ?_
    exact .finish (.propertySignature
      { key, computed := true, optional := false, readonly, typeAscription := some ascription })
      fun _ => rfl
  refine Agrees.strengthen ?_ (Mark.knowing_implies _)
  refine (agrees_propertyKey hg (m := m.forget) hm).bind_pair fun key computed => ?_
  refine (Agrees.eat_relax (takes_mark w _ rfl rfl)).seq fun optional => ?_
  refine (Agrees.check (m := m.step) (takes_open w _ rfl rfl)).seq fun paren => ?_
  refine ((Agrees.check (takes_mark w _ rfl rfl)).strengthen (Mark.knowing_implies _)).seq fun angle => ?_
  refine Agrees.strengthen ?_ (Mark.knowing_implies _)
  refine .ite (fun _ => ?_) fun _ => ?_
  · refine Agrees.skipTypeParameters.seq fun _ => ?_
    refine (agrees_formalParameters hg (m := m.step) hm.step).relax.bind fun params => ?_
    refine (agrees_typeAscription? hg (m := m.step) hm.step).bind fun returnType => ?_
    exact .finish (.methodSignature key params returnType) fun _ => rfl
  · refine (agrees_typeAscription? hg (m := m.step) hm.step).bind fun ascription => ?_
    exact .finish (.propertySignature
      { key, computed, optional, readonly, typeAscription := ascription }) fun _ => rfl

theorem agrees_typeMembers (hg : Grammars k g) (hm : m.Within k) :
    Agrees w m (fun _ => m.step) fun i => typeMembers (g i) := by
  unfold typeMembers
  refine (Agrees.expect_open .leftBrace rfl rfl).seq fun _ => ?_
  refine (Agrees.itemsUntil (m.inside_opened w) _ fun j => ?_).bind fun members => ?_
  · have hin : (m.opened.turn j).step.Inside w := m.inside_opened w
    refine (agrees_typeMember hg (m := m.opened.turn j) hm.opened).bind fun member => ?_
    refine .eatIf_ite (takes_semicolon hin) (.pure member (fun _ => rfl) (Mark.step_implies _)) ?_
    refine .eatIf_ite (takes_mark w _ rfl rfl) (.pure member (fun _ => rfl) (Mark.step_implies _)) ?_
    refine (Agrees.check_inside hin .rightBrace).seq fun closes => ?_
    refine ((Agrees.newlineBefore rfl).strengthen (Mark.knowing_implies _)).seq fun newline => ?_
    exact .ite (fun _ => .unexpected _) fun _ =>
      .pure member (fun _ => rfl) (Mark.knowing_implies _)
  · exact (Agrees.expect_close _ rfl).seq fun _ => .pure members (fun _ => rfl) (.refl _)

/-- A minus and a number, whose text is kept together. -/
theorem agrees_negativeLiteralType (value : Binary64)
    (h : ∀ s, m.known s → s.current = .punct .minus ∧ s.peek = .number value) :
    Agrees w m (fun _ => m.step) fun _ => negativeLiteralType value := by
  intro s hs hm
  obtain ⟨hcurrent, hpeek⟩ := h _ hm.known
  have hlt := hs.lt_count (by rw [hcurrent]; rfl)
  have htwin := hs.advance hlt
  have hnext : (s .left).advance.current = .number value := by
    rw [hs.advance_eq hlt .left]
    exact hpeek
  have hlt' := htwin.lt_count (by rw [hnext]; rfl)
  have htwin' := htwin.advance hlt'
  have hmark : m.step.Holds w (s .left).advance := hm.advance hs hlt fun _ _ => by
    rw [hcurrent]
    rfl
  have hmark' : m.step.Holds w (s .left).advance.advance :=
    m.step.step_implies _ (hmark.advance htwin hlt' fun _ _ => by rw [hnext]; rfl)
  have hspan : ∀ i, (s i).advance.advance.spanFrom (s i).currentSpan =
      (s i).currentSpan.extendTo ((s i).spanAt ((s i).pos + 1)).stop := fun i => by
    obtain ⟨b, hb, -⟩ := hs.tokens.reads ((s .left).pos + 1) hlt
    have hget := hb i
    rw [Passage.place_succ, ← hs.pos i] at hget
    rw [htwin.advance_eq hlt' i, hs.advance_eq hlt i]
    simp [State.spanFrom, State.spanAt, hget]
  have hsource : ∀ i, (s i).advance.advance.source = w.source i := htwin'.source
  have htext : w.verbatim = true →
      ((s .right).advance.advance.spanFrom (s .right).currentSpan).slice
          (s .right).advance.advance.source =
        ((s .left).advance.advance.spanFrom (s .left).currentSpan).slice
          (s .left).advance.advance.source := by
    intro hverbatim
    rw [hspan, hspan, hsource, hsource]
    refine (hs.beside hlt).two ?_ (by rw [hcurrent]; rfl)
    have hinside : (s .left).pos + 1 < w.count := by
      rwa [hs.advance_eq hlt .left] at hlt'
    rw [hverbatim, decide_eq_true hinside]
    rfl
  have hrun : Agrees w m.step (fun _ => m.step) fun i => (do
      let span := (s i).advance.advance.spanFrom (s i).currentSpan
      let value ← Parser.alloc (.literal (.number (negated value))
        (span.slice (s i).advance.advance.source)) span
      Parser.alloc (.literalType value) span) :=
    (Agrees.alloc_twin (Node.twin_literal _ htext)).bind fun literal =>
      .alloc (.literalType literal) fun _ => rfl
  exact hrun _ htwin' hmark'

/-- In a predicate such as `x is T` the type that is asserted counts. -/
theorem agrees_predicate (hg : Grammars k g) (hm : m.Within k) (hmoved : m.moved = true)
    (reference : NodeId) :
    Agrees w m (fun _ => m.forget) fun i => (do
      if (← checkName "is") && !(← newlineBefore) then
        skip
        (g i).type
      else return w.id i reference) := by
  refine (Agrees.check (takes_name w m _)).seq fun asserts => ?_
  refine (Agrees.newlineBefore (m := m.knowing _) hmoved).seq fun newline => ?_
  refine Agrees.strengthen ?_ (Mark.knowing_implies _)
  have hplain : ∀ b, Agrees w (m.knowing fun s => s.current.isName "is" = b) (fun _ => m.forget)
      fun i => pure (w.id i reference) :=
    fun b => .pure reference (fun _ => rfl) (Mark.implies_forget _)
  cases asserts with
  | false => exact hplain false
  | true =>
    cases newline with
    | true => exact hplain true
    | false =>
      refine (Agrees.skip_of (takes_name w m _)).seq fun _ => ?_
      exact (hg.type hm.step).relax.weaken fun _ => m.step_implies

theorem agrees_primaryType (hg : Grammars k g) (hm : m.Within k) :
    Agrees w m (fun _ => m.step) fun i => primaryType (g i) := by
  unfold primaryType
  refine .span fun start => .token (.unexpected _) (fun _ _ => rfl) (by rintro _ _ ⟨⟩ <;> rfl)
    fun t => ?_
  cases t with
  | identifier name =>
    refine .ask fun s hs hmark => Agrees.strengthen ?_ (Mark.knowing_implies _)
    have hdot := hs.peek_alike (fun _ => hs.lt_count (by rw [hmark.known.2]; rfl)) (·.isPunct .dot) (fun _ _ => rfl)
      (by rintro _ ⟨⟩ <;> rfl)
    simp only [hdot]
    generalize (s .left).peek.isPunct .dot = dot
    cases typeWord? name <;> cases dot
    case some.false => exact agrees_wordType _ rfl rfl
    all_goals
      refine Agrees.strengthen ?_ (Mark.knowing_implies _)
      refine (agrees_typeReference hg hm).bind fun reference => ?_
      exact agrees_predicate hg hm.step rfl reference
  | keyword word =>
    cases word with
    | voidWord => exact agrees_wordType _ rfl rfl
    | nullWord => exact agrees_wordType _ rfl rfl
    | thisWord => exact agrees_wordReference _ rfl rfl
    | constWord => exact agrees_wordReference _ rfl rfl
    | typeofWord =>
      refine (Agrees.skip_at rfl rfl).seq fun _ => ?_
      refine agrees_entityName.relax.bind fun name => ?_
      exact .finish (.typeQuery name) fun _ => rfl
    | trueWord => exact agrees_literalType _ rfl rfl
    | falseWord => exact agrees_literalType _ rfl rfl
    | newWord =>
      refine (Agrees.skip_at rfl rfl).seq fun _ => ?_
      exact (agrees_functionType hg hm.step).relax
    | _ => exact .unexpected _
  | string value => exact agrees_literalType _ rfl rfl
  | number value => exact agrees_literalType _ rfl rfl
  | punct mark =>
    cases mark with
    | minus =>
      refine .peek (fun s hs => by rw [hs.2]; rfl) (.unexpected _) (fun _ _ => rfl)
        (by rintro _ _ ⟨⟩ <;> rfl) fun t => ?_
      cases t with
      | number value => exact agrees_negativeLiteralType value fun s hs => ⟨hs.1.2, hs.2⟩
      | _ => exact .unexpected _
    | leftBrace =>
      refine Agrees.strengthen ?_ (Mark.knowing_implies _)
      refine (agrees_typeMembers hg hm).bind fun members => ?_
      exact .finish (.typeLiteral members) fun _ => rfl
    | leftBracket => exact (agrees_tupleType hg hm).strengthen (Mark.knowing_implies _)
    | leftParen =>
      refine (agrees_atFunctionType fun s hs => by rw [hs.2]; rfl).seq fun function =>
        .ite (fun _ => ?_) fun _ => ?_
      · exact (agrees_functionType hg hm).strengthen (Mark.knowing_implies _)
      · refine (Agrees.skip_open_at rfl rfl).seq fun _ => ?_
        refine (hg.type hm.opened).relax.bind fun inner => ?_
        exact (Agrees.expect_close _ rfl).seq fun _ => .pure inner (fun _ => rfl) (.refl _)
    | less => exact (agrees_functionType hg hm).strengthen (Mark.knowing_implies _)
    | _ => exact .unexpected _
  | _ => exact .unexpected _

theorem agrees_postfixType (hg : Grammars k g) (hm : m.Within k) :
    Agrees w m (fun _ => m.step) fun i => postfixType (g i) := by
  unfold postfixType
  refine .span fun start => (agrees_primaryType hg hm).bind fun first => ?_
  refine .loop first (fun _ => rfl) fun j type => ?_
  let n := m.step.turn j
  have hn : n.Within k := hm.step
  refine (Agrees.check (takes_open w n rfl rfl)).seq fun bracket => ?_
  refine (Agrees.newlineBefore rfl).seq fun newline => ?_
  refine Agrees.strengthen ?_ (Mark.knowing_implies _)
  have hstop : ∀ b, Agrees w (n.knowing fun s => s.current.isPunct .leftBracket = b)
      (fun turn => n.stepIf (goesOn turn)) fun i => pure (.stop (w.id i type)) :=
    fun b => .pure (.stop type) (fun _ => rfl) (Mark.knowing_implies _)
  cases bracket with
  | false => exact hstop false
  | true =>
    cases newline with
    | true => exact hstop true
    | false =>
      refine (Agrees.skip_of (takes_open w n rfl rfl)).seq fun _ => ?_
      refine .eatIf_ite (takes_close w n rfl) ?_ ?_
      · refine (Agrees.finish (.arrayType type) fun _ => rfl).bind fun id => ?_
        exact .pure (.next id) (fun _ => rfl) (Agrees.after_opened_implies n)
      · refine (hg.type (m := n.opened) hn.opened).relax.bind fun index => ?_
        refine (Agrees.expect_close _ rfl).seq fun _ => ?_
        refine (Agrees.finish (.indexedAccessType type index) fun _ => rfl).bind fun id => ?_
        exact .pure (.next id) (fun _ => rfl) (.refl _)

theorem agrees_typeOperator (hg : Grammars k g) (hm : m.Within k) :
    Agrees w m (fun _ => m.step) fun i => typeOperator (g i) := by
  unfold typeOperator
  have hplain : ∀ t, Agrees w (m.knowing fun s => s.current = t) (fun _ => m.step)
      fun i => postfixType (g i) :=
    fun t => (agrees_postfixType hg hm).strengthen (Mark.knowing_implies _)
  refine .span fun start => .token (agrees_postfixType hg hm) (fun _ _ => rfl)
    (by rintro _ _ ⟨⟩ <;> rfl) fun t => ?_
  cases t with
  | identifier name =>
    refine .ask fun s hs hmark => Agrees.strengthen ?_ (Mark.knowing_implies _)
    have hstarts := hs.peek_alike (fun _ => hs.lt_count (by rw [hmark.known.2]; rfl)) startsType (fun _ _ => rfl)
      (by rintro _ ⟨⟩ <;> rfl)
    simp only [hstarts]
    refine .ite (fun _ => ?_) fun _ => hplain _
    refine (Agrees.skip_at rfl rfl).seq fun _ => ?_
    refine (hg.typeOperator (hm.lt hg.pos)).relax.bind fun type => ?_
    exact .finish (.typeOperator name type) fun _ => rfl
  | _ => exact hplain _

theorem agrees_joinedTypes (mark : Punct) (hstop : isStop (.punct mark) = false)
    (hstep : bracketStep (.punct mark) = 0) {operand : Side → Parser NodeId}
    (hoperand : ∀ {n : Mark}, n.Within k → Agrees w n (fun _ => n.step) operand)
    {join : List NodeId → Node} (hjoin : ∀ f types, join (types.map f) = (join types).renumber f)
    (hm : m.Within k) :
    Agrees w m (fun _ => m.step) fun i => joinedTypes mark (operand i) join := by
  unfold joinedTypes
  refine .span fun start => (Agrees.eat_relax (takes_mark w m hstop hstep)).seq fun _ => ?_
  have htypes := Agrees.separatedBy mark hstop hstep (hoperand (n := m.forget) hm)
    fun j => hoperand (n := (m.step.turn j).step) hm.step.step
  refine htypes.bind fun types => ?_
  have hfinish : ∀ types : List NodeId, Agrees w m.step (fun _ => m.step) fun i =>
      finish (start i) (join (types.map (w.id i))) :=
    fun types => .finish (join types) fun _ => hjoin _ types
  cases types with
  | nil => exact hfinish []
  | cons type types =>
    cases types with
    | nil => exact .pure type (fun _ => rfl) (.refl _)
    | cons next types => exact hfinish (type :: next :: types)

theorem agrees_intersectionType (hg : Grammars k g) (hm : m.Within k) :
    Agrees w m (fun _ => m.step) fun i => intersectionType (g i) :=
  agrees_joinedTypes .amp rfl rfl (agrees_typeOperator hg) (fun _ _ => rfl) hm

theorem agrees_type (hg : Grammars k g) (hm : m.Within (k + 1)) :
    Agrees w m (fun _ => m.step) fun i => type (g i) :=
  .nested (agrees_joinedTypes .pipe rfl rfl (agrees_intersectionType hg) (fun _ _ => rfl)
    (hm.deeper))

end Parse
end ScriptLint
