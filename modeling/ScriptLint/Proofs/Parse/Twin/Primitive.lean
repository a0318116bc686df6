import ScriptLint.Proofs.Parse.Twin.Agree

namespace ScriptLint
namespace Parse

open ScriptLint.Parser

variable {α β : Type} [Renumber α] [Renumber β] {w : Passage} {m n : Mark} {N : α → Mark}
  {s : Side → State} {level : Nat} {test : Token → Bool}

/-- Tokens before which a passage can end. -/
inductive Ends : Token → Prop where
  | eof : Ends .eof
  | rightParen : Ends (.punct .rightParen)
  | rightBracket : Ends (.punct .rightBracket)
  | rightBrace : Ends (.punct .rightBrace)
  | semicolon : Ends (.punct .semicolon)
  | questionQuestion : Ends (.punct .questionQuestion)
  | pipePipe : Ends (.punct .pipePipe)
  | ampAmp : Ends (.punct .ampAmp)
  | equalEqual : Ends (.punct .equalEqual)
  | bangEqual : Ends (.punct .bangEqual)
  | equalEqualEqual : Ends (.punct .equalEqualEqual)
  | bangEqualEqual : Ends (.punct .bangEqualEqual)
  | questionDot : Ends (.punct .questionDot)

theorem Ends.of_isStop {t : Token} (h : isStop t = true) : Ends t := by
  unfold isStop at h
  split at h <;> first | constructor | cases h

theorem Passage.Reads.ends {p : Nat} {t : Side → Token} (h : w.Reads p t) (heq : p = w.count)
    (i : Side) : Ends (t i) := by
  cases h with
  | token hlt => exact absurd heq hlt.ne
  | ending _ hleft hright =>
    cases i with
    | left =>
      rw [hleft]
      exact .eof
    | right =>
      split at hright
      · exact .of_isStop hright
      · rw [hright]
        exact .eof

/-- A test that the end of the text fails and that has the same answer on both sides, of tokens that
leave `level` brackets open. -/
structure Takes (w : Passage) (m : Mark) (test : Token → Bool) (level : Nat) : Prop where
  template : ∀ parts parts', test (.template parts) = test (.template parts')
  eof : test .eof = false
  step : ∀ t, test t = true → (level : Int) = m.level + bracketStep t
  stop : (∀ t, isStop t = true → test t = false) ∨ m.Inside w

theorem eq_of_isPunct {t : Token} {mark : Punct} (h : t.isPunct mark = true) : t = .punct mark := by
  cases t with
  | punct p => exact congrArg _ (eq_of_beq h)
  | _ => cases h

theorem eq_of_isKeyword {t : Token} {word : Keyword} (h : t.isKeyword word = true) :
    t = .keyword word := by
  cases t with
  | keyword k => exact congrArg _ (eq_of_beq h)
  | _ => cases h

theorem eq_of_isName {t : Token} {name : String} (h : t.isName name = true) :
    t = .identifier name := by
  cases t with
  | identifier k => exact congrArg _ (eq_of_beq h)
  | _ => cases h

theorem takes_mark (w : Passage) (m : Mark) {mark : Punct} (hstop : isStop (.punct mark) = false)
    (hstep : bracketStep (.punct mark) = 0) : Takes w m (·.isPunct mark) m.level where
  template _ _ := rfl
  eof := rfl
  step t ht := by rw [eq_of_isPunct ht, hstep, Int.add_zero]
  stop := .inl fun _ ht => isPunct_of_isStop ht hstop

theorem takes_semicolon (hin : m.Inside w) : Takes w m (·.isPunct .semicolon) m.level where
  template _ _ := rfl
  eof := rfl
  step t ht := by
    rw [eq_of_isPunct ht]
    exact (Int.add_zero _).symm
  stop := .inr hin

theorem takes_open (w : Passage) (m : Mark) {mark : Punct} (hstop : isStop (.punct mark) = false)
    (hstep : bracketStep (.punct mark) = 1) : Takes w m (·.isPunct mark) (m.level + 1) where
  template _ _ := rfl
  eof := rfl
  step t ht := by
    rw [eq_of_isPunct ht, hstep]
    rfl
  stop := .inl fun _ ht => isPunct_of_isStop ht hstop

theorem takes_close (w : Passage) (m : Mark) {mark : Punct} (hstep : bracketStep (.punct mark) = -1) :
    Takes w m.opened (·.isPunct mark) m.level where
  template _ _ := rfl
  eof := rfl
  step t ht := by
    rw [eq_of_isPunct ht, hstep]
    simp [Mark.opened, Mark.after]
  stop := .inr (Mark.inside_opened w m)

/-- A test that only names and words pass. -/
theorem takes_word (w : Passage) (m : Mark)
    (htemplate : ∀ parts parts', test (.template parts) = test (.template parts'))
    (heof : test .eof = false) (hpunct : ∀ mark, test (.punct mark) = false) :
    Takes w m test m.level where
  template := htemplate
  eof := heof
  step t ht := by
    cases t with
    | punct mark =>
      rw [hpunct] at ht
      cases ht
    | _ => exact (Int.add_zero _).symm
  stop := .inl fun t ht => by
    obtain ⟨mark, rfl⟩ := eq_punct_of_isStop ht
    exact hpunct mark

theorem takes_keyword (w : Passage) (m : Mark) (word : Keyword) :
    Takes w m (·.isKeyword word) m.level :=
  takes_word w m (fun _ _ => rfl) rfl fun _ => rfl

theorem takes_name (w : Passage) (m : Mark) (name : String) : Takes w m (·.isName name) m.level :=
  takes_word w m (fun _ _ => rfl) rfl fun _ => rfl

namespace Takes

theorem alike (h : Takes w m test level) (hs : w.Twin s) (hm : m.Holds w (s .left)) :
    test (s .right).current = test (s .left).current := by
  refine hs.reads_current.apply test h.template fun hon heq t ht => ?_
  rcases h.stop with hstop | hin
  · rw [hstop t ht, h.eof]
  · have hlt := hm.lt_count hs hin hon
    omega

theorem isEof (h : Takes w m test level) {t : Token} (ht : test t = true) : t.isEof = false := by
  cases t with
  | eof =>
    rw [h.eof] at ht
    cases ht
  | _ => rfl

theorem advance (h : Takes w m test level) (hs : w.Twin s) (hm : m.Holds w (s .left))
    (ht : test (s .left).current = true) :
    w.Twin (fun i => (s i).advance) ∧ (m.after level).Holds w (s .left).advance := by
  have hlt := hs.lt_count (h.isEof ht)
  exact ⟨hs.advance hlt, hm.advance hs hlt fun _ _ => h.step _ ht⟩

end Takes

namespace Agrees

theorem failed (hs : w.Twin s) {e : Side → ParseError}
    (he : ErrorTwin w.source w.verbatim (e .left) (e .right)) : Failed w e s :=
  ⟨hs.tokens, fun _ => ⟨hs, he⟩⟩

theorem fail {e : Side → ParseError} (cause : ParseCause) (suggestion : Option String)
    (he : ∀ i, (e i).cause = cause ∧ (e i).suggestion = suggestion) :
    Agrees w m N fun i => Parser.fail (e i) := by
  intro s hs hm
  refine .error e s (fun _ => rfl) (failed hs ⟨?_, ?_⟩)
  · rw [(he .left).1, (he .right).1]
    exact .same cause
  · rw [(he .left).2, (he .right).2]

theorem unexpected_alike (hs : w.Twin s) (expected : List Token) :
    Failed w (fun i => (s i).unexpected expected) s := by
  refine ⟨hs.tokens, fun hclosed => ⟨hs, ?_⟩⟩
  simp only [State.unexpected, State.atEof]
  cases hs.reads_current with
  | token hlt htwin heof =>
    have heof' : (s .right).current.isEof = false := by
      rw [← heof]
      generalize (s .left).current = t, (s .right).current = t' at *
      cases htwin <;> rfl
    simp only [heof, heof', if_false, Bool.false_eq_true]
    exact ⟨.unexpectedToken expected htwin, rfl⟩
  | ending heq hleft hright =>
    simp only [hclosed, if_false, Bool.false_eq_true] at hright
    simp only [hleft, hright, Token.isEof, if_true]
    exact ⟨.same _, rfl⟩

theorem unexpected (expected : List Token) : Agrees w m N fun _ => Parser.unexpected expected :=
  fun s hs _ => .error _ s (fun _ => rfl) (unexpected_alike hs expected)

theorem eatIf (h : Takes w m test level) :
    Agrees w m (fun b => if b then m.after level else m.forget) fun _ => Parser.eatIf test := by
  intro s hs hm
  have halike : ∀ i, test (s i).current = test (s .left).current := fun i => by
    cases i with
    | left => rfl
    | right => exact h.alike hs hm
  simp only [Parser.eatIf, halike]
  by_cases ht : test (s .left).current = true
  · obtain ⟨htwin, hmark⟩ := h.advance hs hm ht
    refine .value true (fun i => (s i).advance) (fun i => ?_) htwin hmark
    simp only [if_pos ht]
    rfl
  · refine .value false s (fun i => ?_) hs (m.implies_forget _ hm)
    simp only [if_neg ht]
    rfl

theorem expecting (h : Takes w m test level) (expected : List Token) :
    Agrees w m (fun _ => m.after level) fun _ (s : State) =>
      if test s.current then (.ok (), s.advance) else (.error (s.unexpected expected), s) := by
  intro s hs hm
  have halike : ∀ i, test (s i).current = test (s .left).current := fun i => by
    cases i with
    | left => rfl
    | right => exact h.alike hs hm
  simp only [halike]
  by_cases ht : test (s .left).current = true
  · obtain ⟨htwin, hmark⟩ := h.advance hs hm ht
    refine .value () (fun i => (s i).advance) (fun i => ?_) htwin hmark
    simp only [if_pos ht]
  · refine .error _ s (fun i => ?_) (unexpected_alike hs expected)
    simp only [if_neg ht]

/-- A mark that is no bracket and ends nothing. -/
theorem expect (mark : Punct) (hstop : isStop (.punct mark) = false)
    (hstep : bracketStep (.punct mark) = 0) :
    Agrees w m (fun _ => m.step) fun _ => Parser.expect mark :=
  expecting (takes_mark w m hstop hstep) [.punct mark]

theorem expect_semicolon (hin : m.Inside w) :
    Agrees w m (fun _ => m.step) fun _ => Parser.expect .semicolon :=
  expecting (takes_semicolon hin) [.punct .semicolon]

theorem expect_open (mark : Punct) (hstop : isStop (.punct mark) = false)
    (hstep : bracketStep (.punct mark) = 1) :
    Agrees w m (fun _ => m.opened) fun _ => Parser.expect mark :=
  expecting (takes_open w m hstop hstep) [.punct mark]

theorem after_opened_implies (m : Mark) : (m.opened.after m.level).Implies w m.step := fun _ h =>
  ⟨h.budget.trans (Nat.sub_le _ _), h.steps.trans (Nat.sub_le _ _), h.level, fun _ => h.moved rfl,
    trivial⟩

theorem expect_close (mark : Punct) (hstep : bracketStep (.punct mark) = -1) :
    Agrees w m.opened (fun _ => m.step) fun _ => Parser.expect mark :=
  (expecting (takes_close w m hstep) [.punct mark]).weaken fun _ => after_opened_implies m

theorem expectKeyword (word : Keyword) :
    Agrees w m (fun _ => m.step) fun _ => Parser.expectKeyword word :=
  expecting (takes_keyword w m word) [.keyword word]

theorem expectName (name : String) :
    Agrees w m (fun _ => m.step) fun _ => Parser.expectName name :=
  expecting (takes_name w m name) [.identifier name]

/-- A token that may be there. -/
theorem eat_relax (h : Takes w m test m.level) :
    Agrees w m (fun _ => m.forget) fun _ => Parser.eatIf test :=
  (eatIf h).weaken fun taken => m.stepIf_implies taken

/-- A token that is taken or not, and what follows in either case. -/
theorem eatIf_ite {p q : Side → Parser α} (h : Takes w m test level)
    (hp : Agrees w (m.after level) N p) (hq : Agrees w m.forget N q) :
    Agrees w m N fun i => Parser.eatIf test >>= fun b => if b then p i else q i := by
  refine (eatIf h).seq fun b => ?_
  cases b with
  | false => exact hq.congr fun _ => rfl
  | true => exact hp.congr fun _ => rfl

/-- A question about the current token, and what follows in either case. -/
theorem check_ite {p q : Side → Parser α} {f : State → Bool}
    (hf : ∀ s, w.Twin s → m.Holds w (s .left) → f (s .right) = f (s .left))
    (hp : Agrees w (m.knowing fun s => f s = true) N p) (hq : Agrees w m N q) :
    Agrees w m N fun i => Parser.ask f >>= fun b => if b then p i else q i := by
  refine asks hf fun b => ?_
  cases b with
  | false => exact (hq.strengthen (Mark.knowing_implies _)).congr fun _ => rfl
  | true => exact hp.congr fun _ => rfl

/-- Takes a token that is no bracket. -/
theorem skip (h : ∀ s, m.known s → s.current.isEof = false ∧ bracketStep s.current = 0) :
    Agrees w m (fun _ => m.step) fun _ => Parser.skip := by
  intro s hs hm
  obtain ⟨heof, hstep⟩ := h _ hm.known
  have hlt := hs.lt_count heof
  refine .value () (fun i => (s i).advance) (fun _ => rfl) (hs.advance hlt) (hm.advance hs hlt ?_)
  intro _ _
  rw [hstep, Int.add_zero]

/-- A token that is taken if something holds. -/
theorem skip_if {c : Bool} {p : Side → Parser α}
    (hskip : c = true → Agrees w m (fun _ => m.step) fun _ => Parser.skip)
    (hp : Agrees w m.forget N p) :
    Agrees w m N fun i => if c then Parser.skip >>= fun _ => p i else p i := by
  refine ite (fun hc => (hskip hc).seq fun _ => hp.strengthen m.step_implies) fun _ => ?_
  exact hp.strengthen m.implies_forget

/-- A token that is taken if something holds and if it is there. -/
theorem eat_if {c : Bool} {p : Side → Parser α} (h : Takes w m test m.level)
    (hp : Agrees w m.forget N p) :
    Agrees w m N fun i => if c then Parser.eatIf test >>= fun _ => p i else p i :=
  ite (fun _ => (eat_relax h).seq fun _ => hp) fun _ => hp.strengthen m.implies_forget

/-- Takes an opening bracket. -/
theorem skip_open (h : ∀ s, m.known s → s.current.isEof = false ∧ bracketStep s.current = 1) :
    Agrees w m (fun _ => m.opened) fun _ => Parser.skip := by
  intro s hs hm
  obtain ⟨heof, hstep⟩ := h _ hm.known
  have hlt := hs.lt_count heof
  refine .value () (fun i => (s i).advance) (fun _ => rfl) (hs.advance hlt) (hm.advance hs hlt ?_)
  intro _ _
  rw [hstep]
  rfl

theorem span {g : Side → Span → Parser α} (h : ∀ span : Side → Span, Agrees w m N fun i => g i (span i)) :
    Agrees w m N fun i => currentSpan >>= g i :=
  ask fun s _ _ => (h fun i => (s i).currentSpan).strengthen (Mark.knowing_implies _)

/-- The current token: the same on both sides, a template, or the end of the passage. -/
theorem current {g : Side → Token → Parser α}
    (hsame : ∀ t, Agrees w (m.knowing fun s => s.current = t) N fun i => g i t)
    (htemplate : ∀ parts : Side → List TemplatePart,
      PartsTwin w.source w.verbatim (parts .left) (parts .right) →
      Agrees w (m.knowing fun s => s.current = .template (parts .left)) N
        fun i => g i (.template (parts i)))
    (hend : ∀ t : Side → Token, (∀ i, Ends (t i)) → (m.Inside w → ∀ i, t i = .eof) →
      (∀ least, m.Clears w least → ∀ i operator, InfixOperator.ofToken? true (t i) = some operator →
        operator.precedence.level < least.level) →
      (m.Clears w .exponentiation → ∀ i, t i ≠ .punct .questionDot) →
      Agrees w (m.knowing fun s => s.current = .eof) N fun i => g i (t i)) :
    Agrees w m N fun i => Parser.current >>= g i := by
  refine ask fun s hs hm => ?_
  cases hs.reads_current with
  | token hlt htwin heof =>
    generalize hleft : (s .left).current = t, hright : (s .right).current = t' at htwin
    cases htwin with
    | same _ hplain =>
      refine (hsame t).congr fun i => ?_
      cases i with
      | left => rw [hleft]
      | right => rw [hright]
    | template hparts =>
      rename_i parts parts'
      refine (htemplate (fun | .left => parts | .right => parts') hparts).congr fun i => ?_
      cases i with
      | left => rw [hleft]
      | right => rw [hright]
  | ending heq hleft hright hlooser haccess =>
    have hinside : m.Inside w → ∀ i, (s i).current = .eof := fun hin i => by
      cases i with
      | left => exact hleft
      | right =>
        split at hright
        · next hon => exact absurd (hm.lt_count hs hin hon) (by omega)
        · exact hright
    have hends := hend (fun i => (s i).current) (hs.reads_current.ends heq) hinside
      (fun least hclear i operator hoperator => ?_) fun hclear i hmark => ?_
    · rwa [hleft]
    · cases i with
      | left =>
        rw [hleft] at hoperator
        cases hoperator
      | right =>
        cases hon : w.goesOn with
        | true =>
          rcases hclear hon with hpos | hle
          · rw [hinside (fun _ => hpos) .right] at hoperator
            cases hoperator
          · exact (hlooser operator hoperator).trans_le hle
        | false =>
          rw [hon, if_neg Bool.false_ne_true] at hright
          rw [hright] at hoperator
          cases hoperator
    · cases i with
      | left => cases hleft.symm.trans hmark
      | right =>
        cases hon : w.goesOn with
        | true =>
          rcases hclear hon with hpos | hle
          · cases (hinside (fun _ => hpos) .right).symm.trans hmark
          · exact absurd (haccess hmark) (Nat.not_lt_of_le hle)
        | false =>
          rw [hon, if_neg Bool.false_ne_true] at hright
          cases hright.symm.trans hmark

/-- The current token, where nothing is done at the end. -/
theorem current_or {g : Side → Token → Parser α} {d : Side → Parser α} (hd : Agrees w m N d)
    (hend : ∀ i t, Ends t → g i t = d i)
    (htemplate : ∀ parts : Side → List TemplatePart,
      PartsTwin w.source w.verbatim (parts .left) (parts .right) →
      Agrees w (m.knowing fun s => s.current = .template (parts .left)) N
        fun i => g i (.template (parts i)))
    (h : ∀ t, Agrees w (m.knowing fun s => s.current = t) N fun i => g i t) :
    Agrees w m N fun i => Parser.current >>= g i :=
  current h htemplate fun _ ht _ _ _ =>
    (hd.strengthen (Mark.knowing_implies _)).congr fun i => hend i _ (ht i)

/-- The current token, where nothing is done with templates and at the end. -/
theorem token {g : Side → Token → Parser α} {d : Side → Parser α} (hd : Agrees w m N d)
    (htemplate : ∀ i parts, g i (.template parts) = d i) (hend : ∀ i t, Ends t → g i t = d i)
    (h : ∀ t, Agrees w (m.knowing fun s => s.current = t) N fun i => g i t) :
    Agrees w m N fun i => Parser.current >>= g i :=
  current_or hd hend
    (fun _ _ => (hd.strengthen (Mark.knowing_implies _)).congr fun i => htemplate i _) h

/-- The current token where the passage does not end, unless the text does. -/
theorem token_inside (hin : m.Inside w) {g : Side → Token → Parser α} {d : Side → Parser α}
    (hd : Agrees w m N d) (htemplate : ∀ i parts, g i (.template parts) = d i)
    (hend : ∀ i, g i .eof = d i)
    (h : ∀ t, Agrees w (m.knowing fun s => s.current = t) N fun i => g i t) :
    Agrees w m N fun i => Parser.current >>= g i :=
  current h
    (fun _ _ => (hd.strengthen (Mark.knowing_implies _)).congr fun i => htemplate i _)
    fun _ _ heof _ _ => (hd.strengthen (Mark.knowing_implies _)).congr fun i => by rw [heof hin i, hend]

/-- Whether a line break stands before the current token, which is not the first one. -/
theorem newlineBefore (hmoved : m.moved = true) :
    Agrees w m (fun b => m.knowing fun s => s.newlineBefore = b) fun _ => Parser.newlineBefore :=
  answer fun _ hs hm => hs.newlineBefore (hm.moved hmoved)

theorem atEof (hin : m.Inside w) :
    Agrees w m (fun b => m.knowing fun s => s.atEof = b) fun _ => Parser.atEof :=
  answer fun _ hs hm => hs.atEof hm hin

theorem consumeSemicolon (hin : m.Inside w) (hmoved : m.moved = true) :
    Agrees w m (fun _ => m.forget) fun _ => Parser.consumeSemicolon := by
  intro s hs hm
  have hsemicolon := (takes_semicolon hin).alike hs hm
  have hbrace := hs.isPunct hm hin .rightBrace
  have heof := hs.atEof hm hin
  have hnewline := hs.newlineBefore (hm.moved hmoved)
  by_cases htake : (s .left).current.isPunct .semicolon = true
  · obtain ⟨htwin, hmark⟩ := (takes_semicolon hin).advance hs hm htake
    refine .value () (fun i => (s i).advance) (fun i => ?_) htwin (m.step_implies _ hmark)
    cases i with
    | left => simp only [Parser.consumeSemicolon, if_pos htake]
    | right => simp only [Parser.consumeSemicolon, hsemicolon, if_pos htake]
  by_cases hend : ((s .left).current.isPunct .rightBrace || (s .left).atEof ||
      (s .left).newlineBefore) = true
  · refine .value () s (fun i => ?_) hs (m.implies_forget _ hm)
    cases i with
    | left => simp only [Parser.consumeSemicolon, if_neg htake, if_pos hend]
    | right =>
      simp only [Parser.consumeSemicolon, hsemicolon, hbrace, heof, hnewline, if_neg htake,
        if_pos hend]
  · refine .error (fun i => .missingSemicolon (s i).currentSpan) s (fun i => ?_)
      (failed hs ⟨.same _, rfl⟩)
    cases i with
    | left => simp only [Parser.consumeSemicolon, if_neg htake, if_neg hend]
    | right =>
      simp only [Parser.consumeSemicolon, hsemicolon, hbrace, heof, hnewline, if_neg htake,
        if_neg hend]

theorem alloc_twin {v : Side → Node} {a : Side → Span}
    (hv : (v .left).Twin w.verbatim (w.base + ·) (v .right)) :
    Agrees w m (fun _ => m.forget) fun i => Parser.alloc (v i) (a i) := by
  intro s hs hm
  refine .value (s .left).tree.size
    (fun i => { s i with tree := ((s i).tree.alloc (v i) (some (a i))).2 }) (fun i => ?_)
    (hs.withTree (hs.tree.alloc hv)) ⟨hm.budget, hm.steps, hm.level, hm.moved, trivial⟩
  cases i with
  | left => rfl
  | right =>
    have hid : w.id .right (s .left).tree.size = (s .right).tree.size := hs.tree.size.symm
    simp only [renumber, hid]
    rfl

/-- Makes a node on both sides. -/
theorem alloc (node : Node) {v : Side → Node} {a : Side → Span}
    (hv : ∀ i, v i = node.renumber (w.id i)) :
    Agrees w m (fun _ => m.forget) fun i => Parser.alloc (v i) (a i) := by
  refine alloc_twin (.inl ?_)
  have hid : w.id .left = id := rfl
  rw [hv .left, hv .right, hid, Node.renumber_id]
  rfl

theorem finish (node : Node) {v : Side → Node} {start : Side → Span}
    (hv : ∀ i, v i = node.renumber (w.id i)) :
    Agrees w m (fun _ => m.forget) fun i => Parser.finish (start i) (v i) := fun s hs hm =>
  alloc (a := fun i => (s i).spanFrom (start i)) node hv s hs hm

/-- Looks at a node. -/
theorem node (id : NodeId) {g : Side → Node → Parser α}
    (h : ∀ node : Side → Node, (node .left).Twin w.verbatim (w.base + ·) (node .right) →
      Agrees w m N fun i => g i (node i)) :
    Agrees w m N fun i => Parser.node (w.id i id) >>= g i := fun s hs hm =>
  h (fun i => (s i).tree.node (w.id i id)) (hs.tree.node id) s hs hm

/-- Looks at a node for what neither its identifiers nor the raw text of a literal decide. -/
theorem node_alike (id : NodeId) {g : Node → Parser α}
    (hids : ∀ f node, g (node.renumber f) = g node)
    (hraw : ∀ value raw raw', g (.literal value raw) = g (.literal value raw'))
    (h : ∀ node, Agrees w m N fun _ => g node) :
    Agrees w m N fun i => Parser.node (w.id i id) >>= g := by
  refine .node id fun node hnode => (h (node .left)).congr fun i => ?_
  cases i with
  | left => rfl
  | right =>
    rcases hnode with hright | ⟨-, value, raw, raw', hleft, hright⟩
    · rw [hright, hids]
    · rw [hleft, hright, hraw]

theorem setNode (id : NodeId) {v : Side → Node}
    (hv : (v .left).Twin w.verbatim (w.base + ·) (v .right)) :
    Agrees w m (fun _ => m.forget) fun i => Parser.setNode (w.id i id) (v i) := by
  intro s hs hm
  exact .value () (fun i => { s i with tree := (s i).tree.setNode (w.id i id) (v i) })
    (fun _ => rfl) (hs.withTree (hs.tree.setNode id hv))
    ⟨hm.budget, hm.steps, hm.level, hm.moved, trivial⟩

theorem extendRange (id : NodeId) :
    Agrees w m (fun _ => m.forget) fun i => Parser.extendRange (w.id i id) := by
  intro s hs hm
  have hrange : ∀ i, ∃ tree : Tree, Parser.extendRange (w.id i id) (s i) = (.ok (), { s i with tree }) ∧
      tree.size = (s i).tree.size ∧ ∀ j, tree.node j = (s i).tree.node j := fun i => by
    cases hr : (s i).tree.range (w.id i id) with
    | none => exact ⟨(s i).tree, by simp [Parser.extendRange, update, hr], rfl, fun _ => rfl⟩
    | some range =>
      refine ⟨(s i).tree.setRange (w.id i id) (some ((s i).spanFrom range)),
        by simp [Parser.extendRange, update, hr], by simp [Tree.setRange], fun j => ?_⟩
      exact (s i).tree.node_setRange _ _ j
  choose tree hrun hsize hnode using hrange
  refine .value () (fun i => { s i with tree := tree i }) (fun i => hrun i) (hs.withTree ⟨?_, ?_⟩)
    ⟨hm.budget, hm.steps, hm.level, hm.moved, trivial⟩
  · rw [hsize, hsize]
    exact hs.tree.size
  · intro j
    rw [hnode, hnode]
    exact hs.tree.node j

/-- Turns a node into the target of an assignment, if no chain of targets below it is too long. -/
theorem toPattern (id : NodeId) (h : ∀ s, m.known s → s.tree.Bounded s.tree.size id) :
    Agrees w m (fun _ => m.forget) fun i => Parse.toPattern (w.id i id) := by
  intro s hs hm
  have hle : (s .left).tree.size ≤ (s .right).tree.size := by
    rw [hs.tree.size]
    exact Nat.le_add_left _ _
  exact .value () (fun i => { s i with tree := (s i).tree.toPattern (s i).tree.size (w.id i id) })
    (fun _ => rfl) (hs.withTree (hs.tree.toPattern (h _ hm.known) le_rfl hle))
    ⟨hm.budget, hm.steps, hm.level, hm.moved, trivial⟩

theorem reversed {items : Side → Parser (List α)} (h : Agrees w m (fun _ => n) items) :
    Agrees w m (fun _ => n) fun i => do
      let found ← items i
      return found.reverse :=
  h.bind fun found => .pure found.reverse (fun _ => (List.map_reverse ..).symm) (.refl _)

/-- Items up to a closing mark, none of which comes after the end of the passage. -/
theorem itemsUntil (hin : m.Inside w) (close : Punct) {item : Side → Parser α}
    (hitem : ∀ k, Agrees w (m.turn k) (fun _ => (m.turn k).step) item) :
    Agrees w m (fun _ => m.forget) fun i => Parser.itemsUntil close (item i) := by
  refine reversed (loop [] (fun _ => rfl) fun k items => ?_)
  have hinside : (m.turn k).Inside w := hin
  refine (answer fun _ hs hm => hs.isPunct hm hinside close).seq fun closes => ?_
  refine ((atEof hinside).strengthen (Mark.knowing_implies _)).seq fun ends =>
    .ite (fun _ => .pure (.stop items) (fun _ => rfl) ?_) fun _ => ?_
  · exact Mark.knowing_implies _
  · refine ((hitem k).strengthen (Mark.knowing_implies _)).bind fun a => ?_
    exact .pure (.next (a :: items)) (fun _ => rfl) (.refl _)

theorem commaSeparated (hin : m.Inside w) (close : Punct) {item : Side → Parser α}
    (hitem : ∀ k, Agrees w (m.turn k) (fun _ => (m.turn k).step) item) :
    Agrees w m (fun _ => m.forget) fun i => Parser.commaSeparated close (item i) := by
  refine itemsUntil hin close fun k => (hitem k).bind fun a => ?_
  have hinside : (m.turn k).step.Inside w := hin
  refine (answer fun _ hs hm => hs.isPunct hm hinside close).seq fun closes => ?_
  cases closes with
  | true => exact .pure a (fun _ => rfl) (Mark.knowing_implies _)
  | false =>
    refine ((expect .comma rfl rfl).strengthen (Mark.knowing_implies _)).seq fun _ => ?_
    exact .pure a (fun _ => rfl) (Mark.step_implies _)

theorem separatedBy (mark : Punct) (hstop : isStop (.punct mark) = false)
    (hstep : bracketStep (.punct mark) = 0) {item : Side → Parser α}
    (hfirst : Agrees w m (fun _ => m.step) item)
    (hitem : ∀ k, Agrees w (m.step.turn k).step (fun _ => (m.step.turn k).step.step) item) :
    Agrees w m (fun _ => m.step) fun i => Parser.separatedBy mark (item i) := by
  refine hfirst.bind fun first => reversed (loop [first] (fun _ => rfl) fun k items => ?_)
  refine eatIf_ite (takes_mark w _ hstop hstep) (?_) (.pure (.stop items) (fun _ => rfl) (.refl _))
  refine (hitem k).bind fun a => .pure (.next (a :: items)) (fun _ => rfl) ?_
  exact Mark.step_implies _

theorem optionally {item : Side → Parser α} {test : Parser Bool} {M : Bool → Mark}
    (htest : Agrees w m M fun _ => test) (hitem : Agrees w (M true) (fun _ => n) item)
    (hnone : (M false).Implies w n) :
    Agrees w m (fun _ => n) fun i => Parser.optionally test (item i) := by
  refine htest.seq fun b => ?_
  cases b with
  | true => exact hitem.bind fun a => .pure (some a) (fun _ => rfl) (.refl _)
  | false => exact .pure none (fun _ => rfl) hnone

end Agrees
end Parse
end ScriptLint
