import ScriptLint.Proofs.Parse.Statement
import ScriptLint.Proofs.Parse.Twin.Expression

namespace ScriptLint
namespace Parse

open ScriptLint.Parser

instance : Renumber VariableKind := ⟨fun _ kind => kind⟩

variable {w : Passage} {m : Mark} {k : Nat} {g : Side → Grammar}

theorem agrees_parenExpression (hg : Grammars k g) (hm : m.Within k) :
    Agrees w m (fun _ => m.step) fun i => parenExpression (g i) := by
  unfold parenExpression
  refine (Agrees.expect_open .leftParen rfl rfl).seq fun _ => ?_
  refine (Agrees.withIn (m := m.opened) true (agrees_expression hg hm.opened (m.clears_opened w _))).relax.bind fun e => ?_
  exact (Agrees.expect_close _ rfl).seq fun _ => .pure e (fun _ => rfl) (.refl _)

theorem agrees_expressionStatement (hg : Grammars k g) (hm : m.Within k) (hin : m.Inside w) :
    Agrees w m (fun _ => m.step) fun i => expressionStatement (g i) := by
  unfold expressionStatement
  refine .span fun start => (agrees_expression hg hm (hin.clears _)).bind fun e => ?_
  refine (Agrees.consumeSemicolon (m := m.step) hin rfl).seq fun _ => ?_
  exact .finish (.expressionStatement e) fun _ => rfl

theorem agrees_variableDeclarator (hg : Grammars k g) (hm : m.budget < k) (hin : m.Inside w) :
    Agrees w m (fun _ => m.step) fun i => variableDeclarator (g i) := by
  unfold variableDeclarator
  refine .span fun start => (agrees_annotatedBinding hg hm).bind fun id => ?_
  have hn : m.step.step.Within k := Mark.Within.step (Mark.Within.step hm.le)
  have hinit : Agrees w m.step (fun _ => m.step) fun i => optionally (eat .equal) (g i).assignment :=
    .optionally (.eatIf (takes_mark w m.step rfl rfl))
      ((hg.assignment hn (hin.clears _)).relax.weaken fun _ => Mark.step_implies _) (.refl _)
  refine hinit.bind fun init => ?_
  exact .finish (.variableDeclarator id init) fun _ => rfl

/-- Takes a word and goes on with it. -/
theorem Agrees.advance_word {α : Type} [Renumber α] {N : α → Mark} {f : Side → Token → Parser α}
    (word : Keyword) (h : Agrees w m.step N fun i => f i (.keyword word)) :
    Agrees w (m.knowing fun s => s.current = .keyword word) N fun i => Parser.advance >>= f i := by
  intro s hs hm
  have hcurrent : (s .left).current = .keyword word := hm.known.2
  have hlt := hs.lt_count (by rw [hcurrent]; rfl)
  have hsame : ∀ i, (s i).current = .keyword word := fun i => by
    cases i with
    | left => exact hcurrent
    | right =>
      have hright := hs.reads_current.right_eq (by rw [hcurrent]; rfl) (by rw [hcurrent]; nofun)
      exact hright.trans hcurrent
  have hafter : m.step.Holds w (s .left).advance := hm.advance hs hlt fun _ _ => by
    rw [hcurrent]
    rfl
  have hrun : ∀ i, (Parser.advance >>= f i) (s i) = f i (.keyword word) (s i).advance := fun i => by
    rw [← hsame i]
    rfl
  simp only [hrun]
  exact h _ (hs.advance hlt) hafter

/-- The first word and the variables of a declaration. -/
theorem agrees_variableDeclarations (hg : Grammars k g) (hm : m.Within k) (hin : m.Inside w)
    (word : Keyword) :
    Agrees w (m.knowing fun s => s.current = .keyword word) (fun _ => m.step)
      fun i => variableDeclarations (g i) := by
  unfold variableDeclarations
  refine .advance_word word ?_
  have hdeclarations := Agrees.separatedBy .comma rfl rfl
    (agrees_variableDeclarator hg (m := m.step) (hm.lt hg.pos) hin) fun j =>
      agrees_variableDeclarator hg (m := (m.step.step.turn j).step) (hm.step.step.lt hg.pos) hin
  refine hdeclarations.relax.bind fun declarations => ?_
  exact .pure (_, declarations) (fun _ => rfl) (.refl _)

theorem agrees_variableStatement (hg : Grammars k g) (hm : m.Within k) (hin : m.Inside w)
    (word : Keyword) :
    Agrees w (m.knowing fun s => s.current = .keyword word) (fun _ => m.step)
      fun i => variableStatement (g i) := by
  unfold variableStatement
  refine .span fun start => (agrees_variableDeclarations hg hm hin word).bind fun d => ?_
  refine (Agrees.consumeSemicolon (m := m.step) hin rfl).seq fun _ => ?_
  exact .finish (.variableDeclaration d.1 d.2) fun _ => rfl

theorem agrees_variableHead (hg : Grammars k g) (hm : m.Within k) (hin : m.Inside w)
    (word : Keyword) :
    Agrees w (m.knowing fun s => s.current = .keyword word) (fun _ => m.step)
      fun i => variableHead (g i) := by
  unfold variableHead
  refine .span fun start => (agrees_variableDeclarations hg hm hin word).bind fun d => ?_
  exact .finish (.variableDeclaration d.1 d.2) fun _ => rfl

theorem agrees_ifStatement (hg : Grammars k g) (hm : m.Within k) (hin : m.Inside w) :
    Agrees w m (fun _ => m.step) fun i => ifStatement (g i) := by
  unfold ifStatement
  refine .span fun start => (Agrees.expectKeyword .ifWord).seq fun _ => ?_
  refine (agrees_parenExpression hg hm.step).relax.bind fun test => ?_
  refine (hg.statement (m := m.step) hm.step hin).relax.bind fun consequent => ?_
  have halternate : Agrees w m.step (fun _ => m.step) fun i =>
      optionally (eatKeyword .elseWord) (g i).statement :=
    .optionally (.eatIf (takes_keyword w m.step _))
      ((hg.statement (m := m.step.step) hm.step.step hin).relax.weaken fun _ => Mark.step_implies _)
      (.refl _)
  refine halternate.bind fun alternate => ?_
  exact .finish (.ifStatement test consequent alternate) fun _ => rfl

theorem agrees_forInit (hg : Grammars k g) (hm : m.Within k) (hin : m.Inside w) :
    Agrees w m (fun init => m.forget.knowing fun s => ∀ left ∈ init.toList,
      s.tree.Bounded s.tree.size left) fun i => forInit (g i) := by
  refine Agrees.bounded ?_ (grows_forInit (hg.sound .left)) fun init => by cases init <;> rfl
  unfold forInit
  have hexpression : Agrees w m (fun _ => m.forget) fun i =>
      some <$> withIn false (expression (g i)) :=
    (Agrees.withIn false (agrees_expression hg (m := m.forget) hm (hin.clears _))).relax.map some fun _ _ => rfl
  have hvariables : ∀ word, Agrees w (m.knowing fun s => s.current = .keyword word)
      (fun _ => m.forget) fun i => some <$> withIn false (variableHead (g i)) := by
    intro word
    have hhead := agrees_variableHead hg (m := m.forget) hm hin word
    refine (Agrees.withIn_of false (fun s h => ?_) hhead).relax.map some fun _ _ => rfl
    exact ⟨h.budget, h.steps, h.level, h.moved, trivial, h.known.2⟩
  refine .token_inside hin hexpression (fun _ _ => rfl) (fun _ => rfl) fun t => ?_
  cases t with
  | punct mark =>
    cases mark with
    | semicolon =>
      exact .pure none (fun _ => rfl) (Mark.implies_forget _)
    | _ => exact hexpression.strengthen (Mark.knowing_implies _)
  | keyword word =>
    cases word with
    | varWord => exact hvariables _
    | letWord => exact hvariables _
    | constWord => exact hvariables _
    | _ => exact hexpression.strengthen (Mark.knowing_implies _)
  | _ => exact hexpression.strengthen (Mark.knowing_implies _)

/-- The rest of a loop over the elements or keys of a value. -/
theorem agrees_forEach (hg : Grammars k g) (hm : m.Within k) (hin : m.Inside w) (start : Side → Span)
    (isAwait isOf : Bool) (left : NodeId) :
    Agrees w (m.opened.knowing fun s => Plain s.current ∧ s.tree.Bounded s.tree.size left)
      (fun _ => m.step) fun i => forEach (g i) (start i) isAwait isOf (w.id i left) := by
  unfold forEach
  refine Agrees.seq (Agrees.skip_keeping (P := fun tree => tree.Bounded tree.size left)
    fun s hs => hs.2) fun _ => ?_
  refine Agrees.seq (Agrees.toPattern left fun s hs => hs.2) fun _ => ?_
  refine Agrees.strengthen (n := m.opened) ?_ (Mark.step_implies _)
  have hright : Agrees w m.opened (fun _ => m.opened.step) fun i =>
      if isOf then (g i).assignment else expression (g i) :=
    .ite (fun _ => hg.assignment hm.opened (m.clears_opened w _))
      fun _ => agrees_expression hg hm.opened (m.clears_opened w _)
  refine (Agrees.withIn (m := m.opened) true hright).relax.bind fun right => ?_
  refine (Agrees.expect_close _ rfl).seq fun _ => ?_
  refine (hg.statement (m := m.step) hm.step hin).relax.bind fun body => ?_
  refine .finish (if isOf then .forOfStatement left right body isAwait
    else .forInStatement left right body) fun _ => ?_
  cases isOf <;> rfl

theorem agrees_forTestUpdate (hg : Grammars k g) (hm : m.Within k) (hin : m.Inside w)
    (start : Side → Span) (init : Option NodeId) :
    Agrees w m.opened (fun _ => m.step) fun i =>
      forTestUpdate (g i) (start i) (renumber (w.id i) init) := by
  unfold forTestUpdate
  have hinside : m.opened.Inside w := m.inside_opened w
  have hpart : Agrees w m.opened (fun _ => m.opened) fun i =>
      some <$> withIn true (expression (g i)) :=
    (Agrees.withIn (m := m.opened) true (agrees_expression hg hm.opened (m.clears_opened w _))).relax.map some fun _ _ => rfl
  have hfinish : ∀ test update : Option NodeId, Agrees w m.opened (fun _ => m.step) fun i => (do
      expect .rightParen
      let body ← (g i).statement
      finish (start i) (.forStatement (renumber (w.id i) init) (renumber (w.id i) test)
        (renumber (w.id i) update) body)) := by
    intro test update
    refine (Agrees.expect_close _ rfl).seq fun _ => ?_
    refine (hg.statement (m := m.step) hm.step hin).relax.bind fun body => ?_
    exact .finish (.forStatement init test update body) fun _ => rfl
  have hupdate : ∀ test : Option NodeId, Agrees w m.opened (fun _ => m.step) fun i => (do
      expect .semicolon
      let update ← if ← check .rightParen then pure none else some <$> withIn true (expression (g i))
      expect .rightParen
      let body ← (g i).statement
      finish (start i) (.forStatement (renumber (w.id i) init) (renumber (w.id i) test) update body)) := by
    intro test
    refine (Agrees.expect_semicolon hinside).relax.seq fun _ => ?_
    refine (Agrees.check_inside hinside .rightParen).seq fun closes => ?_
    refine Agrees.strengthen ?_ (Mark.knowing_implies _)
    exact .ite (fun _ => hfinish test none) fun _ => hpart.bind (hfinish test)
  refine (Agrees.expect_semicolon hinside).relax.seq fun _ => ?_
  refine (Agrees.check_inside hinside .semicolon).seq fun ends => ?_
  refine Agrees.strengthen ?_ (Mark.knowing_implies _)
  exact .ite (fun _ => hupdate none) fun _ => hpart.bind hupdate

theorem agrees_forStatement (hg : Grammars k g) (hm : m.Within k) (hin : m.Inside w) :
    Agrees w m (fun _ => m.step) fun i => forStatement (g i) := by
  unfold forStatement
  refine .span fun start => (Agrees.expectKeyword .forWord).seq fun _ => ?_
  refine (Agrees.eat_relax (takes_keyword w m.step _)).seq fun isAwait => ?_
  refine (Agrees.expect_open (m := m.step) .leftParen rfl rfl).seq fun _ => ?_
  have hn : m.step.opened.Within k := hm.step.opened
  refine (agrees_forInit hg hn (m.step.inside_opened w)).bind fun init => ?_
  refine (Agrees.check (takes_name w _ "of")).seq fun isOf => ?_
  refine (Agrees.check (takes_keyword w _ .inWord)).seq fun isIn => ?_
  have hrest : Agrees w m.step.opened (fun _ => m.step) fun i =>
      forTestUpdate (g i) (start i) (renumber (w.id i) init) :=
    (agrees_forTestUpdate hg (m := m.step) hm.step hin start init).relax
  cases init with
  | none =>
    exact hrest.strengthen (Mark.implies_forget _)
  | some left =>
    refine .ite (fun heach => ?_) fun _ => hrest.strengthen (Mark.implies_forget _)
    refine Agrees.strengthen (agrees_forEach hg (m := m.step) hm.step hin start isAwait isOf left).relax
      fun s h => { h with known := ⟨trivial, ?_, h.known.1.1.2 left (by simp)⟩ }
    have hof : s.current.isName "of" = isOf := h.known.1.2
    have hword : s.current.isKeyword .inWord = isIn := h.known.2
    rw [← hof, ← hword, Bool.or_eq_true] at heach
    rcases heach with heq | heq
    · rw [eq_of_isName heq]
      exact ⟨rfl, rfl⟩
    · rw [eq_of_isKeyword heq]
      exact ⟨rfl, rfl⟩

theorem agrees_whileStatement (hg : Grammars k g) (hm : m.Within k) (hin : m.Inside w) :
    Agrees w m (fun _ => m.step) fun i => whileStatement (g i) := by
  unfold whileStatement
  refine .span fun start => (Agrees.expectKeyword .whileWord).seq fun _ => ?_
  refine (agrees_parenExpression hg hm.step).relax.bind fun test => ?_
  refine (hg.statement (m := m.step) hm.step hin).relax.bind fun body => ?_
  exact .finish (.whileStatement test body) fun _ => rfl

theorem agrees_doWhileStatement (hg : Grammars k g) (hm : m.Within k) (hin : m.Inside w) :
    Agrees w m (fun _ => m.step) fun i => doWhileStatement (g i) := by
  unfold doWhileStatement
  refine .span fun start => (Agrees.expectKeyword .doWord).seq fun _ => ?_
  refine (hg.statement (m := m.step) hm.step hin).relax.bind fun body => ?_
  refine (Agrees.expectKeyword (m := m.step) .whileWord).relax.seq fun _ => ?_
  refine (agrees_parenExpression hg hm.step).relax.bind fun test => ?_
  refine (Agrees.eat_relax (takes_semicolon (m := m.step) hin)).seq fun _ => ?_
  exact .finish (.doWhileStatement body test) fun _ => rfl

/-- Whether a statement ends here. -/
theorem agrees_atStatementEnd (hin : m.Inside w) (hmoved : m.moved = true) :
    Agrees w m (fun _ => m) fun _ => atStatementEnd := by
  refine (Agrees.answer fun s hs hm => ?_).weaken fun _ => Mark.knowing_implies _
  simp only [hs.isPunct hm hin, hs.atEof hm hin, hs.newlineBefore (hm.moved hmoved)]

theorem agrees_returnStatement (hg : Grammars k g) (hm : m.Within k) (hin : m.Inside w) :
    Agrees w m (fun _ => m.step) fun i => returnStatement (g i) := by
  unfold returnStatement
  refine .span fun start => (Agrees.expectKeyword .returnWord).seq fun _ => ?_
  have hrest : ∀ argument : Option NodeId, Agrees w m.step (fun _ => m.step) fun i => (do
      consumeSemicolon
      finish (start i) (.returnStatement (renumber (w.id i) argument))) := by
    intro argument
    refine (Agrees.consumeSemicolon (m := m.step) hin rfl).seq fun _ => ?_
    exact .finish (.returnStatement argument) fun _ => rfl
  refine (agrees_atStatementEnd (m := m.step) hin rfl).seq fun ends =>
    .ite (fun _ => hrest none) fun _ => ?_
  have hargument : Agrees w m.step (fun _ => m.step) fun i => some <$> expression (g i) :=
    (agrees_expression hg hm.step (hin.clears _)).relax.map some fun _ _ => rfl
  exact hargument.bind hrest

theorem agrees_jumpStatement (hin : m.Inside w) (word : Keyword) {make : Option NodeId → Node}
    (hmake : ∀ f label, make (Option.map f label) = (make label).renumber f) :
    Agrees w (m.knowing fun s => s.current = .keyword word) (fun _ => m.step)
      fun _ => jumpStatement make := by
  unfold jumpStatement
  refine .span fun start => (Agrees.skip_at rfl rfl).seq fun _ => ?_
  have hrest : ∀ label : Option NodeId, Agrees w m.step (fun _ => m.step) fun i => (do
      consumeSemicolon
      finish (start i) (make (renumber (w.id i) label))) := by
    intro label
    refine (Agrees.consumeSemicolon (m := m.step) hin rfl).seq fun _ => ?_
    exact .finish (make label) fun i => hmake (w.id i) label
  refine (Agrees.check (takes_named w m.step)).seq fun named => ?_
  refine (Agrees.newlineBefore rfl).seq fun newline => ?_
  refine Agrees.strengthen (n := m.step) ?_ (Mark.implies_forget _)
  refine .ite (fun _ => ?_) fun _ => hrest none
  have hlabel : Agrees w m.step (fun _ => m.step) fun _ => some <$> identifier :=
    agrees_identifier.relax.map some fun _ _ => rfl
  exact hlabel.bind hrest

theorem agrees_throwStatement (hg : Grammars k g) (hm : m.Within k) (hin : m.Inside w) :
    Agrees w m (fun _ => m.step) fun i => throwStatement (g i) := by
  unfold throwStatement
  refine .span fun start => (Agrees.expectKeyword .throwWord).seq fun _ => ?_
  refine (agrees_expression hg hm.step (hin.clears _)).relax.bind fun argument => ?_
  refine (Agrees.consumeSemicolon (m := m.step) hin rfl).seq fun _ => ?_
  exact .finish (.throwStatement argument) fun _ => rfl

theorem agrees_catchClause (hg : Grammars k g) (hm : m.Within k) :
    Agrees w (m.knowing fun s => s.current.isKeyword .catchWord = true) (fun _ => m.step)
      fun i => catchClause (g i) := by
  unfold catchClause
  refine .span fun start => (Agrees.skip_of (takes_keyword w m _)).seq fun _ => ?_
  have hparameter : Agrees w m.step.opened (fun _ => m.step) fun i => catchParameter (g i) := by
    unfold catchParameter
    refine (agrees_annotatedBinding hg (m := m.step.opened) (hm.step.lt hg.pos)).relax.bind fun param => ?_
    refine (Agrees.expect_close (m := m.step) _ rfl).relax.seq fun _ => ?_
    exact .pure param (fun _ => rfl) (.refl _)
  have hparam : Agrees w m.step (fun _ => m.step) fun i =>
      optionally (eat .leftParen) (catchParameter (g i)) :=
    .optionally (.eatIf (takes_open w m.step rfl rfl)) hparameter (.refl _)
  refine hparam.bind fun param => ?_
  refine (agrees_block hg hm.step).relax.bind fun body => ?_
  exact .finish (.catchClause param body) fun _ => rfl

theorem agrees_tryStatement (hg : Grammars k g) (hm : m.Within k) :
    Agrees w m (fun _ => m.step) fun i => tryStatement (g i) := by
  unfold tryStatement
  refine .span fun start => (Agrees.expectKeyword .tryWord).seq fun _ => ?_
  refine (agrees_block hg hm.step).relax.bind fun body => ?_
  have hhandler : Agrees w m.step (fun _ => m.step) fun i =>
      optionally (checkKeyword .catchWord) (catchClause (g i)) :=
    .optionally (.check (takes_keyword w m.step _)) (agrees_catchClause hg hm.step).relax
      (Mark.knowing_implies _)
  refine hhandler.bind fun handler => ?_
  have hfinalizer : Agrees w m.step (fun _ => m.step) fun i =>
      optionally (eatKeyword .finallyWord) (block (g i)) :=
    .optionally (.eatIf (takes_keyword w m.step _))
      ((agrees_block hg hm.step.step).relax.weaken fun _ => Mark.step_implies _) (.refl _)
  refine hfinalizer.bind fun finalizer => ?_
  simp only [isNone_renumber]
  refine .ite (fun _ => .span fun span => .fail _ _ fun _ => ⟨rfl, rfl⟩) fun _ => ?_
  exact .finish (.tryStatement body handler finalizer) fun _ => rfl

theorem agrees_atCaseEnd (hin : m.Inside w) : Agrees w m (fun _ => m) fun _ => atCaseEnd := by
  refine (Agrees.answer fun s hs hm => ?_).weaken fun _ => Mark.knowing_implies _
  simp only [(takes_keyword w m _).alike hs hm, hs.isPunct hm hin, hs.atEof hm hin]

theorem agrees_switchCase (hg : Grammars k g) (hm : m.Within k) (hin : m.Inside w) :
    Agrees w m (fun _ => m.step) fun i => switchCase (g i) := by
  unfold switchCase
  refine .span fun start => ?_
  have hrest : ∀ test : Option NodeId, Agrees w m.step (fun _ => m.step) fun i => (do
      expect .colon
      let consequent ← loop [] fun statements => do
        if ← atCaseEnd then return .stop statements
        else return .next ((← (g i).statement) :: statements)
      finish (start i) (.switchCase (renumber (w.id i) test) consequent.reverse)) := by
    intro test
    refine (Agrees.expect (m := m.step) .colon rfl rfl).relax.seq fun _ => ?_
    refine Agrees.bind (Agrees.loop (m := m.step) ([] : List NodeId) (fun _ => rfl) fun j statements => ?_)
      fun consequent => ?_
    · refine (agrees_atCaseEnd (m := m.step.turn j) hin).seq fun ends => .ite (fun _ => ?_) fun _ => ?_
      · exact .pure (.stop statements) (fun _ => rfl) (.refl _)
      · refine (hg.statement (m := m.step.turn j) hm.step hin).bind fun statement => ?_
        exact .pure (.next (statement :: statements)) (fun _ => rfl) (.refl _)
    · refine .finish (.switchCase test consequent.reverse) fun i => ?_
      exact congrArg (Node.switchCase _) List.map_reverse.symm
  refine .eatIf_ite (takes_keyword w m _) ?_ ?_
  · have htest : Agrees w m.step (fun _ => m.step) fun i => some <$> expression (g i) :=
      (agrees_expression hg hm.step (hin.clears _)).relax.map some fun _ _ => rfl
    exact htest.bind hrest
  · exact (Agrees.expectKeyword .defaultWord).seq fun _ => hrest none

theorem agrees_switchStatement (hg : Grammars k g) (hm : m.Within k) :
    Agrees w m (fun _ => m.step) fun i => switchStatement (g i) := by
  unfold switchStatement
  refine .span fun start => (Agrees.expectKeyword .switchWord).seq fun _ => ?_
  refine (agrees_parenExpression hg hm.step).relax.bind fun discriminant => ?_
  refine (Agrees.expect_open (m := m.step) .leftBrace rfl rfl).seq fun _ => ?_
  have hin : m.step.opened.Inside w := m.step.inside_opened w
  have hcases := Agrees.itemsUntil hin .rightBrace fun j =>
    agrees_switchCase hg (m := m.step.opened.turn j) hm.step.opened hin
  refine hcases.bind fun cases => ?_
  refine (Agrees.expect_close (m := m.step) _ rfl).relax.seq fun _ => ?_
  exact .finish (.switchStatement discriminant cases) fun _ => rfl

theorem agrees_labeledStatement (hg : Grammars k g) (hm : m.Within k) (hin : m.Inside w) :
    Agrees w m (fun _ => m.step) fun i => labeledStatement (g i) := by
  unfold labeledStatement
  refine .span fun start => agrees_identifier.bind fun label => ?_
  refine (Agrees.expect (m := m.step) .colon rfl rfl).relax.seq fun _ => ?_
  refine (hg.statement (m := m.step) hm.step hin).relax.bind fun body => ?_
  exact .finish (.labeledStatement label body) fun _ => rfl

theorem agrees_debuggerStatement (hin : m.Inside w) (word : Keyword) :
    Agrees w (m.knowing fun s => s.current = .keyword word) (fun _ => m.step)
      fun _ => debuggerStatement := by
  unfold debuggerStatement
  refine .span fun start => (Agrees.skip_at rfl rfl).seq fun _ => ?_
  refine (Agrees.consumeSemicolon (m := m.step) hin rfl).seq fun _ => ?_
  exact .finish .debuggerStatement fun _ => rfl

theorem agrees_typeAlias (hg : Grammars k g) (hm : m.Within k) (hin : m.Inside w) :
    Agrees w m (fun _ => m.step) fun i => typeAlias (g i) := by
  unfold typeAlias
  refine .span fun start => (Agrees.expectName "type").seq fun _ => ?_
  refine agrees_identifier.relax.bind fun id => ?_
  refine (Agrees.skipTypeParameters (m := m.step)).seq fun _ => ?_
  refine (Agrees.expect (m := m.step) .equal rfl rfl).relax.seq fun _ => ?_
  refine (hg.type hm.step).relax.bind fun type => ?_
  refine (Agrees.consumeSemicolon (m := m.step) hin rfl).seq fun _ => ?_
  exact .finish (.typeAliasDeclaration id type) fun _ => rfl

theorem agrees_interfaceDeclaration (hg : Grammars k g) (hm : m.Within k) :
    Agrees w m (fun _ => m.step) fun i => interfaceDeclaration (g i) := by
  unfold interfaceDeclaration
  refine .span fun start => (Agrees.expectName "interface").seq fun _ => ?_
  refine agrees_identifier.relax.bind fun id => ?_
  refine (Agrees.skipTypeParameters (m := m.step)).seq fun _ => ?_
  have hrest : ∀ parents : List NodeId, Agrees w m.step (fun _ => m.step) fun i => (do
      let body ← typeMembers (g i)
      finish (start i) (.interfaceDeclaration (w.id i id) (renumber (w.id i) parents) body)) := by
    intro parents
    refine (agrees_typeMembers hg hm.step).relax.bind fun body => ?_
    exact .finish (.interfaceDeclaration id parents body) fun _ => rfl
  refine .eatIf_ite (takes_keyword w m.step _) ?_ (hrest [])
  have hparents := Agrees.separatedBy .comma rfl rfl (hg.type (w := w) hm.step.step)
    fun j => hg.type (m := (m.step.step.step.turn j).step) hm.step.step.step.step
  exact (hparents.relax.weaken fun _ => Mark.step_implies _).bind hrest

end Parse
end ScriptLint
