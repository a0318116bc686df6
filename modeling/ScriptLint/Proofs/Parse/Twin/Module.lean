import ScriptLint.Parse.Module
import ScriptLint.Proofs.Parse.Twin.Statement

namespace ScriptLint
namespace Parse

open ScriptLint.Parser

variable {w : Passage} {m : Mark} {k : Nat} {g : Side → Grammar}

theorem agrees_moduleName : Agrees w m (fun _ => m.step) fun _ => moduleName := by
  unfold moduleName
  refine .token agrees_propertyIdentifier (fun _ _ => rfl) (by rintro _ _ ⟨⟩ <;> rfl) fun t => ?_
  cases t with
  | string value => exact agrees_stringLiteral.strengthen (Mark.knowing_implies _)
  | _ => exact agrees_propertyIdentifier.strengthen (Mark.knowing_implies _)

theorem agrees_atImportAttributes (hmoved : m.moved = true) :
    Agrees w m (fun b => m.knowing fun s => b = true →
      (∃ name, s.current = .identifier name) ∧ s.peek.isPunct .leftBrace = true)
      fun _ => atImportAttributes := by
  refine (Agrees.answer fun s hs hm => ?_).weaken fun b s h => { h with known := ⟨h.known.1, ?_⟩ }
  · have hassert := (takes_name w m "assert").alike hs hm
    have hwith := (takes_name w m "with").alike hs hm
    cases hnamed : (s .left).current.isName "assert" || (s .left).current.isName "with" with
    | false => simp only [hassert, hwith, hnamed, Bool.false_and]
    | true =>
      have hlt : (s .left).pos < w.count := hs.lt_count <| by
        rcases Bool.or_eq_true_iff.mp hnamed with h | h <;> rw [eq_of_isName h] <;> rfl
      have hbrace := hs.apply_peek (fun _ => hlt) (·.isPunct .leftBrace) (fun _ _ => rfl)
        (by rintro _ ⟨⟩ <;> rfl)
      simp only [hassert, hwith, hnamed, hbrace, hs.newlineBefore (hm.moved hmoved)]
  · have hknown := h.known.2
    rintro rfl
    simp only [Bool.and_eq_true, Bool.or_eq_true] at hknown
    obtain ⟨⟨hnamed | hnamed, hbrace⟩, -⟩ := hknown
    · exact ⟨⟨_, eq_of_isName hnamed⟩, hbrace⟩
    · exact ⟨⟨_, eq_of_isName hnamed⟩, hbrace⟩

theorem agrees_skipImportAttributes (hmoved : m.moved = true) :
    Agrees w m (fun _ => m.forget) fun _ => skipImportAttributes := by
  unfold skipImportAttributes
  refine (agrees_atImportAttributes hmoved).seq fun attributes => .ite (fun hat => ?_) fun _ => ?_
  · refine Agrees.seq (Agrees.skip_to (P := fun t => t.isPunct .leftBrace = true) fun s hs => ?_)
      fun _ => ?_
    · obtain ⟨⟨name, hname⟩, hbrace⟩ := hs.2 hat
      rw [hname]
      exact ⟨rfl, rfl, hbrace⟩
    · refine (Agrees.skipToClose [.punct .rightBrace] fun s hs => ?_).weaken fun _ =>
        Mark.step_implies _
      rw [eq_of_isPunct hs.2]
      rfl
  · exact .pure () (fun _ => rfl) (Mark.implies_forget _)

theorem agrees_skipTypeWord : Agrees w m (fun _ => m.forget) fun _ => skipTypeWord := by
  unfold skipTypeWord
  refine (Agrees.check (takes_name w m "type")).seq fun named => ?_
  have hnone : Agrees w (m.knowing fun s => s.current.isName "type" = named) (fun _ => m.forget)
      fun _ => (pure () : Parser Unit) :=
    .pure () (fun _ => rfl) (Mark.implies_forget _)
  refine .ite (fun hnamed => ?_) fun _ => hnone
  have hcurrent : ∀ s : State, s.current.isName "type" = named → s.current = .identifier "type" :=
    fun s hs => eq_of_isName (hs.trans hnamed)
  have hskip : ∀ t, Agrees w ((m.knowing fun s => s.current.isName "type" = named).knowing
      fun s => s.peek = t) (fun _ => m.forget) fun _ => Parser.skip := fun t =>
    Agrees.relax (n := m) (.skip_identifier fun s hs => ⟨_, hcurrent s hs.1.2⟩)
  refine .peek (fun s hs => ?_) hnone (fun _ _ => rfl) (by rintro _ _ ⟨⟩ <;> rfl) fun t => ?_
  · rw [hcurrent s hs.2]
    rfl
  · cases t with
    | punct mark =>
      cases mark with
      | leftBrace => exact hskip _
      | star => exact hskip _
      | _ => exact hnone.strengthen (Mark.knowing_implies _)
    | identifier name =>
      exact .ite (fun _ => hskip _) fun _ => hnone.strengthen (Mark.knowing_implies _)
    | _ => exact hnone.strengthen (Mark.knowing_implies _)

theorem agrees_importSpecifier (hin : m.Inside w) :
    Agrees w m (fun _ => m.step) fun _ => importSpecifier := by
  unfold importSpecifier
  refine (Agrees.check (takes_name w m "type")).seq fun named => ?_
  refine .ask fun s hs hmark => ?_
  have hnext := hs.peek_alike (hmark.lt_count hs hin) (·.sameKind (.identifier "")) (fun _ _ => rfl)
    (by rintro _ ⟨⟩ <;> rfl)
  simp only [hnext]
  refine .skip_if (fun htype => .skip_identifier fun s hs => ?_) ?_
  · exact ⟨_, eq_of_isName (hs.1.2.trans (Bool.and_eq_true_iff.mp htype).1)⟩
  refine .span fun start => (agrees_moduleName (m := m.forget)).bind fun imported => ?_
  have hrest : ∀ localName : NodeId, Agrees w m.step (fun _ => m.step) fun i =>
      finish (start i) (.importSpecifier (w.id i imported) (w.id i localName)) :=
    fun localName => .finish (.importSpecifier imported localName) fun _ => rfl
  refine .eatIf_ite (takes_name w m.step "as") ?_ (hrest imported)
  exact (agrees_identifier.relax.weaken fun _ => Mark.step_implies _).bind hrest

theorem agrees_importDefault : Agrees w m (fun _ => m.forget) fun _ => importDefault := by
  unfold importDefault
  refine .check_ite (fun _ hs hm => (takes_named w m).alike hs hm) ?_
    (.pure [] (fun _ => rfl) m.implies_forget)
  refine .span fun start => Agrees.strengthen (n := m) ?_ (Mark.knowing_implies _)
  refine agrees_identifier.relax.bind fun localName => ?_
  refine (Agrees.finish (.importDefaultSpecifier localName) fun _ => rfl).bind fun specifier => ?_
  refine (Agrees.eat_relax (takes_mark w m.forget rfl rfl)).seq fun _ => ?_
  exact .pure [specifier] (fun _ => rfl) (.refl _)

theorem agrees_importNames : Agrees w m (fun _ => m.forget) fun _ => importNames := by
  unfold importNames
  have hstar : Takes w m (·.isPunct .star) m.level := takes_mark w m rfl rfl
  refine .check_ite (fun _ hs hm => hstar.alike hs hm) ?_ ?_
  · refine .span fun start => (Agrees.skip_of hstar).seq fun _ => ?_
    refine (Agrees.expectName (m := m.step) "as").relax.seq fun _ => ?_
    refine agrees_identifier.relax.bind fun localName => ?_
    refine (Agrees.finish (.importNamespaceSpecifier localName) fun _ => rfl).bind fun specifier => ?_
    exact .pure [specifier] (fun _ => rfl) (Mark.step_implies _)
  · refine .eatIf_ite (takes_open w m rfl rfl) ?_ (.pure [] (fun _ => rfl) (.refl _))
    refine (Agrees.commaSeparated (m := m.opened) (m.inside_opened w) _ fun j =>
      agrees_importSpecifier (m := m.opened.turn j) (m.inside_opened w)).bind fun specifiers => ?_
    refine (Agrees.expect_close _ rfl).relax.seq fun _ => ?_
    exact .pure specifiers (fun _ => rfl) (.refl _)

theorem agrees_importClause : Agrees w m (fun _ => m.forget) fun _ => importClause := by
  unfold importClause
  have hnames : Agrees w m (fun _ => m.forget) fun _ => (do
      let default ← importDefault
      let names ← importNames
      expectName "from"
      return default ++ names : Parser (List NodeId)) := by
    refine agrees_importDefault.bind fun default => ?_
    refine (agrees_importNames (m := m.forget)).bind fun names => ?_
    refine (Agrees.expectName (m := m.forget) "from").relax.seq fun _ => ?_
    exact .pure (default ++ names) (fun _ => List.map_append.symm) (.refl _)
  refine .token hnames (fun _ _ => rfl) (by rintro _ _ ⟨⟩ <;> rfl) fun t => ?_
  cases t with
  | string value =>
    exact .pure [] (fun _ => rfl) (Mark.implies_forget _)
  | _ => exact hnames.strengthen (Mark.knowing_implies _)

theorem agrees_importDeclaration (hin : m.Inside w) :
    Agrees w m (fun _ => m.step) fun _ => importDeclaration := by
  unfold importDeclaration
  refine .span fun start => (Agrees.expectKeyword .importWord).seq fun _ => ?_
  refine (agrees_skipTypeWord (m := m.step)).seq fun _ => ?_
  refine (agrees_importClause (m := m.step)).bind fun specifiers => ?_
  refine (agrees_stringLiteral (m := m.step)).relax.bind fun source => ?_
  refine (agrees_skipImportAttributes (m := m.step) rfl).seq fun _ => ?_
  refine (Agrees.consumeSemicolon (m := m.step) hin rfl).seq fun _ => ?_
  exact .finish (.importDeclaration specifiers source) fun _ => rfl

theorem agrees_exportSpecifier : Agrees w m (fun _ => m.step) fun _ => exportSpecifier := by
  unfold exportSpecifier
  refine .span fun start => agrees_moduleName.bind fun localName => ?_
  have hrest : ∀ exported : NodeId, Agrees w m.step (fun _ => m.step) fun i =>
      finish (start i) (.exportSpecifier (w.id i localName) (w.id i exported)) :=
    fun exported => .finish (.exportSpecifier localName exported) fun _ => rfl
  refine .eatIf_ite (takes_name w m.step "as") ?_ (hrest localName)
  exact (agrees_moduleName.relax.weaken fun _ => Mark.step_implies _).bind hrest

theorem agrees_defaultDeclaration (hg : Grammars k g) (hm : m.Within k) (hin : m.Inside w) :
    Agrees w m (fun _ => m.step) fun i => defaultDeclaration (g i) := by
  unfold defaultDeclaration
  have hfunction := agrees_functionDeclaration hg hm hin
  have hother : Agrees w m (fun _ => m.step) fun i => (do
      if ← atAsyncFunction then functionDeclaration (g i)
      else
        let e ← (g i).assignment
        consumeSemicolon
        return e) := by
    refine agrees_atAsyncFunction.seq fun async => .ite (fun _ => hfunction) fun _ => ?_
    refine (hg.assignment hm (hin.clears _)).bind fun e => ?_
    refine (Agrees.consumeSemicolon (m := m.step) hin rfl).seq fun _ => ?_
    exact .pure e (fun _ => rfl) (.refl _)
  refine .token hother (fun _ _ => rfl) (by rintro _ _ ⟨⟩ <;> rfl) fun t => ?_
  cases t with
  | keyword word =>
    cases word with
    | functionWord => exact hfunction.strengthen (Mark.knowing_implies _)
    | classWord => exact (agrees_classLike hg hm false).strengthen (Mark.knowing_implies _)
    | _ => exact hother.strengthen (Mark.knowing_implies _)
  | _ => exact hother.strengthen (Mark.knowing_implies _)

theorem agrees_exportAll (hin : m.Inside w) (hmoved : m.moved = true) (start : Side → Span) :
    Agrees w m (fun _ => m.forget) fun i => exportAll (start i) := by
  unfold exportAll
  have hexported : Agrees w m (fun _ => m.forget) fun _ => optionally (eatName "as") moduleName :=
    .optionally (.eatIf (takes_name w m "as"))
      (agrees_moduleName.relax.weaken fun _ => Mark.step_implies _) (.refl _)
  refine hexported.bind fun exported => ?_
  refine (Agrees.expectName (m := m.forget) "from").relax.seq fun _ => ?_
  refine (agrees_stringLiteral (m := m.forget)).relax.bind fun source => ?_
  refine (Agrees.consumeSemicolon (m := m.forget) hin hmoved).seq fun _ => ?_
  exact .finish (.exportAllDeclaration exported source) fun _ => rfl

theorem agrees_exportNames (hin : m.Inside w) (start : Side → Span) :
    Agrees w m.opened (fun _ => m.step) fun i => exportNames (start i) := by
  unfold exportNames
  refine (Agrees.commaSeparated (m := m.opened) (m.inside_opened w) _ fun j =>
    agrees_exportSpecifier).bind fun specifiers => ?_
  refine (Agrees.expect_close _ rfl).seq fun _ => ?_
  have hsource : Agrees w m.step (fun _ => m.step) fun _ =>
      optionally (eatName "from") stringLiteral :=
    .optionally (.eatIf (takes_name w m.step "from"))
      (agrees_stringLiteral.relax.weaken fun _ => Mark.step_implies _) (.refl _)
  refine hsource.bind fun source => ?_
  refine (Agrees.consumeSemicolon (m := m.step) hin rfl).seq fun _ => ?_
  exact .finish (.exportNamedDeclaration none specifiers source) fun _ => rfl

theorem agrees_exportDeclaration (hg : Grammars k g) (hm : m.Within k) (hin : m.Inside w) :
    Agrees w m (fun _ => m.step) fun i => exportDeclaration (g i) := by
  unfold exportDeclaration
  refine .span fun start => (Agrees.expectKeyword .exportWord).seq fun _ => ?_
  refine .eatIf_ite (takes_keyword w m.step _) ?_ ?_
  · refine ((agrees_defaultDeclaration hg (m := m.step.step) hm.step.step hin).relax.weaken
      fun _ => Mark.step_implies _).bind fun declaration => ?_
    exact .finish (.exportDefaultDeclaration declaration) fun _ => rfl
  refine .eatIf_ite (takes_mark w m.step rfl rfl) ?_ ?_
  · exact (agrees_exportAll (m := m.step.step) hin rfl start).weaken fun _ => Mark.step_implies _
  refine (Agrees.check (takes_name w m.step "type")).seq fun named => ?_
  refine .ask fun s hs hmark => ?_
  have hnext := hs.peek_alike (hmark.lt_count hs hin) (·.isPunct .leftBrace) (fun _ _ => rfl)
    (by rintro _ ⟨⟩ <;> rfl)
  simp only [hnext]
  refine .skip_if (fun htype => .skip_identifier fun s hs => ?_) ?_
  · exact ⟨_, eq_of_isName (hs.1.2.trans (Bool.and_eq_true_iff.mp htype).1)⟩
  refine .eatIf_ite (m := m.step) (takes_open w m.step rfl rfl) ?_ ?_
  · exact (agrees_exportNames (m := m.step) hin start).relax
  · refine (hg.statement (m := m.step) hm.step hin).relax.bind fun declaration => ?_
    exact .finish (.exportNamedDeclaration (some declaration) [] none) fun _ => rfl

/-- A statement that begins with a name, which is there. -/
theorem agrees_namedStatement (hg : Grammars k g) (hm : m.Within k) (hin : m.Inside w)
    (name : String) :
    Agrees w (m.knowing fun s => s.current = .identifier name) (fun _ => m.step)
      fun i => namedStatement (g i) name := by
  unfold namedStatement
  have hthere : ∀ s : State, s.current = .identifier name → s.current.isEof = false := by
    intro s hs
    rw [hs]
    rfl
  refine (Agrees.answer fun s hs hmark => ?_).seq fun sameLine => ?_
  · rw [hs.newlineAfter (hs.lt_count (hthere _ hmark.known.2))]
  have hexpression := agrees_expressionStatement hg hm hin
  refine .peek (m := (m.knowing _).knowing _) (fun s hs => hthere s hs.1.2) (hexpression.strengthen ?_)
    ?_ ?_ fun next => ?_
  · exact fun _ h => { h with known := h.known.1.1 }
  · intro i parts
    simp [Token.isKeyword, Token.sameKind, Token.isPunct, isWord]
  · rintro i _ ⟨⟩ <;> simp [Token.isKeyword, Token.sameKind, Token.isPunct, isWord]
  · have hforget : ∀ {p : Side → Parser NodeId}, Agrees w m (fun _ => m.step) p →
        Agrees w (((m.knowing fun s => s.current = .identifier name).knowing
          fun s => (!s.newlineBeforeAt (s.pos + 1)) = sameLine).knowing fun s => s.peek = next)
          (fun _ => m.step) p :=
      fun h => h.strengthen fun _ h => { h with known := h.known.1.1.1 }
    refine .ite (fun _ => hforget (agrees_functionDeclaration hg hm hin)) fun _ => ?_
    refine .ite (fun _ => hforget (agrees_typeAlias hg hm hin)) fun _ => ?_
    refine .ite (fun _ => hforget (agrees_interfaceDeclaration hg hm)) fun _ => ?_
    refine .ite (fun _ => ?_) fun _ => ?_
    · refine Agrees.seq (Agrees.skip_identifier fun s hs => ⟨name, hs.1.1.2⟩) fun _ => ?_
      exact (hg.statement (m := m.step) hm.step hin).relax
    · refine .ite (fun _ => hforget (agrees_labeledStatement hg hm hin)) fun _ => ?_
      exact hforget hexpression

theorem agrees_statement (hg : Grammars k g) (hm : m.Within (k + 1)) (hin : m.Inside w) :
    Agrees w m (fun _ => m.step) fun i => statement (g i) := by
  unfold statement
  refine .nested ?_
  have hn : m.deeper.Within k := hm.deeper
  have hin : m.deeper.Inside w := hin
  generalize m.deeper = m at hn hin
  have hexpression := agrees_expressionStatement hg hn hin
  have hforget : ∀ {t : Token} {p : Side → Parser NodeId}, Agrees w m (fun _ => m.step) p →
      Agrees w (m.knowing fun s => s.current = t) (fun _ => m.step) p :=
    fun h => h.strengthen (Mark.knowing_implies _)
  refine .token_inside hin hexpression (fun _ _ => rfl) (fun _ => rfl) fun t => ?_
  cases t with
  | punct mark =>
    cases mark with
    | leftBrace => exact hforget (agrees_block hg hn)
    | semicolon => exact agrees_word _ (fun _ => rfl) rfl rfl
    | _ => exact hforget hexpression
  | keyword word =>
    cases word with
    | varWord => exact agrees_variableStatement hg hn hin _
    | letWord => exact agrees_variableStatement hg hn hin _
    | constWord => exact agrees_variableStatement hg hn hin _
    | functionWord => exact hforget (agrees_functionDeclaration hg hn hin)
    | classWord => exact hforget (agrees_classLike hg hn false)
    | ifWord => exact hforget (agrees_ifStatement hg hn hin)
    | forWord => exact hforget (agrees_forStatement hg hn hin)
    | whileWord => exact hforget (agrees_whileStatement hg hn hin)
    | doWord => exact hforget (agrees_doWhileStatement hg hn hin)
    | returnWord => exact hforget (agrees_returnStatement hg hn hin)
    | breakWord => exact agrees_jumpStatement hin _ fun _ _ => rfl
    | continueWord => exact agrees_jumpStatement hin _ fun _ _ => rfl
    | throwWord => exact hforget (agrees_throwStatement hg hn hin)
    | tryWord => exact hforget (agrees_tryStatement hg hn)
    | switchWord => exact hforget (agrees_switchStatement hg hn)
    | debuggerWord => exact agrees_debuggerStatement hin _
    | importWord =>
      have himport := hforget (t := .keyword .importWord) (agrees_importDeclaration hin)
      refine .peek (fun s hs => ?_) himport (fun _ _ => rfl) (by rintro _ _ ⟨⟩ <;> rfl) fun t => ?_
      · rw [hs.2]
        rfl
      · refine .ite (fun _ => ?_) fun _ => ?_
        · exact himport.strengthen (Mark.knowing_implies _)
        · exact (hforget hexpression).strengthen (Mark.knowing_implies _)
    | exportWord => exact hforget (agrees_exportDeclaration hg hn hin)
    | _ => exact hforget hexpression
  | identifier name => exact agrees_namedStatement hg hn hin name
  | _ => exact hforget hexpression

end Parse
end ScriptLint
