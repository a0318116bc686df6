import ScriptLint.Proofs.Parse.Alike
import ScriptLint.Proofs.Parse.Climbing

namespace ScriptLint
namespace Parse

open ScriptLint.Parser

variable {α β : Type} {g : Grammar} {c : Site} {s s' : State} {n : Nat}

/-- A token that is not left of another one stood there before. -/
theorem Later.tokenAt_eq (h : Later s s') {i : Nat} (hwhole : ¬ IsRemainder (s'.tokenAt i)) :
    s.tokenAt i = s'.tokenAt i := by
  unfold State.tokenAt at *
  cases hb : s'.tokens[i]? with
  | none =>
    have ha : s.tokens[i]? = none := by
      rw [Array.getElem?_eq_none_iff] at hb ⊢
      rwa [← h.tokens.size]
    rw [ha]
  | some b =>
    obtain ⟨a, ha, hremains⟩ := h.tokens.before hb
    rw [hb] at hwhole
    rw [ha, hremains.eq hwhole]

/-- No `in` stands at the cursor or after it. -/
def State.Clear (s : State) : Prop := ∀ i, s.pos ≤ i → s.tokenAt i ≠ .keyword .inWord

theorem not_isRemainder_keyword (word : Keyword) : ¬ IsRemainder (.keyword word) := by
  rintro ⟨t, h⟩
  unfold afterClosingAngle at h
  split at h <;> simp at h

/-- Neither the brace nor the arrow before the body of a function is left of another token. -/
theorem not_isRemainder_opening {t : Token} (h : t = .punct .leftBrace ∨ t = .punct .arrow) :
    ¬ IsRemainder t := by
  rintro ⟨t', hcut⟩
  unfold afterClosingAngle at hcut
  rcases h with rfl | rfl
  · split at hcut <;> simp at hcut
  · split at hcut <;> simp at hcut

theorem State.Clear.later (h : s.Clear) (hs' : Later s s') : s'.Clear := by
  intro i hi hin
  have heq := hs'.tokenAt_eq (i := i) (by rw [hin]; exact not_isRemainder_keyword _)
  exact h i (hs'.pos_le.trans hi) (heq.trans hin)

/-- All constructs do the same either way where no `in` is ahead. -/
theorem alikeOn_clear (n : Nat) : AlikeOn (Grammar.upTo n) true State.Clear :=
  alikeOn_upTo State.Clear.later (fun _ s h => h s.pos le_rfl) (fun hr => Bool.noConfusion hr) n

/-- The bodies of functions that may be ahead are read the same either way: what stands in braces
after a signature or an arrow, and what stands without them after an arrow. -/
structure State.BodiesAlike (s : State) : Prop where
  function : ∀ n {s'}, Later s s' → BeforeBody (Grammar.upTo n) s' →
    s'.current = .punct .leftBrace → Alike (block (Grammar.upTo n)) s'
  arrow : ∀ n {s'}, Later s s' → s'.current = .punct .arrow →
    s'.advance.current = .punct .leftBrace → Alike (block (Grammar.upTo n)) s'.advance
  expression : ∀ n {s'}, Later s s' → s'.current = .punct .arrow →
    s'.advance.current ≠ .punct .leftBrace → Alike (Grammar.upTo n).assignment s'.advance

theorem State.BodiesAlike.later (h : s.BodiesAlike) (hs' : Later s s') : s'.BodiesAlike :=
  ⟨fun n _ hs'' => h.function n (hs'.trans hs''), fun n _ hs'' => h.arrow n (hs'.trans hs''),
    fun n _ hs'' => h.expression n (hs'.trans hs'')⟩

/-- Without its brace a block fails at once. -/
theorem alike_block (h : s.current = .punct .leftBrace → Alike (block g) s) :
    Alike (block g) s := by
  by_cases hbrace : s.current = .punct .leftBrace
  · exact h hbrace
  · refine .ask (fun _ _ => rfl) (.bind (Steady.expect .leftBrace s).alike fun _ s' hexpect => ?_)
    exact absurd (eq_of_expect hexpect).1 hbrace

/-- Where no `in` stands after the first brace or arrow that is ahead, all bodies are read the same
either way. -/
theorem bodiesAlike_of_clear (h : ∀ i j, s.pos ≤ i → i ≤ j →
    s.tokenAt i = .punct .leftBrace ∨ s.tokenAt i = .punct .arrow →
      s.tokenAt j ≠ .keyword .inWord) : s.BodiesAlike := by
  have hclear : ∀ {s'}, Later s s' →
      s'.current = .punct .leftBrace ∨ s'.current = .punct .arrow → s'.Clear := by
    intro s' hs' hopens j hj hin
    have hopens' : s.tokenAt s'.pos = s'.current :=
      hs'.tokenAt_eq (not_isRemainder_opening hopens)
    refine h s'.pos j hs'.pos_le hj (hopens' ▸ hopens) ?_
    rw [hs'.tokenAt_eq (hin ▸ not_isRemainder_keyword _), hin]
  have hblock : ∀ n {s : State}, s.Clear → Alike (block (Grammar.upTo n)) s := fun n s hs =>
    (composed_block (r := true) (.inl rfl)).alike (c := .opening) (Grammar.sound_upTo n)
      (alikeOn_clear n) trivial hs
  have hadvance : ∀ s' : State, Later s' s'.advance := fun s' => .of_frame (.advance s')
  refine ⟨fun n s' hs' _ hbrace => hblock n (hclear hs' (.inl hbrace)),
    fun n s' hs' harrow _ => hblock n ((hclear hs' (.inr harrow)).later (hadvance s')),
    fun n s' hs' harrow _ => ?_⟩
  exact (alikeOn_clear n).counted .assignment ((hclear hs' (.inr harrow)).later (hadvance s'))

theorem alikeOn_bodies (n : Nat) : AlikeOn (Grammar.upTo n) false State.BodiesAlike :=
  alikeOn_upTo State.BodiesAlike.later (fun hr => Bool.noConfusion hr)
    (fun _ n _ h hbody => alike_block (h.function n (.refl _) hbody)) n

/-- An arrow function does the same either way if its body does. -/
theorem alike_arrowFunction (h : s.BodiesAlike) : Alike (arrowFunction (Grammar.upTo n)) s := by
  have hg := Grammar.sound_upTo n
  have hpart : ∀ {α} {p : Parser α} {moves : α → Bool},
      Composed (Grammar.upTo n) false .opening p moves →
      ∀ {s : State}, s.BodiesAlike → Steady p s := fun hp _ hs =>
        hp.steady hg (alikeOn_bodies n) trivial hs
  refine .ask (fun _ _ => rfl) (.ask (fun _ _ => rfl) (.ask (fun _ _ => rfl) ?_))
  refine (Steady.skip s).when fun s₁ hs₁ => ?_
  have h₁ := h.later hs₁
  refine (hpart composed_skipTypeParameters h₁).bind fun _ s₂ hs₂ => ?_
  have h₂ := h₁.later hs₂
  refine .ask (fun _ _ => rfl) (Steady.either ?_ ?_ fun params s₃ hs₃ => ?_)
  · exact hpart (.map composed_identifier) h₂
  · exact hpart (composed_formalParameters hg) h₂
  have h₃ := h₂.later hs₃
  refine (hpart composed_typeAscription? h₃).bind fun type s₄ hs₄ => ?_
  have h₄ := h₃.later hs₄
  refine .bind (Steady.expect .arrow s₄).alike fun _ s₅ hexpect => ?_
  obtain ⟨harrow, rfl⟩ := eq_of_expect hexpect
  refine .ask (fun _ _ => rfl) ?_
  split
  · next hbrace =>
    have hblock := h₄.arrow n (.refl s₄) harrow (eq_of_isPunct hbrace)
    exact .bind hblock fun body s₆ _ _ => rfl
  · next hbrace =>
    refine .bind (h₄.expression n (.refl s₄) harrow fun heq => hbrace ?_) fun body s₆ _ _ => rfl
    rw [heq]
    rfl

/-- The parser takes all tokens that are ahead. -/
def TakesAll (p : Parser NodeId) (s : State) : Prop :=
  ∃ id s', p s = (.ok id, s') ∧ s'.current = .eof

/-- A function or a class begins at the cursor. -/
def State.AtFunction (s : State) : Prop :=
  s.current = .keyword .functionWord ∨ s.current = .keyword .classWord ∨
    ∃ name, s.current = .identifier name ∧ s.peek = .keyword .functionWord

theorem bind_eq_self {p : Parser α} {f : α → Parser α}
    (h : ∀ a s', p s = (.ok a, s') → f a s' = (.ok a, s')) : (p >>= f) s = p s := by
  match hrun : p s with
  | (.ok a, s') => rw [bind_of_ok hrun, h a s' hrun]
  | (.error e, s') => rw [bind_of_error hrun]

theorem nested_congr {p q : Parser α}
    (h : p { s with depth := s.depth + 1 } = q { s with depth := s.depth + 1 }) :
    nested p s = nested q s := by
  by_cases hdeep : maxDepth ≤ s.depth
  · simp only [nested, enter, if_pos hdeep]
  · simp only [nested, enter, if_neg hdeep, h]

/-- No operator stands at the end. -/
theorem infixTail?_eof (heof : s.current = .eof) (least : Precedence) (start : Span)
    (left : NodeId) :
    infixTail? g least start left s = (.ok none, s) := by
  have has : checkName "as" s = (.ok false, s) := by
    simp [checkName, Parser.ask, heof, Token.isName]
  have hnewline : newlineBefore s = (.ok s.newlineBefore, s) := rfl
  have hallows : Parser.ask State.allowIn s = (.ok s.allowIn, s) := rfl
  have hcurrent : current s = (.ok .eof, s) := by rw [← heof]; rfl
  rw [infixTail?, bind_of_ok has, bind_of_ok hnewline]
  change (Parser.ask State.allowIn >>= _) s = _
  rw [bind_of_ok hallows, bind_of_ok hcurrent]
  rfl

section Ends

variable (hend : ∀ id s', unary g s = (.ok id, s') → s'.current = .eof)

include hend

theorem binary_eq_unary (least : Precedence) : binary g least s = unary g s := by
  refine bind_eq_self fun first s' hrun => loop_of_stop ?_
  rw [bind_of_ok (infixTail?_eof (hend first s' hrun) _ _ _)]
  rfl

theorem conditional_eq_unary : conditional g s = unary g s := by
  rw [← binary_eq_unary hend .nullCoalescing]
  refine bind_eq_self fun test s' hrun => ?_
  have heof := hend test s' (binary_eq_unary hend _ ▸ hrun)
  have heat : eat .question s' = (.ok false, s') := by
    simp [eat, eatIf, heof, Token.isPunct]
  rw [bind_of_ok heat]
  rfl

theorem plainAssignment_eq_unary (hyield : s.current.isKeyword .yieldWord = false) :
    plainAssignment g s = unary g s := by
  have hcheck : checkKeyword .yieldWord s = (.ok false, s) := by
    simp [checkKeyword, Parser.ask, hyield]
  rw [plainAssignment, bind_of_ok hcheck, ← conditional_eq_unary hend]
  refine bind_eq_self fun left s' hrun => ?_
  have heof := hend left s' (conditional_eq_unary hend ▸ hrun)
  have hcurrent : current s' = (.ok .eof, s') := by rw [← heof]; rfl
  rw [bind_of_ok hcurrent]
  rfl

end Ends

theorem unaryOperand_of_atFunction (h : s.AtFunction) :
    unaryOperand g s = postfixExpression g s := by
  have hawait : s.current.isKeyword .awaitWord = false := by
    rcases h with h | h | ⟨name, h, -⟩ <;> rw [h] <;> rfl
  have heat : eatKeyword .awaitWord s = (.ok false, s) := by
    simp [eatKeyword, eatIf, hawait]
  have hcurrent : current s = (.ok s.current, s) := rfl
  rw [unaryOperand, bind_of_ok (currentSpan_apply _), bind_of_ok hcurrent]
  rcases h with h | h | ⟨name, h, -⟩
  all_goals
    rw [h]
    change (eatKeyword .awaitWord >>= _) s = _
    rw [bind_of_ok heat]
    rfl

theorem postfixExpression_of_takesAll (h : TakesAll (leftHandSide g) s) :
    postfixExpression g s = leftHandSide g s := by
  obtain ⟨id, s', hrun, heof⟩ := h
  refine bind_eq_self fun argument s'' hrun' => ?_
  obtain ⟨rfl, rfl⟩ : id = argument ∧ s' = s'' := by simpa [hrun] using hrun'
  have hcurrent : current s' = (.ok .eof, s') := by rw [← heof]; rfl
  rw [bind_of_ok hcurrent]
  rfl

theorem arrowGuess_of_atFunction (h : s.AtFunction) : arrowGuess s = .no := by
  have htoken : s.tokenAt s.pos = s.current := rfl
  have hnext : s.tokenAt (s.pos + 1) = s.peek := rfl
  rcases h with h | h | ⟨name, h, hpeek⟩
  · simp [arrowGuess, htoken, h, Token.isName]
  · simp [arrowGuess, htoken, h, Token.isName]
  · simp [arrowGuess, htoken, hnext, h, hpeek, Token.isPunct]

/-- One level further in, the same tokens are taken. -/
theorem TakesAll.current_nested {p : Parser NodeId} {id : NodeId}
    (h : TakesAll p { s with depth := s.depth + 1 }) (hrun : nested p s = (.ok id, s')) :
    s'.current = .eof := by
  obtain ⟨id', s'', hinner, heof⟩ := h
  by_cases hdeep : maxDepth ≤ s.depth
  · simp [nested, enter, if_pos hdeep] at hrun
  · simp only [nested, enter, if_neg hdeep, hinner, Prod.mk.injEq] at hrun
    obtain ⟨-, rfl⟩ := hrun
    exact heof

/-- The text of a function or class is read as one, two levels further in. -/
theorem assignment_of_atFunction (h : s.AtFunction)
    (htext : TakesAll (leftHandSide g) { s with depth := s.depth + 2 }) :
    assignment g s = nested (nested (leftHandSide g)) s := by
  have hinner : ({ s with depth := s.depth + 1 } : State).AtFunction := h
  have hoperand : ({ s with depth := s.depth + 2 } : State).AtFunction := h
  have hunary : unary g { s with depth := s.depth + 1 } =
      nested (leftHandSide g) { s with depth := s.depth + 1 } :=
    nested_congr ((unaryOperand_of_atFunction hoperand).trans (postfixExpression_of_takesAll htext))
  refine nested_congr ?_
  have hguess : Parser.ask arrowGuess { s with depth := s.depth + 1 } =
      (.ok .no, { s with depth := s.depth + 1 }) :=
    congrArg (fun guess => (Except.ok guess, { s with depth := s.depth + 1 }))
      (arrowGuess_of_atFunction hinner)
  rw [bind_of_ok hguess, ← hunary]
  refine plainAssignment_eq_unary (fun id s' hrun => ?_) ?_
  · rw [hunary] at hrun
    exact TakesAll.current_nested htext hrun
  · rcases hinner with h | h | ⟨name, h, -⟩ <;> rw [h] <;> rfl

/-- The text of an arrow function is read as one, one level further in. -/
theorem assignment_of_arrowGuess (h : arrowGuess s ≠ .no)
    (htext : TakesAll (arrowFunction g) { s with depth := s.depth + 1 }) :
    assignment g s = nested (arrowFunction g) s := by
  obtain ⟨id, s', hrun, -⟩ := htext
  refine nested_congr ?_
  have hguess : Parser.ask arrowGuess { s with depth := s.depth + 1 } =
      (.ok (arrowGuess s), { s with depth := s.depth + 1 }) := rfl
  rw [bind_of_ok hguess]
  cases hcase : arrowGuess s with
  | yes => rfl
  | maybe =>
    have hattempt : attempt (arrowFunction g) { s with depth := s.depth + 1 } =
        (.ok (some id), s') := by
      simp only [attempt, hrun]
    change (attempt (arrowFunction g) >>= _) _ = _
    rw [bind_of_ok hattempt, hrun]
    rfl
  | no => exact absurd hcase h

theorem Alike.takesAll {p : Parser NodeId} (h : Alike p s) (htext : TakesAll p s) (allowIn : Bool) :
    TakesAll p { s with allowIn } := by
  obtain ⟨id, s', hrun, heof⟩ := htext
  refine ⟨id, { s' with allowIn }, ?_, heof⟩
  rw [h allowIn, hrun]

/-- The text of a function or class, with its accesses and calls, and that of an arrow function are
the same expressions whether `in` is an operator outside of them or not, if their bodies are. -/
theorem alike_assignment_of_bodiesAlike (n : Nat) (h : s.BodiesAlike)
    (htext : s.AtFunction ∧
        TakesAll (leftHandSide (Grammar.upTo n)) { s with depth := s.depth + 2 } ∨
      arrowGuess s ≠ .no ∧
        TakesAll (arrowFunction (Grammar.upTo n)) { s with depth := s.depth + 1 }) :
    Alike (assignment (Grammar.upTo n)) s := by
  intro allowIn
  rcases htext with ⟨hat, htext⟩ | ⟨hguess, htext⟩
  · have halike : Alike (leftHandSide (Grammar.upTo n)) { s with depth := s.depth + 2 } :=
      (composed_leftHandSide (Grammar.sound_upTo n)).alike (c := .opening) (Grammar.sound_upTo n)
        (alikeOn_bodies n) trivial (h.later ⟨rfl, .refl _, le_rfl, id⟩)
    have hat' : ({ s with allowIn } : State).AtFunction := hat
    rw [assignment_of_atFunction hat htext,
      assignment_of_atFunction hat' (halike.takesAll htext allowIn)]
    exact Alike.nested (Alike.nested halike) allowIn
  · have halike : Alike (arrowFunction (Grammar.upTo n)) { s with depth := s.depth + 1 } :=
      alike_arrowFunction (h.later ⟨rfl, .refl _, le_rfl, id⟩)
    have hguess' : arrowGuess { s with allowIn } ≠ .no := hguess
    rw [assignment_of_arrowGuess hguess htext,
      assignment_of_arrowGuess hguess' (halike.takesAll htext allowIn)]
    exact Alike.nested halike allowIn

theorem eq_of_isEof {t : Token} (h : t.isEof = true) : t = .eof := by
  cases t <;> simp_all [Token.isEof]

theorem exists_start_of_any {source : List Char} {test : State → Bool}
    (h : (Parse.start source).toOption.any test = true) :
    ∃ s, Parse.start source = .ok s ∧ test s = true := by
  cases hstart : Parse.start source with
  | ok s =>
    rw [hstart] at h
    exact ⟨s, rfl, h⟩
  | error errors =>
    rw [hstart] at h
    cases h

private theorem exists_parameter :
    ∃ s, Parse.start "function (a = x in y) { return a }".toList = .ok s ∧ s.AtFunction ∧
      TakesAll (leftHandSide (Grammar.upTo 8)) { s with depth := s.depth + 2 } ∧
      ∀ i < s.tokens.size, ∀ j < s.tokens.size, i ≤ j →
        ((s.tokenAt i).isPunct .leftBrace || (s.tokenAt i).isPunct .arrow) = true →
          (s.tokenAt j).isKeyword .inWord = false := by
  have hrun : (Parse.start "function (a = x in y) { return a }".toList).toOption.any (fun s =>
      s.current.isKeyword .functionWord &&
      (leftHandSide (Grammar.upTo 8) { s with depth := s.depth + 2 }).1.toBool &&
      (leftHandSide (Grammar.upTo 8) { s with depth := s.depth + 2 }).2.current.isEof &&
      decide (∀ i < s.tokens.size, ∀ j < s.tokens.size, i ≤ j →
        ((s.tokenAt i).isPunct .leftBrace || (s.tokenAt i).isPunct .arrow) = true →
          (s.tokenAt j).isKeyword .inWord = false)) = true := by decide +kernel
  obtain ⟨s, hstart, hrun⟩ := exists_start_of_any hrun
  simp only [Bool.and_eq_true, decide_eq_true_eq] at hrun
  obtain ⟨⟨⟨hword, haccepts⟩, heof⟩, hclear⟩ := hrun
  obtain ⟨id, htext⟩ := exists_of_toBool haccepts
  refine ⟨s, hstart, .inl (eq_of_isKeyword hword), ⟨id, _, ?_, eq_of_isEof heof⟩, hclear⟩
  rw [← htext]

/-- An `in` among the parameters of a function is an operator everywhere. -/
theorem alike_assignment_of_bodiesAlike_parameter :
    ∃ s, Parse.start "function (a = x in y) { return a }".toList = .ok s ∧
      Alike (assignment (Grammar.upTo 8)) s := by
  obtain ⟨s, hstart, hat, htext, hclear⟩ := exists_parameter
  refine ⟨s, hstart,
    alike_assignment_of_bodiesAlike 8 (bodiesAlike_of_clear ?_) (.inl ⟨hat, htext⟩)⟩
  intro i j _ hij hopens hin
  have hopens' : ((s.tokenAt i).isPunct .leftBrace || (s.tokenAt i).isPunct .arrow) = true := by
    rcases hopens with h | h <;> simp [h, Token.isPunct]
  have hj : j < s.tokens.size := by
    by_contra hj
    simp [State.tokenAt, Array.getElem?_eq_none (Nat.le_of_not_lt hj)] at hin
  have hfalse := hclear i (hij.trans_lt hj) j hj hij hopens'
  simp [hin, Token.isKeyword] at hfalse

theorem exists_functionExpression {node : Node} (h : node.nodeType = .functionExpression) :
    ∃ f, node = .functionExpression f := by
  cases node with
  | functionExpression f => exact ⟨f, rfl⟩
  | typeWord word => cases word <;> cases h
  | _ => cases h

/-- The body of a function takes over from around it that `in` is no operator, so that it fails to
parse in the head of a loop. -/
theorem not_alike_assignment : ¬ ∀ (n : Nat) (s s' : State) (id : NodeId) (f : ScriptLint.Function),
    s.allowIn = true → assignment (Grammar.upTo n) s = (.ok id, s') → s'.current = .eof →
      s'.tree.node id = .functionExpression f →
        assignment (Grammar.upTo n) { s with allowIn := false } =
          (.ok id, { s' with allowIn := false }) := by
  intro hsame
  have hrun : (Parse.start "function () { a in b }".toList).toOption.any (fun s => s.allowIn &&
      (assignment (Grammar.upTo 8) s).1.toOption.any (fun id => decide
        (((assignment (Grammar.upTo 8) s).2.tree.node id).nodeType = .functionExpression)) &&
      (assignment (Grammar.upTo 8) s).2.current.isEof &&
      !(assignment (Grammar.upTo 8) { s with allowIn := false }).1.toBool) = true := by
    decide +kernel
  obtain ⟨s, -, hrun⟩ := exists_start_of_any hrun
  simp only [Bool.and_eq_true] at hrun
  obtain ⟨⟨⟨hallow, hnode⟩, heof⟩, hrejects⟩ := hrun
  rcases run_cases (assignment (Grammar.upTo 8)) s with ⟨id, s', haccepts⟩ | ⟨e, s', haccepts⟩
  · rw [haccepts] at hnode heof
    obtain ⟨f, hf⟩ := exists_functionExpression (of_decide_eq_true hnode)
    have hrun' := hsame 8 s s' id f hallow haccepts (eq_of_isEof heof) hf
    rw [hrun'] at hrejects
    cases hrejects
  · rw [haccepts] at hnode
    cases hnode

end Parse
end ScriptLint
