import ScriptLint.Proofs.Parse.Composed.Statement
import ScriptLint.Proofs.Parse.Twin.Template

namespace ScriptLint
namespace Parse

open ScriptLint.Parser

variable {α β σ : Type} {g : Grammar} {c : Site} {n lo : Nat} {s s' s'' : State} {m m' : Bool}

/-- A measure of the tokens that are left gets no larger. -/
theorem Frame.total_le (h : Frame s s') {f : Token → Nat}
    (hf : ∀ t t', afterClosingAngle t = some t' → f t' ≤ f t) : s'.total f ≤ s.total f := by
  have hjump : s'.total f ≤ { s with tokens := s'.tokens }.total f :=
    State.total_jump_le { s with tokens := s'.tokens } f h.pos_le
  exact hjump.trans (s.total_withTokens_le hf h.tokens)

/-- Trees apart, the state changes only as parsers change it. Less is left of the tokens if one
was taken, or an angle of one. -/
structure Proceeds (s s' : State) (moved : Bool) : Prop where
  frame : Frame s { s' with tree := s.tree }
  reach : s'.reach + moved.toNat ≤ s.reach
  steps : s'.steps + moved.toNat ≤ s.steps

namespace Proceeds

theorem of_frame (h : Frame s { s' with tree := s.tree }) : Proceeds s s' false where
  frame := h
  reach := by
    have htotal : s'.total mass ≤ s.total mass := h.total_le mass_le_of_afterClosingAngle
    have hdepth : s'.depth = s.depth := h.depth
    simp only [State.reach, hdepth, Bool.toNat_false, Nat.add_zero]
    omega
  steps := h.total_le pieces_le_of_afterClosingAngle

theorem refl (s : State) : Proceeds s s false := of_frame (.refl s)

theorem withTree (s : State) (tree : Tree) : Proceeds s { s with tree } false := of_frame (.refl s)

theorem weaken (h : Proceeds s s' m) (hm : m' = true → m = true) : Proceeds s s' m' := by
  have hle : m'.toNat ≤ m.toNat := Bool.toNat_le_toNat (Bool.le_iff_imp.mpr hm)
  exact ⟨h.frame, (Nat.add_le_add_left hle _).trans h.reach,
    (Nat.add_le_add_left hle _).trans h.steps⟩

theorem still (h : Proceeds s s' m) : Proceeds s s' false := h.weaken nofun

theorem trans (h : Proceeds s s' m) (h' : Proceeds s' s'' m') {m'' : Bool}
    (hm : m'' = true → m = true ∨ m' = true) : Proceeds s s'' m'' := by
  have hle : m''.toNat ≤ m.toNat + m'.toNat := by cases m'' <;> cases m <;> simp_all
  refine ⟨h.frame.trans ⟨h'.frame.source, h'.frame.tokens, h'.frame.pos_le, h'.frame.pos_lt,
    .refl _, h'.frame.errors, h'.frame.depth, h'.frame.allowIn⟩, ?_, ?_⟩
  · have hreach := h.reach
    have hreach' := h'.reach
    omega
  · have hsteps := h.steps
    have hsteps' := h'.steps
    omega

theorem ready (h : Proceeds s s' m) (hs : s.Ready) : s'.Ready :=
  (h.frame.ready hs).congr rfl rfl (h.frame.ready hs).pos_lt

theorem here_le (h : Proceeds s s' m) (hs : s.Ready) : s.here ≤ s'.here := h.frame.here_le hs

/-- Taking any token but the last one leaves less. -/
theorem advance (hs : s.Ready) (heof : s.current ≠ .eof) : Proceeds s s.advance true := by
  have hpos : s.advance.pos = s.pos + 1 :=
    pos_advance hs (by cases h : s.current <;> simp_all [Token.isEof])
  have hadvance : s.advance = { s with pos := s.pos + 1 } := by
    unfold State.advance at hpos ⊢
    split_ifs at hpos ⊢
    · rfl
    · omega
  have hmass := mass_pos s.current
  have hpieces := pieces_pos s.current
  refine ⟨(Frame.advance s).withTree (.refl _), ?_, ?_⟩
  · rw [hadvance]
    simp only [State.reach, State.total_eq_add mass hs.pos_lt, Bool.toNat_true]
    omega
  · rw [hadvance]
    simp only [State.steps, State.total_eq_add pieces hs.pos_lt, Bool.toNat_true]
    omega

theorem splitCurrent (hs : s.Ready) {rest : Token}
    (hcut : afterClosingAngle s.current = some rest) :
    Proceeds s (s.splitCurrent rest) true := by
  obtain ⟨hpieces, hmass⟩ := pieces_of_afterClosingAngle hcut
  have hdepth : (s.splitCurrent rest).depth = s.depth := rfl
  refine ⟨(Frame.splitCurrent s hcut).withTree (.refl _), ?_, ?_⟩
  · simp only [State.reach, State.total_eq_add mass hs.pos_lt,
      State.total_splitCurrent mass hs.pos_lt,
      hdepth, Bool.toNat_true]
    omega
  · simp only [State.steps, State.total_eq_add pieces hs.pos_lt,
      State.total_splitCurrent pieces hs.pos_lt, Bool.toNat_true]
    omega

/-- Back from one level deeper. -/
theorem leave (h : Proceeds { s with depth := s.depth + 1 } s' m) (hdeep : ¬ maxDepth ≤ s.depth) :
    Proceeds s { s' with depth := s'.depth - 1 } m := by
  have hdepth : s'.depth = s.depth + 1 := h.frame.depth
  have hreach := h.reach
  refine ⟨⟨h.frame.source, h.frame.tokens, h.frame.pos_le, h.frame.pos_lt, .refl _, h.frame.errors,
    ?_, h.frame.allowIn⟩, ?_, h.steps⟩
  · show s'.depth - 1 = s.depth
    omega
  · change (maxDepth - s'.depth) + s'.total mass + m.toNat ≤
      (maxDepth - (s.depth + 1)) + s.total mass at hreach
    change (maxDepth - (s'.depth - 1)) + s'.total mass + m.toNat ≤
      (maxDepth - s.depth) + s.total mass
    omega

/-- What `in` means inside a parser does not show outside of it. -/
theorem within {allowIn : Bool} (h : Proceeds { s with allowIn } s' m) :
    Proceeds s { s' with allowIn := s.allowIn } m :=
  ⟨⟨h.frame.source, h.frame.tokens, h.frame.pos_le, h.frame.pos_lt, .refl _, h.frame.errors,
    h.frame.depth, rfl⟩, h.reach, h.steps⟩

end Proceeds

/-- An error stands between an offset and the cursor, and says what is wrong there. -/
structure Found (lo : Nat) (e : ParseError) (s : State) : Prop where
  lo_le : lo ≤ e.span.start
  le_here : e.span.start ≤ s.here
  not_exhausted : ¬ e.Exhausted

theorem found_unexpected (hlo : lo ≤ s.here) (expected : List Token) :
    Found lo (s.unexpected expected) s := by
  unfold State.unexpected
  split
  · exact ⟨hlo, le_rfl, by simp [ParseError.Exhausted]⟩
  · exact ⟨hlo, le_rfl, by simp [ParseError.Exhausted]⟩

/-- Run from `s`, the parser gives a value after which it has proceeded, or it fails with an error
that is found by then. -/
def Answers (lo : Nat) (s : State) (p : Parser α) (moves : α → Bool) : Prop :=
  match p s with
  | (.ok a, s') => Proceeds s s' (moves a)
  | (.error e, s') => Proceeds s s' false ∧ Found lo e s'

namespace Answers

variable {p : Parser α} {f : α → Parser β} {first moves moves' : α → Bool} {e : ParseError} {a : α}

theorem of_ok (hrun : p s = (.ok a, s')) (h : Proceeds s s' (moves a)) : Answers lo s p moves := by
  simp only [Answers, hrun]
  exact h

theorem of_error (hrun : p s = (.error e, s')) (h : Proceeds s s' false) (he : Found lo e s') :
    Answers lo s p moves := by
  simp only [Answers, hrun]
  exact ⟨h, he⟩

theorem ok (h : Answers lo s p moves) (hrun : p s = (.ok a, s')) : Proceeds s s' (moves a) := by
  simpa only [Answers, hrun] using h

theorem error (h : Answers lo s p moves) (hrun : p s = (.error e, s')) :
    Proceeds s s' false ∧ Found lo e s' := by
  simpa only [Answers, hrun] using h

theorem congr {q : Parser α} (hrun : p s = q s) (h : Answers lo s q moves) :
    Answers lo s p moves := by
  simpa only [Answers, hrun] using h

theorem weaken (h : Answers lo s p moves) (hmoves : ∀ a, moves' a = true → moves a = true) :
    Answers lo s p moves' := by
  match hrun : p s with
  | (.ok a, s') => exact .of_ok hrun ((h.ok hrun).weaken (hmoves a))
  | (.error e, s') => exact .of_error hrun (h.error hrun).1 (h.error hrun).2

theorem follow {moves : β → Bool} (hp : Answers lo s p first)
    (hf : ∀ a s', p s = (.ok a, s') → Proceeds s s' (first a) →
      Answers lo s' (f a) fun b => !first a && moves b) : Answers lo s (p >>= f) moves := by
  match hrun : p s with
  | (.error e, s') => exact .of_error (bind_of_error hrun) (hp.error hrun).1 (hp.error hrun).2
  | (.ok a, s') =>
    have hfirst := hp.ok hrun
    have hrest := hf a s' hrun hfirst
    match hrun' : f a s' with
    | (.error e, s'') =>
      exact .of_error ((bind_of_ok hrun).trans hrun') (hfirst.trans (hrest.error hrun').1 nofun)
        (hrest.error hrun').2
    | (.ok b, s'') =>
      refine .of_ok ((bind_of_ok hrun).trans hrun') (hfirst.trans (hrest.ok hrun') fun hb => ?_)
      cases hmoved : first a with
      | true => exact .inl rfl
      | false => exact .inr (by rw [hb]; rfl)

theorem bind {moves : β → Bool} (hp : Answers lo s p first)
    (hf : ∀ a s', Proceeds s s' (first a) → Answers lo s' (f a) fun b => !first a && moves b) :
    Answers lo s (p >>= f) moves :=
  .follow hp fun a s' _ => hf a s'

/-- Of two parsers one after the other the second takes a token, if it has to. -/
theorem seq {moves : β → Bool} (hp : Answers lo s p first)
    (hf : ∀ a s', Proceeds s s' (first a) → Answers lo s' (f a) moves) :
    Answers lo s (p >>= f) moves :=
  .bind hp fun a s' hs' => (hf a s' hs').weaken fun _ hb => (Bool.and_eq_true_iff.mp hb).2

/-- A question and what follows it. -/
theorem ask {γ : Type} {f : State → γ} {k : γ → Parser α} (h : Answers lo s (k (f s)) moves) :
    Answers lo s (Parser.ask f >>= k) moves := h

theorem pure (a : α) (h : moves a = false) : Answers lo s (Pure.pure a) moves := by
  refine .of_ok (a := a) rfl ?_
  rw [h]
  exact .refl s

theorem still (a : α) : Answers lo s (Pure.pure a) fun _ => false := .pure a rfl

theorem unexpected (hlo : lo ≤ s.here) (expected : List Token) :
    Answers lo s (Parser.unexpected expected) moves :=
  .of_error rfl (.refl s) (found_unexpected hlo expected)

/-- A change of the tree is no movement. -/
theorem withTree {tree : Tree} (hrun : p s = (.ok a, { s with tree })) :
    Answers lo s p fun _ => false :=
  .of_ok hrun (.withTree s tree)

/-- A parser that takes the current token if a test holds of it, and else fails. -/
theorem expecting (hs : s.Ready) (hlo : lo ≤ s.here) {test : Token → Bool}
    (heof : test .eof = false) (a : α) (expected : List Token) :
    Answers lo s (fun s => if test s.current then (.ok a, s.advance)
      else (.error (s.unexpected expected), s)) fun _ => true := by
  by_cases htest : test s.current = true
  · refine .of_ok (if_pos htest) (.advance hs fun heq => ?_)
    rw [heq, heof] at htest
    cases htest
  · exact .of_error (if_neg htest) (.refl s) (found_unexpected hlo expected)

theorem eatIf (hs : s.Ready) {test : Token → Bool} (heof : test .eof = false) :
    Answers lo s (Parser.eatIf test) id := by
  by_cases htest : test s.current = true
  · refine .of_ok (if_pos htest) (.advance hs fun heq => ?_)
    rw [heq, heof] at htest
    cases htest
  · exact .of_ok (if_neg htest) (.refl s)

theorem consumeSemicolon (hlo : lo ≤ s.here) :
    Answers lo s Parser.consumeSemicolon fun _ => false := by
  by_cases hsemicolon : s.current.isPunct .semicolon = true
  · exact .of_ok (if_pos hsemicolon) (.of_frame ((Frame.advance s).withTree (.refl _)))
  by_cases hends : (s.current.isPunct .rightBrace || s.atEof || s.newlineBefore) = true
  · exact .of_ok ((if_neg hsemicolon).trans (if_pos hends)) (.refl s)
  · refine .of_error ((if_neg hsemicolon).trans (if_neg hends)) (.refl s) ⟨hlo, le_rfl, ?_⟩
    simp [ParseError.Exhausted, ParseError.missingSemicolon]

/-- One level deeper, unless that is too deep, there is one level less to go. -/
theorem nested (hlo : lo ≤ s.here)
    (h : { s with depth := s.depth + 1 }.reach + 1 = s.reach →
      Answers lo { s with depth := s.depth + 1 } p fun _ => true) :
    Answers lo s (Parser.nested p) fun _ => true := by
  by_cases hdeep : maxDepth ≤ s.depth
  · refine .of_error (e := ⟨.limitExceeded s!"nesting deeper than {maxDepth}", s.currentSpan, none⟩)
      ?_ (.refl s) ⟨hlo, le_rfl, ?_⟩
    · simp only [Parser.nested, enter, if_pos hdeep]
    · rintro (h | h) <;> exact absurd (ParseCause.limitExceeded.inj h) (by decide)
  have hroom : { s with depth := s.depth + 1 }.reach + 1 = s.reach := by
    change (maxDepth - (s.depth + 1)) + s.total mass + 1 = (maxDepth - s.depth) + s.total mass
    omega
  have hback : ∀ {m s'}, Proceeds { s with depth := s.depth + 1 } s' m →
      Proceeds s { s' with depth := s'.depth - 1 } m := fun h => h.leave hdeep
  have hrun : Parser.nested p s = ((p { s with depth := s.depth + 1 }).1,
      { (p { s with depth := s.depth + 1 }).2 with
        depth := (p { s with depth := s.depth + 1 }).2.depth - 1 }) := by
    simp only [Parser.nested, enter, if_neg hdeep]
  rcases run_cases p { s with depth := s.depth + 1 } with ⟨a, s', hinner⟩ | ⟨e, s', hinner⟩
  · rw [hinner] at hrun
    exact .of_ok hrun (hback ((h hroom).ok hinner))
  · rw [hinner] at hrun
    obtain ⟨hproceeds, hfound⟩ := (h hroom).error hinner
    exact .of_error hrun (hback hproceeds) ⟨hfound.lo_le, hfound.le_here, hfound.not_exhausted⟩

theorem withIn {allowIn : Bool} (h : Answers lo { s with allowIn } p moves) :
    Answers lo s (Parser.withIn allowIn p) moves := by
  have hrun : Parser.withIn allowIn p s =
      ((p { s with allowIn }).1, { (p { s with allowIn }).2 with allowIn := s.allowIn }) := rfl
  match hinner : p { s with allowIn } with
  | (.ok a, s') =>
    rw [hinner] at hrun
    exact .of_ok hrun (h.ok hinner).within
  | (.error e, s') =>
    rw [hinner] at hrun
    obtain ⟨hproceeds, hfound⟩ := h.error hinner
    exact .of_error hrun hproceeds.within ⟨hfound.lo_le, hfound.le_here, hfound.not_exhausted⟩

/-- A parser that fails under `attempt` has only taken angles from tokens. -/
theorem attempt {out : α → List NodeId} (hgrows : Grows p false out)
    (h : Answers lo s p fun _ => true) : Answers lo s (Parser.attempt p) Option.isSome := by
  match hrun : p s with
  | (.ok a, s') =>
    refine .of_ok (a := some a) ?_ (h.ok hrun)
    simp only [Parser.attempt, hrun]
  | (.error e, s') =>
    have hframe := hgrows s
    simp only [Leads, hrun] at hframe
    exact .of_ok (attempt_eq hframe.kept hrun) (.of_frame hframe.withTokens)

/-- A loop of which every turn that does not end it takes a token ends before its fuel does. -/
theorem loop {body : σ → Parser (Loop σ)} (init : σ)
    (h : ∀ value s', Proceeds s s' false → Answers lo s' (body value) Parse.goesOn) :
    Answers lo s (Parser.loop init body) fun _ => false := by
  have hturns : ∀ fuel value s', Proceeds s s' false → s'.steps < fuel →
      Answers lo s' (loopUpTo body fuel value) fun _ => false := by
    intro fuel
    induction fuel with
    | zero => exact fun _ _ _ hlt => absurd hlt (Nat.not_lt_zero _)
    | succ fuel ih =>
      intro value s' hs' hlt
      refine .bind (h value s' hs') fun turn s'' hturn => ?_
      cases turn with
      | stop value => exact .pure value rfl
      | next value =>
        have hsteps := hturn.steps
        simp only [goesOn, Bool.toNat_true] at hsteps
        exact ih value s'' (hs'.trans hturn nofun) (by omega)
  have hsteps := s.steps_le
  exact hturns _ init s (.refl s) (by omega)

/-- A parser that goes on as another one does from a later state. -/
theorem after {q : Parser α} {m : Bool} (hrun : p s = q s') (h : Proceeds s s' m)
    (hq : Answers lo s' q fun _ => false) : Answers lo s p fun _ => m := by
  match hrun' : q s' with
  | (.ok a, s'') => exact .of_ok (hrun.trans hrun') (h.trans (hq.ok hrun') .inl)
  | (.error e, s'') =>
    obtain ⟨hproceeds, hfound⟩ := hq.error hrun'
    exact .of_error (hrun.trans hrun') (h.trans hproceeds nofun) hfound

end Answers

theorem exists_of_closeFrom {ts : List SpannedToken} {i depth close : Nat}
    (h : State.closeFrom ts i depth = some close) :
    ∃ k a, close = i + k ∧ ts[k]? = some a ∧ State.closesBracket a.1 = true := by
  induction ts generalizing i depth with
  | nil => cases h
  | cons a ts ih =>
    have hnext : ∀ {depth}, State.closeFrom ts (i + 1) depth = some close →
        ∃ k b, close = i + k ∧ (a :: ts)[k]? = some b ∧ State.closesBracket b.1 = true := by
      intro depth h
      obtain ⟨k, b, rfl, hb, hcloses⟩ := ih h
      exact ⟨k + 1, b, by omega, hb, hcloses⟩
    unfold State.closeFrom at h
    split_ifs at h with heof hopens hcloses hlast
    · exact hnext h
    · cases h
      exact ⟨0, a, rfl, rfl, hcloses⟩
    · exact hnext h
    · exact hnext h

/-- A bracket is closed at the cursor or further on, before the last token. -/
theorem lt_of_matchingClose (hs : s.Ready) {close : Nat} (h : s.matchingClose s.pos = some close) :
    s.pos ≤ close ∧ close + 1 < s.tokens.size := by
  obtain ⟨k, a, rfl, ha, hcloses⟩ := exists_of_closeFrom h
  rw [List.getElem?_drop, Array.getElem?_toList] at ha
  have hlt := (Array.getElem?_eq_some_iff.mp ha).1
  refine ⟨Nat.le_add_right _ _, lt_of_le_of_ne hlt fun hlast => ?_⟩
  rw [hs.last _ a ha hlast] at hcloses
  cases hcloses

theorem answers_skipImportAttributes (hs : s.Ready) (hlo : lo ≤ s.here) :
    Answers lo s skipImportAttributes fun _ => false := by
  unfold skipImportAttributes
  refine .ask ?_
  split
  · have hskip : Answers lo s skip fun _ => false :=
      .of_ok rfl (.of_frame ((Frame.advance s).withTree (.refl _)))
    refine .seq hskip fun _ s' hs' => .ask ?_
    split
    · next close hclose =>
      obtain ⟨hle, hlt⟩ := lt_of_matchingClose (hs'.ready hs) hclose
      refine .of_ok (skipThrough_eq s' (by omega) hlt) (.of_frame ?_)
      exact ⟨rfl, .refl _, hle.trans (Nat.le_succ _), fun _ => hlt, .refl _, rfl, rfl, rfl⟩
    · exact .unexpected (hlo.trans (hs'.here_le hs)) _
  · exact .pure () rfl

/-- Where tokens are read that end before an offset, the cursor stands before it. -/
theorem Frame.here_le_of_placed (h : Frame s s') {tokens : List SpannedToken} {lo hi : Nat}
    (hplaced : TokensPlaced s.source lo hi tokens) (htokens : s.tokens = tokens.toArray)
    (hpos : s.pos = 0) : s'.here ≤ hi := by
  have hready := h.ready (State.ready_of_placed hplaced htokens hpos)
  obtain ⟨b, hb, hspan, -⟩ := hready.token
  obtain ⟨a, ha, hremains⟩ := h.tokens.before hb
  rw [htokens, List.getElem?_toArray] at ha
  calc s'.here = b.2.start := by rw [State.here, hspan]
    _ ≤ b.2.stop := (hready.span_on hb).start_le_stop
    _ = a.2.stop := hremains.stop_eq
    _ ≤ hi := (hplaced.token ha).2.2

/-- After the tokens of a substitution the tokens around it are read on as if nothing was read. -/
theorem answers_substitution {tokens : List SpannedToken} {opened closed : Nat}
    (hplaced : TokensPlaced s.source opened closed tokens) (hlo : lo ≤ opened)
    (hclosed : closed ≤ s.here)
    (h : Answers lo { s with tokens := tokens.toArray, pos := 0, allowIn := true } (expression g)
      fun _ => true) : Answers lo s (substitution g tokens) fun _ => false := by
  let inner : State := { s with tokens := tokens.toArray, pos := 0 }
  have hhere : lo ≤ inner.here := hlo.trans (State.le_here_of_placed hplaced rfl rfl)
  have hbody : Answers lo inner (withIn true do
      let e ← expression g
      if ← atEof then return e else unexpected [.punct .rightBrace]) fun _ => false := by
    refine .withIn (.bind h fun e s' hs' => .ask ?_)
    split
    · exact .pure e rfl
    · have hready' : { inner with allowIn := true }.Ready := State.ready_of_placed hplaced rfl rfl
      exact .unexpected (hhere.trans (hs'.here_le hready')) _
  have hback : ∀ {r : State} {m : Bool}, Proceeds inner r m →
      Proceeds s { r with tokens := s.tokens, pos := s.pos } false := fun h =>
    .of_frame ⟨h.frame.source, .refl _, le_rfl, id, .refl _, h.frame.errors, h.frame.depth,
      h.frame.allowIn⟩
  match hrun : withIn true (do
      let e ← expression g
      if ← atEof then return e else unexpected [.punct .rightBrace]) inner with
  | (.ok e, r) =>
    refine .of_ok (a := e) ?_ (hback (hbody.ok hrun))
    exact congrArg (fun run => (run.1, { run.2 with tokens := s.tokens, pos := s.pos })) hrun
  | (.error e, r) =>
    obtain ⟨hproceeds, hfound⟩ := hbody.error hrun
    refine .of_error (e := e) ?_ (hback hproceeds)
      ⟨hfound.lo_le, hfound.le_here.trans ?_, hfound.not_exhausted⟩
    · exact congrArg (fun run => (run.1, { run.2 with tokens := s.tokens, pos := s.pos })) hrun
    · exact (hproceeds.frame.here_le_of_placed hplaced rfl rfl).trans hclosed

/-- The parts of a template are read at the token after it. -/
theorem answers_templateParts {s : State} (quasiCount : Nat) {parts : List TemplatePart}
    {opened closed : Nat}
    (hs : s.Ready) (hparts : PartsPlaced s.source opened closed parts) (hlo : lo ≤ opened)
    (hclosed : closed ≤ s.here) (hroom : (maxDepth - s.depth) + partsMass parts ≤ n)
    (h : ∀ s, s.Ready → lo ≤ s.here → s.reach ≤ n → Answers lo s (expression g) fun _ => true)
    (quasis expressions : List NodeId) :
    Answers lo s (templateParts g quasiCount parts quasis expressions) fun _ => false := by
  match hparts with
  | .last .. =>
    refine .bind (.withTree rfl) fun quasi s' _ => ?_
    exact .pure _ rfl
  | @PartsPlaced.more _ _ opened' closed' _ raw span tokens rest hspan hraw hopened htokens hrest =>
    simp only [partsMass, partMass, Nat.zero_add] at hroom
    have hopened' : lo ≤ opened' := by
      have hle := hspan.start_le_stop
      omega
    refine .bind (.withTree rfl) fun quasi s₁ hs₁ => ?_
    have hsource : s₁.source = s.source := hs₁.frame.source
    have hdepth : s₁.depth = s.depth := hs₁.frame.depth
    have hhere := hs₁.here_le hs
    rw [← hsource] at htokens hrest
    have hle := hrest.le
    have hreach : { s₁ with tokens := tokens.toArray, pos := 0, allowIn := true }.reach =
        (maxDepth - s₁.depth) + tokensMass tokens :=
      congrArg (maxDepth - s₁.depth + ·) (State.total_mass_start { s₁ with allowIn := true } tokens)
    have hexpression := answers_substitution htokens hopened' (by omega)
      (h _ (State.ready_of_placed htokens rfl rfl)
        (hopened'.trans (State.le_here_of_placed htokens rfl rfl)) (by omega))
    refine .bind hexpression fun e s₂ hs₂ => ?_
    have hsource' : s₂.source = s₁.source := hs₂.frame.source
    have hdepth' : s₂.depth = s₁.depth := hs₂.frame.depth
    have hready := hs₁.ready hs
    have hhere' := hs₂.here_le hready
    rw [← hsource'] at hrest
    exact answers_templateParts quasiCount (hs₂.ready hready) hrest
      (by have := htokens.le; omega) (by omega) (by omega) h (quasi :: quasis) (e :: expressions)

theorem answers_template (hs : s.Ready) (hlo : lo ≤ s.here) {parts : List TemplatePart}
    (hcurrent : s.current = .template parts) (hreach : s.reach ≤ n)
    (h : ∀ s, s.Ready → lo ≤ s.here → s.reach ≤ n → Answers lo s (expression g) fun _ => true) :
    Answers lo s (template g) fun _ => true := by
  have hadvance : Proceeds s s.advance true := .advance hs (by simp [hcurrent])
  have hready := hadvance.ready hs
  have hparts := hs.partsPlaced hcurrent
  have hsource : s.advance.source = s.source := hadvance.frame.source
  have hdepth : s.advance.depth = s.depth := hadvance.frame.depth
  have hclosed : s.currentSpan.stop ≤ s.advance.here := by
    rw [← passed_advance hs (by simp [hcurrent, Token.isEof])]
    exact hready.passed_le_here
  rw [← hsource] at hparts
  refine .after (template_of_current hcurrent) hadvance ?_
  refine .bind (answers_templateParts _ hready hparts hlo hclosed ?_ h [] []) fun nodes s' _ => ?_
  · have hmass := State.le_total mass hs.pos_lt
    rw [hcurrent, mass] at hmass
    simp only [State.reach] at hreach
    rw [hdepth]
    omega
  · exact .withTree rfl

namespace Site

/-- What is known of the state holds, and the grammar has levels enough for it. -/
structure Holds (c : Site) (n lo : Nat) (s : State) : Prop where
  ready : s.Ready
  known : c.known s
  lo_le : lo ≤ s.here
  noted : ∀ span ∈ c.noted, lo ≤ span.start ∧ span.start ≤ s.here
  reach : s.reach + c.moved.toNat ≤ n

theorem Holds.implies {c c' : Site} (h : c.Holds n lo s) (hc : c.Implies c') : c'.Holds n lo s where
  ready := h.ready
  known := hc.known s h.known
  lo_le := h.lo_le
  noted span hspan := h.noted span (hc.noted hspan)
  reach := (Nat.add_le_add_left (Bool.toNat_le_toNat (Bool.le_iff_imp.mpr hc.moved)) _).trans
    h.reach

theorem Holds.after (h : c.Holds n lo s) (hs' : Proceeds s s' m) : (c.after m).Holds n lo s' where
  ready := hs'.ready h.ready
  known := trivial
  lo_le := h.lo_le.trans (hs'.here_le h.ready)
  noted span hspan :=
    ⟨(h.noted span hspan).1, (h.noted span hspan).2.trans (hs'.here_le h.ready)⟩
  reach := by
    have hreach := h.reach
    have hreach' := hs'.reach
    cases m <;> simp_all [Site.after] <;> omega

theorem Holds.knowing {known : State → Prop} (h : c.Holds n lo s) (hs : known s) :
    (c.knowing known).Holds n lo s :=
  { h with known := ⟨h.known, hs⟩ }

theorem Holds.noting (h : c.Holds n lo s) : (c.noting s.currentSpan).Holds n lo s :=
  { h with
    noted := fun span hspan => by
      rcases List.mem_cons.mp hspan with rfl | hspan
      · exact ⟨h.lo_le, le_rfl⟩
      · exact h.noted span hspan }

end Site

/-- The grammar has levels enough where no parser can be nested deeper than `n` levels. -/
structure Levels (n : Nat) (g : Grammar) : Prop where
  counted : ∀ {operators p}, g.Counted operators p → ∀ {s lo}, s.Ready → lo ≤ s.here → s.reach ≤ n →
    Answers lo s p fun _ => true
  uncounted : ∀ {operators p}, g.Uncounted operators p → ∀ {s lo}, s.Ready → lo ≤ s.here →
    s.reach + 1 ≤ n →
    Answers lo s p fun _ => true

theorem answers_typeAscription (hg : Levels n g) (hs : s.Ready) (hlo : lo ≤ s.here)
    (hreach : s.reach ≤ n) : Answers lo s (typeAscription g) fun _ => true := by
  unfold typeAscription
  refine .ask (.bind (.expecting hs hlo rfl () _) fun _ s' hs' => ?_)
  have hreach' := hs'.reach
  have htype : g.Counted false g.type := .type
  refine .bind (hg.counted htype (hs'.ready hs) (hlo.trans (hs'.here_le hs)) (by omega)) ?_
  exact fun type s'' _ => .withTree rfl

theorem answers_extendRange (target : NodeId) :
    Answers lo s (extendRange target) fun _ => false := by
  cases hrange : s.tree.range target with
  | none => exact .of_ok (a := ()) (by simp only [extendRange, update, hrange]) (.refl s)
  | some range => exact .withTree (a := ()) (by simp only [extendRange, update, hrange]; rfl)

/-- An annotation is read, and given to the binding that stands before it. -/
theorem answers_annotate (hg : Levels n g) (hs : s.Ready) (hlo : lo ≤ s.here) (hreach : s.reach ≤ n)
    (target : NodeId) : Answers lo s (annotate g target) fun _ => false := by
  have hascription : ∀ s' m, Proceeds s s' m →
      Answers lo s' (typeAscription? g) fun _ => false := by
    intro s' m hs'
    have hreach' := hs'.reach
    refine .ask ?_
    split
    · refine .seq
        (answers_typeAscription hg (hs'.ready hs) (hlo.trans (hs'.here_le hs)) (by omega)) ?_
      exact fun ascription s'' _ => .pure _ rfl
    · exact .pure none rfl
  unfold annotate
  refine .seq (.eatIf hs rfl) fun optional s₁ hs₁ => ?_
  refine .seq (.eatIf (hs₁.ready hs) rfl) fun definite s₂ hs₂ => ?_
  refine .seq (hascription s₂ false (hs₁.trans hs₂ nofun)) fun ascription s₃ hs₃ => ?_
  split
  · refine .ask (.seq (.withTree rfl) fun _ s₄ _ => ?_)
    exact answers_extendRange target
  · exact .pure () rfl

/-- A parser that is put together from parts answers where it is known to stand. -/
theorem Composed.answers {operators : Bool} {p : Parser α} {moves : α → Bool}
    (h : Composed g operators c p moves)
    (hg : Levels n g) (hs : c.Holds n lo s) : Answers lo s p moves := by
  induction h generalizing s with
  | pure a h => exact .pure a h
  | follow hp hf ihp ihf =>
    exact .follow (ihp hs) fun a s' hrun hs' => ihf a ((hs.after hs').knowing ⟨s, hrun⟩)
  | weaken h hc hmoves ih => exact (ih (hs.implies hc)).weaken hmoves
  | ite hp hq ihp ihq =>
    split
    · exact ihp ‹_› hs
    · exact ihq ‹_› hs
  | asks hp hfree hf ih =>
    obtain ⟨a, ha⟩ := hp s
    exact .congr (bind_of_ok ha) (ih a (hs.knowing ha))
  | note hf ih => exact ih s.currentSpan hs.noting
  | operator hf ih => exact ih _ (hs.knowing rfl)
  | fail e hspan hcause =>
    exact .of_error rfl (.refl s) ⟨(hs.noted _ hspan).1, (hs.noted _ hspan).2, hcause⟩
  | unexpected expected => exact .unexpected hs.lo_le expected
  | advance moves h =>
    cases moves with
    | false => exact .of_ok rfl (.of_frame ((Frame.advance s).withTree (.refl _)))
    | true => exact .of_ok rfl (.advance hs.ready (h rfl s hs.known))
  | eatIf heof => exact .eatIf hs.ready heof
  | expecting heof a expected => exact .expecting hs.ready hs.lo_le heof a expected
  | consumeSemicolon => exact .consumeSemicolon hs.lo_le
  | splitCurrent rest h => exact .of_ok rfl (.splitCurrent hs.ready (h s hs.known))
  | alloc node span h => exact .withTree rfl
  | finish start node h => exact .withTree rfl
  | toPattern id => exact .withTree rfl
  | nested h ih =>
    refine .nested hs.lo_le fun hroom => ih ⟨?_, trivial, hs.lo_le, hs.noted, ?_⟩
    · exact hs.ready.congr rfl rfl hs.ready.pos_lt
    · have hreach := hs.reach
      simp only [Site.inside, Bool.toNat_false]
      omega
  | attempt hgrows h ih => exact .attempt hgrows (ih hs)
  | withIn allowIn hmoved hnoted hknown h ih =>
    refine .withIn (ih ⟨?_, hknown s hs.known, hs.lo_le, hnoted ▸ hs.noted, hmoved ▸ hs.reach⟩)
    exact hs.ready.congr rfl rfl hs.ready.pos_lt
  | loop init h ih => exact .loop init fun value s' hs' => ih value (hs.after hs')
  | counted h => exact hg.counted h hs.ready hs.lo_le ((Nat.le_add_right _ _).trans hs.reach)
  | uncounted h hmoved => exact hg.uncounted h hs.ready hs.lo_le (by simpa [hmoved] using hs.reach)
  | block hbody h ih => exact ih hs
  | template hknown h ih =>
    obtain ⟨parts, hparts⟩ := hknown s hs.known
    refine answers_template hs.ready hs.lo_le hparts ((Nat.le_add_right _ _).trans hs.reach) ?_
    exact fun s hs hlo hreach => ih ⟨hs, trivial, hlo, fun _ => nofun, hreach⟩
  | typeReference hname harguments ihname iharguments =>
    unfold Parse.typeReference
    refine .ask (.bind (ihname hs) fun name s' hs' => .ask (.ask ?_))
    have hfinish : ∀ (s' : State) (arguments : List NodeId), Answers lo s'
        (Parser.finish s.currentSpan (.typeReference name arguments)) fun _ => false :=
      fun _ _ => .withTree rfl
    split
    · exact .bind (iharguments (hs.after hs')) fun arguments s'' _ => hfinish s'' arguments
    · exact .seq (.still []) fun arguments s'' _ => hfinish s'' arguments
  | typeAscription =>
    exact answers_typeAscription hg hs.ready hs.lo_le ((Nat.le_add_right _ _).trans hs.reach)
  | rest start argument h ih => exact .seq (ih hs) fun ascription s' _ => .withTree rfl
  | annotated hp hbare ih =>
    refine .bind (ih hs) fun target s' hs' => ?_
    have hafter := hs.after hs'
    refine .bind (answers_annotate hg hafter.ready hafter.lo_le
      ((Nat.le_add_right _ _).trans hafter.reach) target) fun _ s'' _ => ?_
    exact .pure target (by simp)
  | skipImportAttributes => exact answers_skipImportAttributes hs.ready hs.lo_le

theorem Levels.above (hsound : g.Sound) (hg : Levels n g) : Levels (n + 1) g.above where
  counted h s lo hs hlo hreach := by
    obtain ⟨body, rfl, hbody⟩ := exists_nested_of_counted hsound h
    refine .nested hlo fun hroom => hbody.answers hg ⟨?_, trivial, hlo, fun _ => nofun, ?_⟩
    · exact hs.congr rfl rfl hs.pos_lt
    · simp only [Site.opening, Bool.toNat_false]
      omega
  uncounted h s lo hs hlo hreach :=
    (composed_of_uncounted hsound h).answers hg ⟨hs, trivial, hlo, fun _ => nofun,
      Nat.le_of_succ_le_succ hreach⟩

theorem levels_upTo (n : Nat) : Levels n (Grammar.upTo n) := by
  induction n with
  | zero =>
    have hreach : ∀ {s : State}, s.Ready → 0 < s.reach := fun hs => State.reach_pos hs.pos_lt
    exact ⟨fun _ _ _ hs _ hle => absurd (hreach hs) (by omega), fun _ _ _ _ _ hle => by omega⟩
  | succ n ih => exact ih.above (Grammar.sound_upTo n)

/-- A statement is read, or an error is found in it that stands between its first token and the
cursor. The fuel of the grammar suffices. -/
theorem answers_statement (hs : s.Ready) (hreach : s.reach ≤ n + 1) :
    Answers s.here s (statement (Grammar.upTo n)) fun _ => true :=
  (levels_upTo (n + 1)).counted .statement hs le_rfl hreach

end Parse
end ScriptLint
