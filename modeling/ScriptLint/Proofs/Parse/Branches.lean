import ScriptLint.Proofs.Parse.Twin.Arrow
import ScriptLint.Proofs.Token.Embedded

namespace ScriptLint

open Position (origin)

/-- An assignment of a conditional to a name. -/
def conditionalText (consequent alternate : List Char) : List Char :=
  "x = a ? (".toList ++ consequent ++ (") : ".toList ++ alternate ++ ";".toList)

theorem conditionalText_eq (c e : List Char) : conditionalText c e =
    "x = a ? (".toList ++ (c ++ (") : ".toList ++ (e ++ ";".toList))) := by
  have happend : ∀ before between after : List Char,
      before ++ c ++ (between ++ e ++ after) = before ++ (c ++ (between ++ (e ++ after))) := by simp
  exact happend _ _ _

/-- The tokens before the consequent. -/
def conditionalFront : List Token :=
  [.identifier "x", .punct .equal, .identifier "a", .punct .question, .punct .leftParen]

theorem scanAt_front : ∃ front : List SpannedToken, front.map Prod.fst = conditionalFront ∧
    ∀ tail, scanAt .origin ("x = a ? (".toList ++ tail) =
      (scanAt (origin.after "x = a ? (".toList) tail).withTokens front := by
  let q := fun n => origin.after ("x = a ? (".toList.take n)
  refine ⟨[(.identifier "x", .between (q 0) (q 1)), (.punct .equal, .between (q 2) (q 3)),
    (.identifier "a", .between (q 4) (q 5)), (.punct .question, .between (q 6) (q 7)),
    (.punct .leftParen, .between (q 8) (q 9))], rfl, fun tail => ?_⟩
  rfl

theorem scanAt_between (p : Position) : ∃ close colon : Span, close.start = p.offset ∧
    ∀ tail, scanAt p (") : ".toList ++ tail) = (scanAt (p.after ") : ".toList) tail).withTokens
      [(.punct .rightParen, close), (.punct .colon, colon)] :=
  ⟨.between p (p.after ")".toList), .between (p.after ") ".toList) (p.after ") :".toList), rfl,
    fun _ => rfl⟩

theorem scanAt_end (p : Position) : ∃ stop final : Span, stop.start = p.offset ∧
    scanAt p ";".toList = ⟨[(.punct .semicolon, stop), (.eof, final)], []⟩ :=
  ⟨.between p (p.after ";".toList), .between (p.after ";".toList) (p.after ";".toList), rfl, rfl⟩

namespace Parse

/-- The two branches of a conditional, each a text that stands in the middle of it. -/
structure Branches where
  consequent : Embedded
  alternate : Embedded
  colon : SpannedToken
  final : SpannedToken
  whole_eq : alternate.whole = consequent.whole
  front : consequent.front.map Prod.fst = conditionalFront
  close : consequent.stop.1 = .punct .rightParen
  colon_eq : colon.1 = .punct .colon
  semicolon : alternate.stop.1 = .punct .semicolon
  final_eq : final.1 = .eof
  between : alternate.front = consequent.front ++
    (tokensMovedTo consequent.place consequent.inner ++ [consequent.stop, colon])
  rest : consequent.rest = colon ::
    (tokensMovedTo alternate.place alternate.inner ++ [alternate.stop, final])
  rest_alternate : alternate.rest = [final]

/-- Two texts that are closed are the branches of the conditional that is made of them. -/
theorem exists_branches {c e : List Char} {tc te : List SpannedToken} (hc : Closed c tc)
    (he : Closed e te) : ∃ b : Branches, b.consequent.text = c ∧ b.alternate.text = e ∧
      b.consequent.whole = conditionalText c e ∧ tc = b.consequent.inner ++ [endToken c] ∧
      te = b.alternate.inner ++ [endToken e] := by
  obtain ⟨ic, rfl, hplainc, hreadc⟩ := hc.exists_spells
  obtain ⟨ie, rfl, hplaine, hreade⟩ := he.exists_spells
  obtain ⟨front, hfront, hscan⟩ := scanAt_front
  let pc := origin.after "x = a ? (".toList
  obtain ⟨close, colon, hclose, hbetween⟩ := scanAt_between (pc.after c)
  let pe := origin.after ("x = a ? (".toList ++ c ++ ") : ".toList)
  obtain ⟨stop, final, hstop, hend⟩ := scanAt_end (pe.after e)
  have hpe : (pc.after c).after ") : ".toList = pe := by
    simp only [pc, pe, Position.after_append]
  let tokens := front ++ (tokensMovedTo pc ic ++ (.punct .rightParen, close) ::
    (.punct .colon, colon) :: (tokensMovedTo pe ie ++ [(.punct .semicolon, stop), (.eof, final)]))
  have hwhole : scan (conditionalText c e) = ⟨tokens, []⟩ := by
    have hstops : Lexeme.Stops (") : ".toList ++ (e ++ ";".toList)) :=
      Lexeme.stops_cons (c := ')') (by decide) (" : ".toList ++ (e ++ ";".toList))
    have hstops' : Lexeme.Stops ";".toList := Lexeme.stops_cons (c := ';') (by decide) []
    have hscanned : scan (conditionalText c e) = scanAt .origin (conditionalText c e) := rfl
    have halternate := (hreade _ (hstops'.clear e)).scan pe
    have hconsequent := (hreadc _ (hstops.clear c)).scan pc
    rw [hbetween, hpe, halternate, hend] at hconsequent
    rw [hscanned, conditionalText_eq, hscan, hconsequent]
    simp only [Scan.withTokens, tokens, List.cons_append, List.nil_append]
  have htokenize : tokenize (conditionalText c e) = .ok tokens :=
    tokenize_eq_ok_iff.mpr ⟨by rw [hwhole], by rw [hwhole]⟩
  let close' : SpannedToken := (.punct .rightParen, close)
  let colon' : SpannedToken := (.punct .colon, colon)
  let stop' : SpannedToken := (.punct .semicolon, stop)
  let final' : SpannedToken := (.eof, final)
  let around : Around := ⟨"x = a ? (".toList, c, ") : ".toList ++ e ++ ";".toList⟩
  let around' : Around := ⟨"x = a ? (".toList ++ c ++ ") : ".toList, e, ";".toList⟩
  have hsame : around.whole = conditionalText c e := rfl
  have hsame' : around'.whole = conditionalText c e := by
    have happend : ∀ before between after : List Char,
        before ++ c ++ between ++ e ++ after = before ++ c ++ (between ++ e ++ after) := by simp
    exact happend _ _ _
  let consequent : Embedded :=
    { around with
      inner := ic
      front
      stop := close'
      rest := colon' :: (tokensMovedTo pe ie ++ [stop', final'])
      alone := hc.tokenize
      plain := hplainc
      amid := hsame ▸ htokenize
      stops := rfl
      gap := []
      gap_prefix := List.nil_prefix
      line := rfl
      start := by
        change close.start = _
        rw [hclose]
        exact Position.offset_after _ _ }
  let alternate : Embedded :=
    { around' with
      inner := ie
      front := front ++ (tokensMovedTo pc ic ++ [close', colon'])
      stop := stop'
      rest := [final']
      alone := he.tokenize
      plain := hplaine
      amid := by
        rw [hsame', htokenize]
        simp only [tokens, close', colon', stop', final', List.append_assoc, List.cons_append,
          List.nil_append]
        rfl
      stops := rfl
      gap := []
      gap_prefix := List.nil_prefix
      line := rfl
      start := by
        change stop.start = _
        rw [hstop]
        exact Position.offset_after _ _ }
  exact ⟨⟨consequent, alternate, colon', final', hsame'.trans hsame.symm, hfront, rfl, rfl, rfl,
    rfl, rfl, rfl, rfl⟩, rfl, rfl, hsame, rfl, rfl⟩

theorem openBefore_append (front rest : List SpannedToken) (p : Nat) :
    openBefore (front ++ rest) (front.length + p) =
      openBefore front front.length + openBefore rest p := by
  rw [openBefore, List.take_length_add_append, List.map_append, List.sum_append, openBefore,
    List.take_length, openBefore]

/-- A token that is moved opens and closes what it does where it was. -/
theorem openBefore_tokensMovedTo (place : Position) {inner rest : List SpannedToken} {p : Nat}
    (hp : p ≤ inner.length) :
    openBefore (tokensMovedTo place inner ++ rest) p = openBefore inner p := by
  have hstep : ∀ t : Token, bracketStep (t.movedTo place) = bracketStep t := fun t => by
    cases t <;> rfl
  have hlength : p ≤ (tokensMovedTo place inner).length := by simpa [tokensMovedTo_eq_map] using hp
  rw [openBefore, List.take_append_of_le_length hlength]
  simp [openBefore, tokensMovedTo_eq_map, ← List.map_take, hstep, Function.comp_def]

namespace Branches

variable (b : Branches) {depth : Nat}

/-- At the start of the conditional. -/
def state (depth : Nat) : State := b.consequent.stateAmid depth

/-- The place of the parenthesis that closes the consequent. -/
def closing : Nat := 5 + b.consequent.inner.length

/-- The place of the semicolon. -/
def ending : Nat := b.closing + 2 + b.alternate.inner.length

theorem closing_ge : 5 ≤ b.closing := Nat.le_add_right _ _

theorem ending_ge : b.closing + 2 ≤ b.ending := Nat.le_add_right _ _

theorem state_eq_alternate (depth : Nat) : b.state depth = b.alternate.stateAmid depth := by
  have htokens : b.consequent.tokens .right = b.alternate.tokens .right := by
    simp [Embedded.tokens, b.between, b.rest, b.rest_alternate]
  rw [state, Embedded.stateAmid, Embedded.stateAmid, b.whole_eq, htokens]

theorem looser_consequent (b : Branches) (least : Precedence) : b.consequent.Looser least.level :=
  Embedded.looser_of_mark b.close (by decide) nofun

theorem looser_alternate (b : Branches) (least : Precedence) : b.alternate.Looser least.level :=
  Embedded.looser_of_mark b.semicolon (by decide) nofun

theorem length_front : b.consequent.front.length = 5 := by
  have hlength := congrArg List.length b.front
  rwa [List.length_map] at hlength

theorem length_front_alternate : b.alternate.front.length = b.closing + 2 := by
  simp [b.between, tokensMovedTo_eq_map, b.length_front, closing]
  omega

/-- The tokens of the conditional. -/
theorem kinds (depth : Nat) : (b.state depth).tokens.toList.map Prod.fst = conditionalFront ++
    ((tokensMovedTo b.consequent.place b.consequent.inner).map Prod.fst ++
      .punct .rightParen :: .punct .colon ::
        ((tokensMovedTo b.alternate.place b.alternate.inner).map Prod.fst ++
          [.punct .semicolon, .eof])) := by
  simp [state, Embedded.stateAmid, Embedded.tokens, b.rest, b.front, b.close, b.colon_eq,
    b.semicolon, b.final_eq]

theorem tokenAt_eq (s : State) (p : Nat) :
    s.tokenAt p = ((s.tokens.toList.map Prod.fst)[p]?).getD .eof := by
  simp [State.tokenAt]

theorem size (depth : Nat) : (b.state depth).tokens.size = b.ending + 2 := by
  have hlength := congrArg List.length (b.kinds depth)
  simp [tokensMovedTo_eq_map, conditionalFront] at hlength
  rw [hlength, ending, closing]
  omega

theorem tokenAt_front {p : Nat} (hp : p < 5) :
    (b.state depth).tokenAt p = (conditionalFront[p]?).getD .eof := by
  rw [tokenAt_eq, b.kinds, List.getElem?_append_left hp]

theorem tokenAt_after (p : Nat) : (b.state depth).tokenAt (b.closing + p) =
    ((.punct .rightParen :: .punct .colon ::
      ((tokensMovedTo b.alternate.place b.alternate.inner).map Prod.fst ++
        [.punct .semicolon, .eof]))[p]?).getD .eof := by
  have hlength : b.closing = (conditionalFront ++
      (tokensMovedTo b.consequent.place b.consequent.inner).map Prod.fst).length := by
    simp [closing, tokensMovedTo_eq_map, conditionalFront]
    omega
  rw [tokenAt_eq, b.kinds, ← List.append_assoc, hlength, List.getElem?_append_right (by omega),
    Nat.add_sub_cancel_left]

theorem tokenAt_close : (b.state depth).tokenAt b.closing = .punct .rightParen :=
  b.tokenAt_after 0

theorem tokenAt_colon : (b.state depth).tokenAt (b.closing + 1) = .punct .colon :=
  b.tokenAt_after 1

theorem tokenAt_ending (p : Nat) : (b.state depth).tokenAt (b.ending + p) =
    (([.punct .semicolon, .eof] : List Token)[p]?).getD .eof := by
  have hlength : ((tokensMovedTo b.alternate.place b.alternate.inner).map Prod.fst).length =
      b.alternate.inner.length := by simp [tokensMovedTo_eq_map]
  have hplace : b.ending + p = b.closing + (b.alternate.inner.length + p + 2) := by
    rw [ending]
    omega
  rw [hplace, b.tokenAt_after, List.getElem?_cons_succ, List.getElem?_cons_succ, ← hlength,
    List.getElem?_append_right (by omega), Nat.add_sub_cancel_left]

theorem tokenAt_stop : (b.state depth).tokenAt b.ending = .punct .semicolon :=
  b.tokenAt_ending 0

theorem tokenAt_end : (b.state depth).tokenAt (b.ending + 1) = .eof :=
  b.tokenAt_ending 1

/-- What holds of the tokens of the branches, wherever they stand, and of the ones between them,
holds of all tokens. -/
theorem forall_tokens {P : Token → Prop} (hmoved : ∀ p t, P t → P (t.movedTo p))
    (hframe : ∀ t ∈ conditionalFront ++
      [.punct .rightParen, .punct .colon, .punct .semicolon, .eof], P t)
    (hinner : ∀ a ∈ b.consequent.inner ++ b.alternate.inner, P a.1) :
    ∀ a ∈ (b.state depth).tokens, P a.1 := by
  intro a ha
  have hmem : a.1 ∈ (b.state depth).tokens.toList.map Prod.fst :=
    List.mem_map_of_mem (Array.mem_toList_iff.mpr ha)
  have hmovedAll : ∀ (p : Position) (inner : List SpannedToken), (∀ a ∈ inner, P a.1) →
      ∀ t ∈ (tokensMovedTo p inner).map Prod.fst, P t := by
    intro p inner hall t ht
    simp only [tokensMovedTo_eq_map, List.map_map, List.mem_map, Function.comp_apply] at ht
    obtain ⟨a, ha, rfl⟩ := ht
    exact hmoved p _ (hall a ha)
  rw [b.kinds] at hmem
  simp only [List.mem_append, List.mem_cons] at hmem hframe hinner
  generalize a.1 = t at hmem
  rcases hmem with hmem | hmem | rfl | rfl | hmem | hmem
  · exact hframe _ (.inl hmem)
  · exact hmovedAll _ _ (fun a ha => hinner a (.inl ha)) _ hmem
  · exact hframe _ (by simp)
  · exact hframe _ (by simp)
  · exact hmovedAll _ _ (fun a ha => hinner a (.inr ha)) _ hmem
  · exact hframe _ (.inr (.inr (.inr hmem)))

end Branches

/-- None of the tokens can be taken apart, and no list in angle brackets that begins with one of
them ends with another. -/
structure Unangled (tokens : List SpannedToken) : Prop where
  uncut : ∀ a ∈ tokens, afterClosingAngle a.1 = none
  apart : ∀ a ∈ tokens, a.1.isPunct .less = true → ∀ b ∈ tokens, b.1.isPunct .greater = false

theorem Unangled.mono {tokens part : List SpannedToken} (h : Unangled tokens)
    (hpart : part ⊆ tokens) : Unangled part where
  uncut a ha := h.uncut a (hpart ha)
  apart a ha hopen b hb := h.apart a (hpart ha) hopen b (hpart hb)

theorem Unangled.beginsAngle {tokens : List SpannedToken} (h : Unangled tokens)
    {a b : SpannedToken} (ha : a ∈ tokens) (hopen : a.1.isPunct .less = true) (hb : b ∈ tokens) :
    Parse.beginsAngle b.1 = false := by
  rw [Parse.beginsAngle, h.apart a ha hopen b hb, h.uncut b hb]
  rfl

namespace Branches

variable {b : Branches} {depth : Nat} (h : Unangled (b.consequent.inner ++ b.alternate.inner))

include h

theorem uncut : ∀ a ∈ (b.state depth).tokens, afterClosingAngle a.1 = none := by
  refine b.forall_tokens (P := fun t => afterClosingAngle t = none) (fun p t ht => ?_) (by decide)
    h.uncut
  cases t <;> exact ht

theorem beginsAngle_of_less {a : SpannedToken}
    (ha : a ∈ b.consequent.inner ++ b.alternate.inner) (hopen : a.1.isPunct .less = true) :
    ∀ a' ∈ (b.state depth).tokens, beginsAngle a'.1 = false := by
  refine b.forall_tokens (P := fun t => beginsAngle t = false) (fun p t ht => ?_) (by decide)
    fun a' ha' => h.beginsAngle ha hopen ha'
  cases t <;> exact ht

theorem angleless : ∀ a ∈ (b.state depth).tokens, a.1.isPunct .less = true →
    ∀ a' ∈ (b.state depth).tokens, beginsAngle a'.1 = false := by
  by_cases hless : ∃ a ∈ b.consequent.inner ++ b.alternate.inner, a.1.isPunct .less = true
  · obtain ⟨a, ha, hopen⟩ := hless
    exact fun _ _ _ => beginsAngle_of_less h ha hopen
  · have hnone : ∀ a ∈ (b.state depth).tokens, a.1.isPunct .less = false := by
      refine b.forall_tokens (P := fun t => t.isPunct .less = false) (fun p t ht => ?_) (by decide)
        fun a ha => Bool.eq_false_iff.mpr fun hopen => hless ⟨a, ha, hopen⟩
      cases t <;> exact ht
    intro a ha hopen
    rw [hnone a ha] at hopen
    cases hopen

/-- No list in angle brackets that begins in a branch ends in it or after it. -/
theorem angleless_branch {e : Embedded}
    (hinner : e.inner ⊆ b.consequent.inner ++ b.alternate.inner)
    (htokens : (b.state 0).tokens = e.tokens .right) : e.Angleless := by
  intro a ha hopen a' ha'
  have ha := hinner ha
  rcases List.mem_append.mp ha' with ha' | ha'
  · exact h.beginsAngle ha hopen (hinner ha')
  · have hall : ∀ a' ∈ (b.state 0).tokens, beginsAngle a'.1 = false :=
      beginsAngle_of_less h ha hopen
    refine hall a' ?_
    rw [htokens]
    simp [Embedded.tokens, ha']

theorem angleless_consequent : b.consequent.Angleless :=
  angleless_branch h (List.subset_append_left _ _) rfl

theorem angleless_alternate : b.alternate.Angleless :=
  angleless_branch h (List.subset_append_right _ _) (congrArg State.tokens (b.state_eq_alternate 0))

omit h in
/-- No list in angle brackets ends in a text whose tokens are unangled. -/
theorem angleless_alone {e : Embedded} (h : Unangled e.inner) :
    ∀ a ∈ (e.stateAlone depth).tokens, a.1.isPunct .less = true →
      ∀ a' ∈ (e.stateAlone depth).tokens, beginsAngle a'.1 = false := by
  intro a ha hopen a' ha'
  simp only [Embedded.stateAlone, Embedded.tokens, List.mem_toArray, List.mem_append,
    List.mem_singleton] at ha ha'
  rcases ha with ha | rfl
  · rcases ha' with ha' | rfl
    · exact h.beginsAngle ha hopen ha'
    · rfl
  · cases hopen

omit h in
/-- One more bracket is open inside the parentheses than is open in the consequent alone. -/
theorem openBefore_consequent (b : Branches) (depth : Nat) {p : Nat}
    (hp : p ≤ b.consequent.inner.length) :
    openBefore (b.state depth).tokens.toList (5 + p) = 1 + openBefore b.consequent.inner p := by
  have hfront : openBefore b.consequent.front b.consequent.front.length = 1 := by
    have hsteps : b.consequent.front.map (fun a => bracketStep a.1) =
        conditionalFront.map bracketStep := by rw [← b.front, List.map_map]; rfl
    rw [openBefore, List.take_length, hsteps]
    rfl
  rw [← b.length_front]
  change openBefore (b.consequent.front ++ _) _ = _
  rw [openBefore_append, hfront, openBefore_tokensMovedTo _ hp]

omit h in
theorem openBefore_four (b : Branches) (depth : Nat) :
    openBefore (b.state depth).tokens.toList 4 = 0 := by
  have hsucc := Enclosed.level_succ (s := b.state depth) (p := 4) (by
    rw [b.size]
    have := b.closing_ge
    have := b.ending_ge
    omega)
  rw [b.tokenAt_front (by decide), b.openBefore_consequent depth (p := 0) (Nat.zero_le _),
    openBefore_zero] at hsucc
  simpa [conditionalFront, bracketStep, State.opensBracket] using hsucc.symm

theorem enclosed {p : Grammar → Parser NodeId} {least : Precedence} (hp : Paired least p) {n i depth' : Nat} {s' : State}
    (halone : ReadAlone p n (b.consequent.stateAlone depth') i s') :
    Enclosed (b.state depth) 4 b.closing where
  scan := b.consequent.amid
  angleless := angleless h
  uncut := uncut h
  lt := b.closing_ge
  lt_size := by
    rw [b.size]
    have := b.ending_ge
    omega
  opens := b.tokenAt_front (by decide)
  closes := b.tokenAt_close
  inside p hfirst hclose := by
    obtain ⟨q, rfl⟩ : ∃ q, p = 5 + q := ⟨p - 5, by omega⟩
    have hq : q ≤ b.consequent.inner.length := by
      rw [closing] at hclose
      omega
    have hnonneg := halone.nonneg hp (q := q) (by
      simp [Embedded.stateAlone, Embedded.tokens]
      omega)
    have hsame : openBefore (b.consequent.stateAlone depth').tokens.toList q =
        openBefore b.consequent.inner q := by
      simp [Embedded.stateAlone, Embedded.tokens, openBefore, List.take_append_of_le_length hq]
    rw [b.openBefore_four, b.openBefore_consequent depth hq]
    omega
  level_close := by
    have hbalanced := Embedded.balanced halone hp
    rw [Embedded.Balanced] at hbalanced
    rw [closing, b.openBefore_four, b.openBefore_consequent depth le_rfl, hbalanced]
    rfl

end Branches

end Parse
end ScriptLint
