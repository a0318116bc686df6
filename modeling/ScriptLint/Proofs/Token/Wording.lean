import ScriptLint.Proofs.Source.Slice
import ScriptLint.Proofs.Token.Substitution

namespace ScriptLint

/-- The span of what has no place. -/
def Span.nowhere : Span := ⟨0, 0, 0, 0⟩

mutual

/-- A token without the spans inside it. -/
def Token.unplaced : Token → Token
  | .template parts => .template (partsUnplaced parts)
  | t => t

def partsUnplaced : List TemplatePart → List TemplatePart
  | [] => []
  | part :: parts => part.unplaced :: partsUnplaced parts

def TemplatePart.unplaced : TemplatePart → TemplatePart
  | .quasi raw _ => .quasi raw .nowhere
  | .substitution tokens => .substitution (tokensUnplaced tokens)

/-- Tokens without their spans and the spans inside them. -/
def tokensUnplaced : List (Token × Span) → List (Token × Span)
  | [] => []
  | (t, _) :: tokens => (t.unplaced, .nowhere) :: tokensUnplaced tokens

end

mutual

/-- Wherever a token is moved, it is the same token. -/
theorem Token.unplaced_movedTo (p : Position) (t : Token) : (t.movedTo p).unplaced = t.unplaced := by
  match t with
  | .template parts =>
    rw [Token.movedTo, Token.unplaced, Token.unplaced, partsUnplaced_movedTo p parts]
  | .keyword _ | .number _ | .string _ | .identifier _ | .punct _ | .eof => rfl

theorem partsUnplaced_movedTo (p : Position) (parts : List TemplatePart) :
    partsUnplaced (partsMovedTo p parts) = partsUnplaced parts := by
  match parts with
  | [] => rfl
  | part :: parts =>
    rw [partsMovedTo, partsUnplaced, partsUnplaced, TemplatePart.unplaced_movedTo p part,
      partsUnplaced_movedTo p parts]

theorem TemplatePart.unplaced_movedTo (p : Position) (part : TemplatePart) :
    (part.movedTo p).unplaced = part.unplaced := by
  match part with
  | .quasi raw span => rfl
  | .substitution tokens =>
    rw [TemplatePart.movedTo, TemplatePart.unplaced, TemplatePart.unplaced,
      tokensUnplaced_movedTo p tokens]

theorem tokensUnplaced_movedTo (p : Position) (tokens : List (Token × Span)) :
    tokensUnplaced (tokensMovedTo p tokens) = tokensUnplaced tokens := by
  match tokens with
  | [] => rfl
  | (t, _) :: tokens =>
    rw [tokensMovedTo, tokensUnplaced, tokensUnplaced, Token.unplaced_movedTo p t,
      tokensUnplaced_movedTo p tokens]

end

theorem Token.isEof_movedTo (p : Position) (t : Token) : (t.movedTo p).isEof = t.isEof := by
  cases t <;> rfl

/-- What tokens say, wherever they stand: all of them but the end of the text. -/
def wording (tokens : List SpannedToken) : List Token :=
  (tokens.filter fun a => !a.1.isEof).map fun a => a.1.unplaced

/-- What tokens say together with how they are written. -/
def written (text : List Char) (tokens : List SpannedToken) : List (Token × List Char) :=
  (tokens.filter fun a => !a.1.isEof).map fun a =>
    (a.1.unplaced, (slice? text a.2.start a.2.stop).getD [])

theorem map_fst_written (text : List Char) (tokens : List SpannedToken) :
    (written text tokens).map Prod.fst = wording tokens := by
  simp [written, wording]

theorem wording_cons {t : Token} (ht : t.isEof = false) (span : Span) (tokens : List SpannedToken) :
    wording ((t, span) :: tokens) = t.unplaced :: wording tokens := by
  simp [wording, ht]

theorem written_cons {t : Token} (ht : t.isEof = false) (text : List Char) (span : Span)
    (tokens : List SpannedToken) : written text ((t, span) :: tokens) =
      (t.unplaced, (slice? text span.start span.stop).getD []) :: written text tokens := by
  simp [written, ht]

theorem Lexeme.blockComment_closed {body : List Char} (hbody : ¬ ['*', '/'] <:+: body)
    (rest : List Char) : blockComment (body ++ '*' :: '/' :: rest) = (body ++ ['*', '/'], rest) := by
  induction body with
  | nil => rfl
  | cons c body ih =>
    have hrest : ¬ ['*', '/'] <:+: body := fun h => hbody (h.trans (List.suffix_cons c body).isInfix)
    rw [List.cons_append, blockComment, ih hrest]
    · rfl
    · rintro tail rfl htail
      cases body with
      | nil => cases htail
      | cons d body =>
        cases htail
        exact hbody ⟨[], body, rfl⟩

/-- Without its end a comment goes up to the end of the text. -/
theorem Lexeme.blockComment_open {body : List Char} (hbody : ¬ ['*', '/'] <:+: body) :
    blockComment body = (body, []) := by
  rcases blockComment_cases body with ⟨inside, hclosed, -⟩ | ⟨hrest, -⟩
  · have hjoin := blockComment_append body
    rw [hclosed] at hjoin
    exact absurd ⟨inside, _, hjoin⟩ hbody
  · have hjoin := blockComment_append body
    rw [hrest, List.append_nil] at hjoin
    exact Prod.ext hjoin hrest

/-- A gap is passed over. Whatever comes after it, unless its last comment is open to the end. -/
theorem scanAt_skipped {last : Bool} {gap rest : List Char} (h : Skipped last gap) (p : Position)
    (hrest : last = true → rest = []) : scanAt p (gap ++ rest) = scanAt (p.after gap) rest := by
  induction h generalizing p with
  | nil => rfl
  | @blank c gap hc _ ih =>
    have hcut : Lexeme.cut (c :: (gap ++ rest)) = some (.gap, [c], gap ++ rest) := by
      simp [Lexeme.cut, hc]
    rw [List.cons_append, scanAt_gap p hcut, ih]
    rfl
  | @line opening body gap hopening hbody hend _ ih =>
    have hall : ∀ c ∈ body, (c != '\n') = true := by
      intro c hc
      rw [bne_iff_ne]
      rintro rfl
      exact hbody hc
    have hrun : Lexeme.run (· != '\n') (body ++ (gap ++ rest)) = (body, gap ++ rest) := by
      rw [Lexeme.run, List.takeWhile_append_of_pos hall, List.dropWhile_append_of_pos hall]
      rcases hend with hend | ⟨hlast, rfl⟩
      · obtain ⟨tail, rfl⟩ := List.head?_eq_some_iff.mp hend
        simp
      · simp [hrest hlast]
    have hcut := Lexeme.cut_line hopening (body ++ (gap ++ rest))
    rw [hrun] at hcut
    simp only [List.append_assoc] at hcut ⊢
    rw [scanAt_gap p hcut, ih]
    simp
  | @block body gap hbody _ ih =>
    have hcut := Lexeme.cut_block (body ++ '*' :: '/' :: (gap ++ rest))
    rw [Lexeme.blockComment_closed hbody] at hcut
    simp only [List.append_assoc, List.cons_append, List.nil_append] at hcut ⊢
    rw [scanAt_gap p hcut, ih]
    simp
  | @openBlock body hbody hlast =>
    have hcut := Lexeme.cut_block body
    rw [Lexeme.blockComment_open hbody] at hcut
    rw [hrest hlast, List.append_nil, scanAt_gap p hcut]

/-- Up to where `rest` begins, a text says these tokens, and each of them is written like this. -/
inductive Says : List Char → List (Token × List Char) → List Char → Prop where
  | nil (rest : List Char) : Says [] [] rest
  | token {gap taken front rest : List Char} {t : Token} {said : List (Token × List Char)}
      (hgap : Skipped false gap) (htoken : FirstToken .origin t taken (front ++ rest))
      (h : Says front said rest) :
      Says (gap ++ taken ++ front) ((t.unplaced, taken) :: said) rest

theorem FirstToken.trim {p : Position} {t : Token} {taken rest rest' : List Char}
    (h : FirstToken p t taken rest) (htrim : Lexeme.Trims rest rest') :
    FirstToken p t taken rest' :=
  { h with scan := fun htrim' => h.scan (htrim.trans htrim') }

/-- Wherever it stands, the token is read. -/
theorem FirstToken.read {t : Token} {taken rest : List Char} (h : FirstToken .origin t taken rest)
    (p : Position) :
    scanAt p (taken ++ rest) =
      (scanAt (p.after taken) rest).withToken (t.movedTo p) (.between p (p.after taken)) := by
  have hafter : p.within (Position.origin.after taken) = p.after taken := by
    rw [p.within_after Position.counts_origin, p.within_origin]
  have hrest := scanAt_within p (Position.counts_origin.after taken) rest
  rw [hafter] at hrest
  have hscan : ScriptLint.scan (taken ++ rest) = scanAt .origin (taken ++ rest) := rfl
  rw [scanAt_eq_movedTo, hscan, h.scan (Lexeme.trims_refl rest), Scan.withToken_movedTo,
    ← hrest, Span.movedTo_between, p.within_origin, hafter]

/-- A scan that goes on after some tokens. -/
def Scan.withTokens (tokens : List SpannedToken) (s : Scan) : Scan :=
  { s with tokens := tokens ++ s.tokens }

namespace Says

variable {front front' rest rest' : List Char} {said said' : List (Token × List Char)}

/-- What is said does not depend on what comes after it, up to where this stops. -/
theorem trim (h : Says front said rest) (htrim : Lexeme.Trims rest rest') :
    Says front said rest' := by
  induction h with
  | nil => exact .nil rest'
  | token hgap htoken _ ih => exact .token hgap (htoken.trim (htrim.append_left _)) (ih htrim)

theorem append (h : Says front said (front' ++ rest)) (h' : Says front' said' rest) :
    Says (front ++ front') (said ++ said') rest := by
  generalize hmiddle : front' ++ rest = middle at h
  induction h with
  | nil => exact h'
  | @token gap taken front _ t said hgap htoken _ ih =>
    subst hmiddle
    rw [← List.append_assoc] at htoken
    rw [List.append_assoc]
    exact .token hgap htoken (ih rfl)

theorem endsSolid (h : Says front said rest) : Lexeme.EndsSolid front := by
  induction h with
  | nil => simp [Lexeme.EndsSolid]
  | @token gap taken front _ _ _ _ htoken _ ih =>
    intro c hc
    cases hlast : front.getLast? with
    | some d =>
      rw [List.getLast?_append, hlast] at hc
      exact ih c (hlast ▸ hc)
    | none =>
      obtain ⟨d, hd⟩ := List.getLast?_isSome.mpr htoken.ne_nil |> Option.isSome_iff_exists.mp
      rw [List.getLast?_append, hlast, List.getLast?_append, hd] at hc
      exact htoken.ends c (hd ▸ hc)

theorem eq_nil (h : Says front [] rest) : front = [] := by
  cases h
  rfl

/-- What a text says is read from it wherever it stands, and the last token ends with it. -/
theorem read (h : Says front said rest) (p : Position) : ∃ tokens,
    scanAt p (front ++ rest) = (scanAt (p.after front) rest).withTokens tokens ∧
      (∀ a ∈ tokens, a.1.isEof = false) ∧ wording tokens = said.map Prod.fst ∧
      ∀ a ∈ tokens.getLast?, a.2.stop = (p.after front).offset := by
  induction h generalizing p with
  | nil rest => exact ⟨[], rfl, by simp, rfl, by simp⟩
  | @token gap taken front rest t said hgap htoken h ih =>
    obtain ⟨tokens, hscan, heof, hsaid, hlast⟩ := ih (p.after (gap ++ taken))
    have hmoved : (t.movedTo (p.after gap)).isEof = false := by
      rw [Token.isEof_movedTo]
      exact htoken.isEof
    refine ⟨(t.movedTo (p.after gap), .between (p.after gap) (p.after (gap ++ taken))) :: tokens,
      ?_, ?_, ?_, ?_⟩
    · rw [List.append_assoc, List.append_assoc, scanAt_skipped hgap p (by simp), htoken.read,
        ← Position.after_append, hscan, ← Position.after_append]
      rfl
    · simpa [hmoved] using heof
    · rw [wording_cons hmoved, Token.unplaced_movedTo, hsaid, List.map_cons]
    · intro a ha
      cases tokens with
      | nil =>
        cases ha
        obtain rfl : said = [] := List.map_eq_nil_iff.mp hsaid.symm
        obtain rfl := h.eq_nil
        simp [Span.between]
      | cons b tokens =>
        rw [List.getLast?_cons_cons] at ha
        rw [hlast a ha, ← Position.after_append]

end Says

/-- One token after a gap. -/
theorem says_one {gap taken rest : List Char} {t : Token} (hgap : Skipped false gap)
    (ht : t.unplaced = t)
    (hcut : Lexeme.cut (taken ++ rest) = some (.token t, taken, rest)) :
    Says (gap ++ taken) [(t, taken)] rest := by
  have htoken := Says.token hgap (firstToken_of_cut (p := .origin) hcut) (.nil rest)
  rwa [ht, List.append_nil] at htoken

/-- A text that scans without a defect says what is found in it. -/
theorem exists_says_of_scanAt (before : List Char) {text : List Char}
    (herrors : (scanAt (Position.origin.after before) text).errors = []) :
    ∃ front gap, text = front ++ gap ∧ Skipped true gap ∧
      Says front (written (before ++ text) (scanAt (Position.origin.after before) text).tokens)
        gap := by
  induction hn : text.length using Nat.strong_induction_on generalizing before text with
  | _ n ih =>
    subst hn
    obtain ⟨gap, rest, rfl, hscan, hcase⟩ := exists_gap (Position.origin.after before) text
    rcases hcase with ⟨rfl, hgap⟩ | ⟨hsolid, hgap⟩
    · refine ⟨[], gap, by simp, hgap, ?_⟩
      rw [hscan]
      exact .nil gap
    rw [hscan] at herrors ⊢
    have horigin : (scan rest).errors = [] := by
      rw [scanAt_eq_movedTo] at herrors
      exact List.map_eq_nil_iff.mp herrors
    obtain ⟨t, taken, rest, rfl, hfirst⟩ := exists_firstToken (p := .origin) hsolid horigin
    have hread := hfirst.read (Position.origin.after (before ++ gap))
    rw [Position.after_append] at hread
    rw [hread] at herrors ⊢
    have hshorter : rest.length < (gap ++ (taken ++ rest)).length := by
      have hpos := List.length_pos_of_ne_nil hfirst.ne_nil
      simp only [List.length_append]
      omega
    have hsource : before ++ (gap ++ (taken ++ rest)) = before ++ gap ++ taken ++ rest := by simp
    have hend : ((Position.origin.after before).after gap).after taken =
        Position.origin.after (before ++ gap ++ taken) := by
      simp
    simp only [Scan.withToken] at herrors ⊢
    rw [hend] at herrors ⊢
    obtain ⟨front, gap', rfl, hgap', hspoken⟩ := ih rest.length hshorter _ herrors rfl
    refine ⟨gap ++ taken ++ front, gap', by simp, hgap', ?_⟩
    have hslice : slice? (before ++ gap ++ taken ++ (front ++ gap'))
        ((Position.origin.after before).after gap).offset
        (Position.origin.after (before ++ gap ++ taken)).offset = some taken :=
      slice?_eq_some_iff.mpr ⟨before ++ gap, front ++ gap', rfl, by simp, by simp [Nat.add_assoc]⟩
    have hmoved := (Token.isEof_movedTo ((Position.origin.after before).after gap) t).trans hfirst.isEof
    rw [hsource, written_cons hmoved, Token.unplaced_movedTo]
    simp only [Span.between, hslice, Option.getD_some]
    exact .token hgap hfirst hspoken

/-- A text that is tokenized says its tokens, up to a gap at its end. -/
theorem says_of_tokenize {text : List Char} {tokens : List SpannedToken}
    (h : tokenize text = .ok tokens) :
    ∃ front gap, text = front ++ gap ∧ Skipped true gap ∧ Says front (written text tokens) gap := by
  obtain ⟨herrors, rfl⟩ := tokenize_eq_ok_iff.mp h
  exact exists_says_of_scanAt [] herrors

/-- What a text says is what it is tokenized to. -/
theorem Says.tokenize {front gap : List Char} {said : List (Token × List Char)}
    (h : Says front said gap) (hgap : Skipped true gap) : ∃ tokens,
      tokenize (front ++ gap) = .ok tokens ∧ wording tokens = said.map Prod.fst ∧
      ∀ a ∈ (tokens.filter fun a => !a.1.isEof).getLast?, a.2.stop = byteLength front := by
  obtain ⟨tokens, hread, heof, hsaid, hlast⟩ := h.read .origin
  have hend := scanAt_skipped hgap (Position.origin.after front) (fun _ => rfl)
  rw [List.append_nil, scanAt_nil] at hend
  rw [hend] at hread
  have hscan : scan (front ++ gap) = scanAt .origin (front ++ gap) := rfl
  have hfilter : (tokens ++ (Scan.finished ((Position.origin.after front).after gap)).tokens).filter
      (fun a => !a.1.isEof) = tokens := by
    rw [List.filter_append, List.filter_eq_self.mpr fun a ha => by simp [heof a ha]]
    simp [Scan.finished, Token.isEof]
  refine ⟨_, tokenize_eq_ok_iff.mpr ⟨?_, rfl⟩, ?_, ?_⟩
  · rw [hscan, hread]
    rfl
  · rw [hscan, hread, ← hsaid]
    simp [Scan.withTokens, Scan.finished, wording, Token.isEof]
  · rw [hscan, hread]
    simpa [Scan.withTokens, hfilter] using hlast

theorem wording_tokensMovedTo (p : Position) (tokens : List SpannedToken) :
    wording (tokensMovedTo p tokens) = wording tokens := by
  induction tokens with
  | nil => rfl
  | cons a tokens ih =>
    obtain ⟨t, span⟩ := a
    unfold wording at ih ⊢
    rw [tokensMovedTo, List.filter_cons, List.filter_cons, Token.isEof_movedTo]
    split
    · rw [List.map_cons, List.map_cons, Token.unplaced_movedTo, ih]
    · exact ih

/-- A text says the same wherever it stands. -/
theorem scanAt_of_tokenize {text : List Char} {tokens : List SpannedToken}
    (h : tokenize text = .ok tokens) (p : Position) :
    (scanAt p text).errors = [] ∧ wording (scanAt p text).tokens = wording tokens := by
  obtain ⟨herrors, rfl⟩ := tokenize_eq_ok_iff.mp h
  rw [scanAt_eq_movedTo]
  exact ⟨List.map_eq_nil_iff.mpr herrors, wording_tokensMovedTo p _⟩

/-- A text after another one says what it says alone. -/
theorem Says.tokenize_append {front rest : List Char} {said : List (Token × List Char)}
    {tokens : List SpannedToken} (h : Says front said rest)
    (hrest : ScriptLint.tokenize rest = .ok tokens) :
    ∃ tokens', ScriptLint.tokenize (front ++ rest) = .ok tokens' ∧
      wording tokens' = said.map Prod.fst ++ wording tokens := by
  obtain ⟨read, hread, -, hsaid, -⟩ := h.read .origin
  obtain ⟨herrors, hwording⟩ := scanAt_of_tokenize hrest (Position.origin.after front)
  have hscan : scan (front ++ rest) = scanAt .origin (front ++ rest) := rfl
  refine ⟨_, tokenize_eq_ok_iff.mpr ⟨?_, rfl⟩, ?_⟩
  · rw [hscan, hread]
    exact herrors
  · rw [hscan, hread, ← hsaid, ← hwording]
    simp [Scan.withTokens, wording]

/-- A gap in front of a text says nothing. -/
theorem tokenize_skipped {gap rest : List Char} {tokens : List SpannedToken}
    (hgap : Skipped false gap) (hrest : tokenize rest = .ok tokens) :
    ∃ tokens', tokenize (gap ++ rest) = .ok tokens' ∧ wording tokens' = wording tokens := by
  obtain ⟨herrors, hwording⟩ := scanAt_of_tokenize hrest (Position.origin.after gap)
  have hscan : scan (gap ++ rest) = scanAt .origin (gap ++ rest) := rfl
  refine ⟨_, tokenize_eq_ok_iff.mpr ⟨?_, rfl⟩, ?_⟩
  · rw [hscan, scanAt_skipped hgap .origin (by simp)]
    exact herrors
  · rw [hscan, scanAt_skipped hgap .origin (by simp)]
    exact hwording

/-- A text is read as these tokens, of which the last one ends where the text does. -/
structure Reading (text : List Char) (tokens : List SpannedToken) : Prop where
  tokenize : tokenize text = .ok tokens
  ends : ((tokens.filter fun a => !a.1.isEof).getLast?).map (fun a => a.2.stop) =
    some (byteLength text)

/-- Up to its end, a text says how it is read. -/
theorem Reading.says_written {text : List Char} {tokens : List SpannedToken} (h : Reading text tokens) :
    Says text (written text tokens) [] := by
  obtain ⟨front, gap, rfl, hgap, hread⟩ := says_of_tokenize h.tokenize
  obtain ⟨tokens', htokenize, -, hstop⟩ := hread.tokenize hgap
  cases h.tokenize.symm.trans htokenize
  obtain ⟨a, ha, hend⟩ := Option.map_eq_some_iff.mp h.ends
  rw [hstop a ha, byteLength_append] at hend
  obtain rfl : gap = [] := eq_nil_of_byteLength (by omega)
  simpa using hread

/-- How a text is read, if its last token ends where it does. -/
def reading? (text : List Char) : Option (List SpannedToken) :=
  (tokenize text).toOption.filter fun tokens =>
    ((tokens.filter fun a => !a.1.isEof).getLast?).map (fun a => a.2.stop) == some (byteLength text)

theorem toOption_tokenize_eq_some_iff {text : List Char} {tokens : List SpannedToken} :
    (tokenize text).toOption = some tokens ↔ tokenize text = .ok tokens := by
  cases tokenize text <;> simp [Except.toOption]

theorem reading?_eq_some_iff {text : List Char} {tokens : List SpannedToken} :
    reading? text = some tokens ↔ Reading text tokens := by
  rw [reading?, Option.filter_eq_some_iff, toOption_tokenize_eq_some_iff, beq_iff_eq]
  exact ⟨fun h => ⟨h.1, h.2⟩, fun h => ⟨h.tokenize, h.ends⟩⟩

end ScriptLint
