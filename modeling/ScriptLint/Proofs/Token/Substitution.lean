import ScriptLint.Proofs.Token.Passage

namespace ScriptLint

open Template (Passes isDelimiter)

namespace Lexeme

theorem run_newline {p : Char → Bool} (hp : p '\n' = false) (text : List Char) :
    run p (text ++ ['\n']) = ((run p text).1, (run p text).2 ++ ['\n']) := by
  induction text with
  | nil => simp [run, hp]
  | cons c text ih =>
    simp only [run, Prod.mk.injEq] at ih
    by_cases hc : p c = true
    · simp [run, hc, ih]
    · simp [run, hc]

/-- A block comment that is closed stays as it is; one that is not goes on to the new end. -/
theorem blockComment_newline (text : List Char) :
    blockComment (text ++ ['\n']) = ((blockComment text).1, (blockComment text).2 ++ ['\n']) ∨
      (blockComment text).2 = [] ∧ blockComment (text ++ ['\n']) = (text ++ ['\n'], []) := by
  fun_induction blockComment text with
  | case1 text => exact .inl rfl
  | case2 c text hfirst taken rest heq ih =>
    have hfirst' : ∀ rest, c = '*' → text ++ ['\n'] = '/' :: rest → False := by
      intro rest hc htext
      cases text with
      | nil => simp at htext
      | cons d text =>
        rw [List.cons_append, List.cons.injEq] at htext
        exact hfirst text hc (by rw [htext.1])
    rw [List.cons_append, blockComment]
    · rw [heq] at ih
      rcases ih with ih | ⟨hrest, ih⟩
      · exact .inl (by rw [ih])
      · exact .inr ⟨hrest, by rw [ih]⟩
    · exact hfirst'
  | case3 => exact .inr ⟨rfl, rfl⟩

theorem cut_line {opening : List Char} (hopening : opening = ['/', '/'] ∨ opening = ['#', '!'])
    (text : List Char) : cut (opening ++ text) =
      some (.gap, opening ++ (run (· != '\n') text).1, (run (· != '\n') text).2) := by
  rcases hopening with rfl | rfl <;> rfl

theorem cut_block (text : List Char) : cut ('/' :: '*' :: text) =
    some (.gap, '/' :: '*' :: (blockComment text).1, (blockComment text).2) := rfl

/-- A gap stays the same where a line feed is put after the text, or takes it in. -/
theorem cut_gap_newline {text taken rest : List Char} (h : cut text = some (.gap, taken, rest)) :
    cut (text ++ ['\n']) = some (.gap, taken, rest ++ ['\n']) ∨
      rest = [] ∧ cut (text ++ ['\n']) = some (.gap, text ++ ['\n'], []) := by
  have hjoin := cut_append h
  cases hollow_of_cut h rfl with
  | @blank c hc =>
    subst hjoin
    exact .inl (by simp [cut, hc])
  | line hopening text =>
    rw [List.append_assoc, run_append] at hjoin
    subst hjoin
    rw [List.append_assoc, cut_line hopening, run_newline rfl]
    exact .inl rfl
  | block text =>
    rw [List.cons_append, List.cons_append, blockComment_append] at hjoin
    subst hjoin
    rw [List.cons_append, List.cons_append, cut_block]
    rcases blockComment_newline text with hclosed | ⟨hrest, hopen⟩
    · exact .inl (by rw [hclosed])
    · exact .inr ⟨hrest, by rw [hopen]⟩

end Lexeme

/-- A token at the front of a text, with no blank at either end: it is found there whatever the text
after it is trimmed to, and the search for the end of a substitution passes over it. -/
structure FirstToken (p : Position) (t : Token) (taken rest : List Char) : Prop where
  ne_nil : taken ≠ []
  isEof : t.isEof = false
  begins : ∀ c ∈ taken.head?, Lexeme.isBlank c = false
  ends : Lexeme.EndsSolid taken
  passes : ∀ {depth depth'}, t.depthAfter depth = some depth' → Passes depth depth' taken
  scan : ∀ {rest'}, Lexeme.Trims rest rest' → scanAt p (taken ++ rest') =
    (scanAt (p.after taken) rest').withToken t (.between p (p.after taken))

theorem firstToken_of_cut {p : Position} {t : Token} {taken rest : List Char}
    (hcut : Lexeme.cut (taken ++ rest) = some (.token t, taken, rest)) :
    FirstToken p t taken rest where
  ne_nil := by
    rintro rfl
    exact absurd (length_rest_lt hcut) (lt_irrefl _)
  isEof := (plain_of_cut hcut).2
  begins c hc := by
    obtain ⟨tail, rfl⟩ := List.head?_eq_some_iff.mp hc
    by_contra hblank
    rw [Bool.not_eq_false] at hblank
    exact not_beginsSolid_of_blank hblank (tail ++ rest) ⟨_, _, _, hcut, by simp⟩
  ends := Lexeme.endsSolid_of_cut hcut
  passes := Template.passes_token hcut
  scan htrim := scanAt_token p (Lexeme.cut_trim hcut htrim)

theorem firstToken_of_raw {p : Position} {pieces : List Template.Piece} {text rest : List Char}
    (hraw : Template.raw text = ⟨pieces, some rest⟩)
    (herrors : (Scan.parts scanAt (p.step '`') pieces).2.1 = []) :
    FirstToken p (.template (Scan.parts scanAt (p.step '`') pieces).1)
      ('`' :: Template.writtenAll pieces ++ ['`']) rest where
  ne_nil := by simp
  isEof := rfl
  begins c hc := by
    cases hc
    decide
  ends := Lexeme.endsSolid_append_singleton _ (by decide)
  passes := by
    rintro depth depth' ⟨⟩
    exact Template.passes_template depth hraw
  scan {rest'} _ := by
    have hsame : Template.raw (Template.writtenAll pieces ++ '`' :: rest') = ⟨pieces, some rest'⟩ := by
      have h := Template.raw_exchange (congrArg Template.Raw.rest hraw) rest'
      rwa [hraw] at h
    have hend := Scan.parts_end scanAt (p.step '`') pieces
    generalize hparts : Scan.parts scanAt (p.step '`') pieces = found at herrors hend
    obtain ⟨found, errors, r⟩ := found
    simp only at herrors hend
    subst herrors hend
    have hwhole : '`' :: Template.writtenAll pieces ++ ['`'] ++ rest' =
        '`' :: (Template.writtenAll pieces ++ '`' :: rest') := by
      simp
    rw [hwhole, scanAt_template p hsame hparts]
    simp [Scan.withErrors]

theorem exists_firstToken {p : Position} {text : List Char} (hsolid : BeginsSolid text)
    (herrors : (scanAt p text).errors = []) :
    ∃ t taken rest, text = taken ++ rest ∧ FirstToken p t taken rest := by
  obtain ⟨lexeme, taken, rest, hcut, hgap⟩ := hsolid
  have hjoin := Lexeme.cut_append hcut
  cases lexeme with
  | gap => exact absurd rfl hgap
  | malformed =>
    rw [scanAt_malformed _ hcut] at herrors
    cases herrors
  | token t => exact ⟨t, taken, rest, hjoin.symm, firstToken_of_cut (hjoin ▸ hcut)⟩
  | backtick =>
    obtain ⟨rfl, rfl⟩ := Lexeme.eq_of_cut_backtick hcut
    generalize hraw : Template.raw rest = raw
    obtain ⟨pieces, after⟩ := raw
    cases after with
    | none =>
      rw [scanAt_unterminated _ hraw rfl] at herrors
      simp [Scan.withErrors] at herrors
    | some after =>
      have htext := (Template.raw_append (congrArg Template.Raw.rest hraw)).2
      rw [hraw] at htext
      change Template.writtenAll pieces ++ '`' :: after = rest at htext
      rw [scanAt_template _ hraw rfl] at herrors
      simp only [Scan.withErrors, Scan.withToken, List.append_eq_nil_iff] at herrors
      exact ⟨_, _, after, by simp [← htext], firstToken_of_raw hraw herrors.1⟩

/-- Every brace, quote and backtick of a text that begins at a place stands in one of the
tokens. -/
def Covers (p : Position) (text : List Char) (tokens : List SpannedToken) : Prop :=
  ∀ a c b, text = a ++ c :: b → isDelimiter c = true → ∃ t ∈ tokens,
    t.2.start ≤ p.offset + byteLength a ∧ p.offset + byteLength a < t.2.stop

section
variable {p : Position} {taken rest : List Char} {tokens : List SpannedToken}

theorem covers_nil (p : Position) (tokens : List SpannedToken) : Covers p [] tokens := by
  intro a c b h
  simp at h

theorem covers_cons {c : Char} : Covers p (c :: rest) tokens ↔
    (isDelimiter c = true → ∃ t ∈ tokens, t.2.start ≤ p.offset ∧ p.offset < t.2.stop) ∧
      Covers (p.step c) rest tokens := by
  constructor
  · intro h
    refine ⟨fun hc => by simpa using h [] c rest rfl hc, fun a d b hrest hd => ?_⟩
    have hmem := h (c :: a) d b (by rw [hrest, List.cons_append]) hd
    simpa [Nat.add_assoc] using hmem
  · rintro ⟨hfirst, hrest⟩ a d b htext hd
    cases a with
    | nil =>
      cases htext
      simpa using hfirst hd
    | cons c' a =>
      rw [List.cons_append, List.cons.injEq] at htext
      obtain ⟨rfl, htext⟩ := htext
      have hmem := hrest a d b htext hd
      simpa [Nat.add_assoc] using hmem

instance decidableCovers : (p : Position) → (text : List Char) → (tokens : List SpannedToken) →
    Decidable (Covers p text tokens)
  | p, [], tokens => isTrue (covers_nil p tokens)
  | p, c :: text, tokens =>
    have := decidableCovers (p.step c) text tokens
    decidable_of_iff _ covers_cons.symm

theorem Covers.drop (h : Covers p (taken ++ rest) tokens) : Covers (p.after taken) rest tokens := by
  rintro a c b rfl hc
  have hmem := h (taken ++ a) c b (by simp) hc
  simpa [Nat.add_assoc] using hmem

/-- What comes after a token does not stand in it. -/
theorem Covers.tail {t : Token}
    (h : Covers p (taken ++ rest) ((t, .between p (p.after taken)) :: tokens)) :
    Covers (p.after taken) rest tokens := by
  intro a c b hrest hc
  obtain ⟨u, hu, hstart, hstop⟩ := h.drop a c b hrest hc
  rcases List.mem_cons.mp hu with rfl | hu
  · simp only [Span.between] at hstop
    omega
  · exact ⟨u, hu, hstart, hstop⟩

/-- What comes before all tokens has no delimiters. -/
theorem Covers.bare (h : Covers p (taken ++ rest) tokens)
    (hstart : ∀ t ∈ tokens, (p.after taken).offset ≤ t.2.start) : Lexeme.Bare taken := by
  intro c hc
  by_contra hdelimiter
  obtain ⟨a, b, rfl⟩ := List.append_of_mem hc
  obtain ⟨t, ht, hle, -⟩ := h a c (b ++ rest) (by simp) (by simpa using hdelimiter)
  have hge := hstart t ht
  have hpos := c.utf8Size_pos
  simp only [Position.offset_after, byteLength_append, byteLength_cons] at hge
  omega

end

theorem beginsSolid_of_cut {text taken rest : List Char} {lexeme : Lexeme}
    (hcut : Lexeme.cut text = some (lexeme, taken, rest)) (hgap : lexeme ≠ .gap) :
    BeginsSolid text := ⟨lexeme, taken, rest, hcut, hgap⟩

/-- The search for the end of a substitution passes over a text that scans and has its delimiters
in tokens. -/
theorem passes_of_scanAt {p : Position} {text : List Char} (herrors : (scanAt p text).errors = [])
    (hcovers : Covers p text (scanAt p text).tokens) {depth depth' : Nat}
    (hdepth : (scanAt p text).tokens.foldlM (fun d t => t.1.depthAfter d) depth = some depth') :
    Passes depth depth' text := by
  induction hn : text.length using Nat.strong_induction_on generalizing p text depth with
  | _ n ih =>
    subst hn
    cases hcut : Lexeme.cut text with
    | none =>
      cases text with
      | nil =>
        obtain rfl : depth = depth' := by
          simpa [scanAt_nil, Scan.finished, Token.depthAfter] using hdepth
        exact Template.passes_nil depth
      | cons c text => simp [Lexeme.cut] at hcut
    | some found =>
      obtain ⟨lexeme, taken, rest⟩ := found
      by_cases hgap : lexeme = .gap
      · subst hgap
        have hjoin := Lexeme.cut_append hcut
        have hshorter := length_rest_lt hcut
        rw [scanAt_gap p hcut] at herrors hcovers hdepth
        subst hjoin
        have hreads := scanAt_reads _ _ herrors
        have hbare := hcovers.bare fun t ht => hreads.start_le ht
        exact (Template.passes_bare depth hbare).append
          (ih rest.length hshorter herrors hcovers.drop hdepth rfl)
      · obtain ⟨t, taken, rest, rfl, hfirst⟩ :=
          exists_firstToken (beginsSolid_of_cut hcut hgap) herrors
        have hscan := hfirst.scan (Lexeme.trims_refl rest)
        rw [hscan] at herrors hcovers hdepth
        simp only [Scan.withToken, List.foldlM_cons] at herrors hcovers hdepth
        obtain ⟨middle, hmiddle, hrest⟩ := Option.bind_eq_some_iff.mp hdepth
        have hshorter : rest.length < (taken ++ rest).length := by
          have hpos := List.length_pos_of_ne_nil hfirst.ne_nil
          rw [List.length_append]
          omega
        exact (hfirst.passes hmiddle).append (ih rest.length hshorter herrors hcovers.tail hrest rfl)

/-- A line feed after a text changes nothing but where the text ends. -/
theorem scanAt_newline {p : Position} {text : List Char} (herrors : (scanAt p text).errors = []) :
    ∃ body stop, (scanAt p text).tokens = body ++ [(.eof, stop)] ∧
      scanAt p (text ++ ['\n']) =
        ⟨body ++ (Scan.finished (p.after (text ++ ['\n']))).tokens, []⟩ := by
  induction hn : text.length using Nat.strong_induction_on generalizing p text with
  | _ n ih =>
    subst hn
    cases hcut : Lexeme.cut text with
    | none =>
      cases text with
      | nil => exact ⟨[], _, rfl, rfl⟩
      | cons c text => simp [Lexeme.cut] at hcut
    | some found =>
      obtain ⟨lexeme, taken, rest⟩ := found
      by_cases hgap : lexeme = .gap
      · subst hgap
        have hjoin := Lexeme.cut_append hcut
        have hshorter := length_rest_lt hcut
        rw [scanAt_gap p hcut] at herrors ⊢
        rcases Lexeme.cut_gap_newline hcut with hsame | ⟨rfl, hwhole⟩
        · obtain ⟨body, stop, hbody, hscan⟩ := ih rest.length hshorter herrors rfl
          refine ⟨body, stop, hbody, ?_⟩
          rw [scanAt_gap p hsame, hscan, ← Position.after_append, ← List.append_assoc, hjoin]
        · refine ⟨[], _, rfl, ?_⟩
          rw [scanAt_gap p hwhole]
          rfl
      · obtain ⟨t, taken, rest, rfl, hfirst⟩ :=
          exists_firstToken (beginsSolid_of_cut hcut hgap) herrors
        have hscan := hfirst.scan (Lexeme.trims_refl rest)
        have hshorter : rest.length < (taken ++ rest).length := by
          have hpos := List.length_pos_of_ne_nil hfirst.ne_nil
          rw [List.length_append]
          omega
        rw [hscan] at herrors ⊢
        obtain ⟨body, stop, hbody, hrest⟩ := ih rest.length hshorter herrors rfl
        have hstops : Lexeme.Stops ['\n'] := Lexeme.stops_cons (by rfl) []
        have hnewline := hfirst.scan (Lexeme.trims_append hstops rest)
        refine ⟨(t, .between p (p.after taken)) :: body, stop, ?_, ?_⟩
        · simp [Scan.withToken, hbody]
        · rw [List.append_assoc, hnewline, hrest]
          simp [Scan.withToken]

/-- A template with the text as its only substitution. -/
def substituted (text : List Char) : List Char := ['`', '$', '{'] ++ text ++ ['\n', '}', '`']

/-- The tokens of that template, if those of the text are known: they stand three bytes further
on. -/
def substitutedTokens (text : List Char) (tokens : List SpannedToken) : List SpannedToken :=
  let q := Position.origin.after (['`', '$', '{'] ++ text ++ ['\n'])
  let r := q.after ['}', '`']
  [(.template [.quasi "" ⟨1, 1, 1, 2⟩,
      .substitution (tokensMovedTo ⟨3, 1, 4⟩ tokens ++ [(.eof, .between q q)]),
      .quasi "" (.between (q.after ['}']) (q.after ['}']))], .between .origin r),
    (.eof, .between r r)]

theorem raw_substituted {text : List Char} (h : Passes 0 0 text) :
    Template.raw ('$' :: '{' :: (text ++ ['\n', '}', '`'])) =
      ⟨[.quasi [], .substitution (text ++ ['\n']), .quasi []], some []⟩ := by
  have hnewline : Passes 0 0 ['\n'] := by
    refine Template.passes_bare 0 fun c hc => ?_
    rw [List.mem_singleton] at hc
    subst hc
    rfl
  have hsplit : ∀ fuel, text.length + 2 ≤ fuel →
      Template.splitSubstitution fuel 0 (text ++ ['\n', '}', '`']) =
        some (text ++ ['\n'], ['`']) := by
    intro fuel hfuel
    have hlength : (text ++ ['\n']).length = text.length + 1 := by simp
    obtain ⟨fuel', hfuel', hpassed⟩ := h.append hnewline fuel ['}', '`'] (by omega)
    obtain ⟨fuel', rfl⟩ : ∃ n, fuel' = n + 1 := ⟨fuel' - 1, by omega⟩
    rw [Template.splitSubstitution_close] at hpassed
    simpa [Template.kept] using hpassed
  have hlength : ('$' :: '{' :: (text ++ ['\n', '}', '`'])).length = text.length + 5 := by simp
  rw [Template.raw, hlength, Template.split]
  simp [Template.splitQuasi, hsplit, Template.split]

/-- A text that scans without defects, has its braces balanced and its delimiters in tokens gives
its own tokens again as the substitution of a template, where they stand: the substitution ends at
the brace behind the text, and nothing of the text is taken for the end of it. -/
theorem tokenize_substituted {text : List Char} {tokens : List SpannedToken}
    (h : tokenize text = .ok tokens)
    (hbraces : tokens.foldlM (fun d t => t.1.depthAfter d) 0 = some 0)
    (hcovers : Covers .origin text tokens) :
    tokenize (substituted text) = .ok (substitutedTokens text tokens.dropLast) := by
  obtain ⟨herrors, rfl⟩ := tokenize_eq_ok_iff.mp h
  have hpasses : Passes 0 0 text := passes_of_scanAt herrors hcovers hbraces
  have hmoved := scanAt_eq_movedTo ⟨3, 1, 4⟩ text
  have herrors' : (scanAt ⟨3, 1, 4⟩ text).errors = [] := by
    rw [hmoved, Scan.movedTo, herrors]
    rfl
  obtain ⟨body, stop, hbody, -⟩ := scanAt_newline herrors
  obtain ⟨body', stop', hbody', hnewline⟩ := scanAt_newline herrors'
  change (scan text).tokens = _ at hbody
  obtain rfl : tokensMovedTo ⟨3, 1, 4⟩ body = body' := by
    have hsame : tokensMovedTo ⟨3, 1, 4⟩ body ++ [(.eof, stop.movedTo ⟨3, 1, 4⟩)] =
        body' ++ [(.eof, stop')] := by
      rw [← hbody', hmoved, Scan.movedTo, hbody, tokensMovedTo_append]
      rfl
    exact (List.append_inj' hsame rfl).1
  have hwhole : scan (substituted text) =
      scanAt .origin ('`' :: '$' :: '{' :: (text ++ ['\n', '}', '`'])) := rfl
  -- The place after the opening backtick, the dollar and the brace is where the text begins.
  have hopen : (Position.origin.step '`').after ['$', '{'] = ⟨3, 1, 4⟩ := rfl
  have hstart : Position.origin.after (['`', '$', '{'] ++ text ++ ['\n']) =
      Position.after ⟨3, 1, 4⟩ (text ++ ['\n']) := by
    rw [List.append_assoc, Position.after_append]
    rfl
  refine tokenize_eq_ok_iff.mpr ?_
  rw [hwhole, scanAt_template _ (raw_substituted hpasses) rfl, substitutedTokens, hstart, hbody,
    List.dropLast_concat]
  simp only [Position.after_nil, hopen, hnewline]
  exact ⟨rfl, rfl⟩

theorem tokenize_substituted_object :
    tokenize (substituted "\x7ba: '\x7d'\x7d // b".toList) =
      .ok (substitutedTokens "\x7ba: '\x7d'\x7d // b".toList
        [(.punct .leftBrace, ⟨0, 1, 1, 1⟩), (.identifier "a", ⟨1, 2, 1, 2⟩),
          (.punct .colon, ⟨2, 3, 1, 3⟩), (.string "\x7d", ⟨4, 7, 1, 5⟩),
          (.punct .rightBrace, ⟨7, 8, 1, 8⟩)]) := by
  have htokens : tokenize "\x7ba: '\x7d'\x7d // b".toList =
      .ok [(.punct .leftBrace, ⟨0, 1, 1, 1⟩), (.identifier "a", ⟨1, 2, 1, 2⟩),
        (.punct .colon, ⟨2, 3, 1, 3⟩), (.string "\x7d", ⟨4, 7, 1, 5⟩),
        (.punct .rightBrace, ⟨7, 8, 1, 8⟩), (.eof, ⟨13, 13, 1, 14⟩)] := rfl
  exact tokenize_substituted htokens rfl (by decide)

/-- A brace in a comment ends the substitution: the text gives its tokens on its own, it has no
open comment and no brace is a token, but as a substitution it is cut off inside the comment. -/
theorem not_tokenize_substituted :
    Skipped false "/* \x7d */ ".toList ∧
    tokenize "/* \x7d */ a".toList =
      .ok [(.identifier "a", ⟨8, 9, 1, 9⟩), (.eof, ⟨9, 9, 1, 10⟩)] ∧
    tokenize (substituted "/* \x7d */ a".toList) ≠
      .ok (substitutedTokens "/* \x7d */ a".toList [(.identifier "a", ⟨8, 9, 1, 9⟩)]) := by
  refine ⟨?_, rfl, ?_⟩
  · have hbody : ¬ ['*', '/'] <:+: [' ', '}', ' '] := by decide
    exact .block hbody (.blank rfl .nil)
  · intro h
    have hactual : tokenize (substituted "/* \x7d */ a".toList) = .ok
        [(.template [.quasi "" ⟨1, 1, 1, 2⟩, .substitution [(.eof, ⟨6, 6, 1, 7⟩)],
          .quasi " */ a\n\x7d" ⟨7, 14, 1, 8⟩], ⟨0, 15, 1, 1⟩), (.eof, ⟨15, 15, 2, 3⟩)] := rfl
    rw [hactual] at h
    simp [substitutedTokens, tokensMovedTo] at h

end ScriptLint
