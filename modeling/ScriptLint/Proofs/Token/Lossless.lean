import ScriptLint.Proofs.Token.Moved

namespace ScriptLint

theorem tokenize_eq_ok_iff {text : List Char} {tokens : List SpannedToken} :
    tokenize text = .ok tokens ↔ (scan text).errors = [] ∧ (scan text).tokens = tokens := by
  simp only [tokenize]
  split
  · rename_i h
    simp [List.isEmpty_iff.mp h]
  · rename_i h
    simp [List.isEmpty_iff] at h
    simp [h]

/-- The text begins with a token, a template or a defect. -/
def BeginsSolid (text : List Char) : Prop :=
  ∃ lexeme taken rest, Lexeme.cut text = some (lexeme, taken, rest) ∧ lexeme ≠ .gap

theorem not_beginsSolid_of_blank {c : Char} (hc : Lexeme.isBlank c = true) (text : List Char) :
    ¬ BeginsSolid (c :: text) := by
  rintro ⟨lexeme, taken, rest, hcut, hne⟩
  simp only [Lexeme.cut, hc, if_true, Option.some.injEq, Prod.mk.injEq] at hcut
  exact hne hcut.1.symm

/-- A gap may stand before what is skipped already. -/
theorem skipped_of_cut {last : Bool} {text taken gap rest : List Char}
    (hcut : Lexeme.cut text = some (.gap, taken, gap ++ rest)) (hgap : Skipped last gap)
    (hrest : rest = [] ∧ last = true ∨ BeginsSolid rest) : Skipped last (taken ++ gap) := by
  generalize hjoin : gap ++ rest = tail at hcut
  cases Lexeme.hollow_of_cut hcut rfl with
  | blank hc => exact .blank hc hgap
  | line hopening text =>
    obtain ⟨hbody, hend⟩ := Lexeme.run_line text
    refine .line hopening hbody ?_ hgap
    rw [← hjoin] at hend
    cases gap with
    | cons c gap => exact .inl (hend.resolve_left (by simp))
    | nil =>
      rw [List.nil_append] at hend
      rcases hrest with ⟨-, hlast⟩ | hsolid
      · exact .inr ⟨hlast, rfl⟩
      · -- The line feed that ends the comment would begin the next token.
        exfalso
        cases rest with
        | nil =>
          obtain ⟨lexeme, taken, rest, hcut, -⟩ := hsolid
          cases hcut
        | cons c rest =>
          have hc : c = '\n' := by simpa using hend
          subst hc
          exact not_beginsSolid_of_blank rfl rest hsolid
  | block text =>
    rcases Lexeme.blockComment_cases text with ⟨body, hbody, hinfix⟩ | ⟨hnil, hinfix⟩
    · have h := Skipped.block hinfix hgap
      rw [hbody]
      simpa using h
    · rw [← hjoin, List.append_eq_nil_iff] at hnil
      obtain ⟨rfl, rfl⟩ := hnil
      have hlast : last = true := by
        rcases hrest with ⟨-, hlast⟩ | ⟨lexeme, taken, rest, hcut, -⟩
        · exact hlast
        · cases hcut
      rw [List.append_nil]
      exact .openBlock hinfix hlast

/-- Scanning passes over the gap at the front of a text. -/
theorem exists_gap (p : Position) (text : List Char) :
    ∃ gap rest, text = gap ++ rest ∧ scanAt p text = scanAt (p.after gap) rest ∧
      (rest = [] ∧ Skipped true gap ∨ BeginsSolid rest ∧ Skipped false gap) := by
  induction hn : text.length using Nat.strong_induction_on generalizing p text with
  | _ n ih =>
    subst hn
    cases hcut : Lexeme.cut text with
    | none =>
      cases text with
      | nil => exact ⟨[], [], rfl, rfl, .inl ⟨rfl, .nil⟩⟩
      | cons c text => simp [Lexeme.cut] at hcut
    | some found =>
      obtain ⟨lexeme, taken, tail⟩ := found
      by_cases hgap : lexeme = .gap
      · subst hgap
        have hjoin := Lexeme.cut_append hcut
        obtain ⟨gap, rest, rfl, hscan, hcase⟩ :=
          ih tail.length (length_rest_lt hcut) (p.after taken) tail rfl
        refine ⟨taken ++ gap, rest, by rw [← hjoin, List.append_assoc], ?_, ?_⟩
        · rw [scanAt_gap p hcut, hscan, Position.after_append]
        · rcases hcase with ⟨hrest, hskipped⟩ | ⟨hsolid, hskipped⟩
          · exact .inl ⟨hrest, skipped_of_cut hcut hskipped (.inl ⟨hrest, rfl⟩)⟩
          · exact .inr ⟨hsolid, skipped_of_cut hcut hskipped (.inr hsolid)⟩
      · exact ⟨[], text, rfl, rfl, .inr ⟨⟨lexeme, taken, tail, hcut, hgap⟩, .nil⟩⟩

/-- The text, scanned on its own, is this token and nothing else; the spans inside the token are
moved to the place where the text stands. -/
def Alone (p : Position) (text : List Char) (t : Token) : Prop :=
  ∃ t', t = t'.movedTo p ∧
    tokenize text = .ok [(t', .between .origin (Position.origin.after text)),
      (.eof, .between (Position.origin.after text) (Position.origin.after text))]

/-- The last token is the end of the text and no other is; the others have text of their own, one
after the other. -/
def InOrder (tokens : List SpannedToken) : Prop :=
  ∃ body stop, tokens = body ++ [(.eof, stop)] ∧
    (∀ a ∈ body, a.1.isEof = false ∧ a.2.start < a.2.stop) ∧
    tokens.Pairwise fun a b => a.2.stop ≤ b.2.start

mutual

/-- The tokens of a text that begins at a place: gaps and the texts of the tokens make up the
text. -/
inductive Reads : Position → List Char → List SpannedToken → Prop where
  | last {p : Position} {gap : List Char} (hgap : Skipped true gap) :
      Reads p gap [(.eof, .between (p.after gap) (p.after gap))]
  | more {p : Position} {gap taken rest : List Char} {t : Token} {tokens : List SpannedToken}
      (hgap : Skipped false gap) (hne : taken ≠ []) (heof : t.isEof = false)
      (htoken : TokenReads (p.after gap) taken t)
      (hrest : Reads (p.after (gap ++ taken)) rest tokens) :
      Reads p (gap ++ taken ++ rest)
        ((t, .between (p.after gap) (p.after (gap ++ taken))) :: tokens)

/-- The text of a token that stands at a place. -/
inductive TokenReads : Position → List Char → Token → Prop where
  | plain {p : Position} {taken : List Char} {t : Token} (halone : Alone p taken t)
      (htemplate : ∀ parts, t ≠ .template parts) : TokenReads p taken t
  | template {p : Position} {inside : List Char} {parts : List TemplatePart}
      (halone : Alone p ('`' :: inside ++ ['`']) (.template parts))
      (hparts : PartsRead (p.step '`') inside parts) :
      TokenReads p ('`' :: inside ++ ['`']) (.template parts)

/-- The text between the backticks of a template: quasis as they are written, and between them the
texts of the substitutions with `${` before and `}` after. -/
inductive PartsRead : Position → List Char → List TemplatePart → Prop where
  | last {p : Position} (raw : List Char) :
      PartsRead p raw [.quasi (String.ofList raw) (.between p (p.after raw))]
  | more {p : Position} (raw : List Char) {source rest : List Char} {tokens : List SpannedToken}
      {parts : List TemplatePart} (htokens : Reads (p.after (raw ++ ['$', '{'])) source tokens)
      (horder : InOrder tokens)
      (hrest : PartsRead (p.after (raw ++ ['$', '{'] ++ source ++ ['}'])) rest parts) :
      PartsRead p (raw ++ ['$', '{'] ++ source ++ ['}'] ++ rest)
        (.quasi (String.ofList raw) (.between p (p.after raw)) :: .substitution tokens :: parts)

end

theorem Reads.start_le {p : Position} {text : List Char} {tokens : List SpannedToken}
    (h : Reads p text tokens) {a : SpannedToken} (ha : a ∈ tokens) : p.offset ≤ a.2.start := by
  induction tokens generalizing p text with
  | nil => cases ha
  | cons b tokens ih =>
    cases h with
    | last =>
      simp only [List.mem_singleton] at ha
      subst ha
      simp [Span.between]
    | more hgap hne heof htoken hrest =>
      rcases List.mem_cons.mp ha with rfl | ha
      · simp [Span.between]
      · have hle := ih hrest ha
        simp only [Position.offset_after, byteLength_append] at hle
        omega

theorem Reads.inOrder {p : Position} {text : List Char} {tokens : List SpannedToken}
    (h : Reads p text tokens) : InOrder tokens := by
  induction tokens generalizing p text with
  | nil => cases h
  | cons b tokens ih =>
    cases h with
    | last =>
      exact ⟨[], _, rfl, by simp, by simp⟩
    | more hgap hne heof htoken hrest =>
      obtain ⟨body, stop, rfl, hbody, hpairwise⟩ := ih hrest
      refine ⟨_ :: body, stop, rfl, ?_, ?_⟩
      · intro a ha
        rcases List.mem_cons.mp ha with rfl | ha
        · have hpos := byteLength_pos hne
          refine ⟨heof, ?_⟩
          simp only [Span.between, Position.offset_after, byteLength_append]
          omega
        · exact hbody a ha
      · rw [List.pairwise_cons]
        exact ⟨fun a ha => hrest.start_le ha, hpairwise⟩

theorem alone_of_cut {text taken rest : List Char} {t : Token}
    (hcut : Lexeme.cut text = some (.token t, taken, rest)) (p : Position) : Alone p taken t := by
  have hsame := Lexeme.cut_trim hcut (.stop rest Lexeme.stops_nil)
  rw [List.append_nil] at hsame
  have hmoved := Token.movedTo_of_not_template p (plain_of_cut hcut).1
  refine ⟨t, hmoved.symm, tokenize_eq_ok_iff.mpr ?_⟩
  have hscan : scan taken = scanAt .origin taken := rfl
  rw [hscan, scanAt_token _ hsame, scanAt_nil]
  exact ⟨rfl, rfl⟩

theorem alone_of_raw {text rest : List Char} {pieces : List Template.Piece}
    (hraw : Template.raw text = ⟨pieces, some rest⟩) {p : Position}
    (herrors : (Scan.parts scanAt (p.step '`') pieces).2.1 = []) :
    Alone p ('`' :: Template.writtenAll pieces ++ ['`'])
      (.template (Scan.parts scanAt (p.step '`') pieces).1) := by
  have hsame : Template.raw (Template.writtenAll pieces ++ ['`']) = ⟨pieces, some []⟩ := by
    have h := Template.raw_exchange (congrArg Template.Raw.rest hraw) []
    rwa [hraw] at h
  have hscan : ∀ inside, .substitution inside ∈ pieces → ∀ q : Position, q.Counts →
      scanAt (p.within q) inside = (scanAt q inside).movedTo p :=
    fun inside _ q hq => scanAt_within p hq inside
  have hmoved := Scan.parts_within p hscan (Position.counts_origin.step '`')
  rw [p.within_step Position.counts_origin, Position.within_origin] at hmoved
  have hend := Scan.parts_end scanAt (Position.origin.step '`') pieces
  generalize hparts : Scan.parts scanAt (Position.origin.step '`') pieces = found at hmoved hend
  obtain ⟨found, errors, r⟩ := found
  rw [hmoved, List.map_eq_nil_iff] at herrors
  rw [hmoved]
  simp only at herrors hend
  subst herrors hend
  have halone : scan ('`' :: Template.writtenAll pieces ++ ['`']) =
      scanAt .origin ('`' :: (Template.writtenAll pieces ++ ['`'])) := rfl
  refine ⟨.template found, rfl, tokenize_eq_ok_iff.mpr ?_⟩
  rw [halone, scanAt_template _ hsame hparts, scanAt_nil]
  refine ⟨rfl, ?_⟩
  simp [Scan.withErrors, Scan.withToken, Scan.finished]

/-- The parts of a template are read from its pieces, if its substitutions are. -/
theorem partsRead_of_inTurn {pieces : List Template.Piece} (hturn : Template.InTurn pieces)
    (hreads : ∀ inside, .substitution inside ∈ pieces → ∀ p, (scanAt p inside).errors = [] →
      Reads p inside (scanAt p inside).tokens)
    (p : Position) (herrors : (Scan.parts scanAt p pieces).2.1 = []) :
    PartsRead p (Template.writtenAll pieces) (Scan.parts scanAt p pieces).1 := by
  induction hturn generalizing p with
  | last raw =>
    have h := PartsRead.last (p := p) raw
    simpa [Template.writtenAll, Template.Piece.written, Scan.parts] using h
  | @more raw inside pieces htail ih =>
    simp only [Scan.parts, List.append_eq_nil_iff, ← Position.after_append] at herrors ⊢
    obtain ⟨hinside, htailErrors⟩ := herrors
    have htokens := hreads inside (by simp) _ hinside
    have hnext : (p.after (raw ++ ['$', '{'] ++ inside)).step '}' =
        p.after (raw ++ ['$', '{'] ++ inside ++ ['}']) := by
      simp
    rw [hnext] at htailErrors ⊢
    have hrest := ih (fun inside hmem => hreads inside (by simp [hmem])) _ htailErrors
    have htext : Template.writtenAll (.quasi raw :: .substitution inside :: pieces) =
        raw ++ ['$', '{'] ++ inside ++ ['}'] ++ Template.writtenAll pieces := by
      simp [Template.writtenAll, Template.Piece.written]
    rw [htext]
    exact .more raw htokens htokens.inOrder hrest

/-- A scan without defects reads its whole text. -/
theorem scanAt_reads (p : Position) (text : List Char) (herrors : (scanAt p text).errors = []) :
    Reads p text (scanAt p text).tokens := by
  induction hn : text.length using Nat.strong_induction_on generalizing p text with
  | _ n ih =>
    subst hn
    obtain ⟨gap, rest, rfl, hscan, hcase⟩ := exists_gap p text
    rw [hscan] at herrors ⊢
    rcases hcase with ⟨rfl, hgap⟩ | ⟨⟨lexeme, taken, tail, hcut, hsolid⟩, hgap⟩
    · rw [List.append_nil]
      exact .last hgap
    have hjoin := Lexeme.cut_append hcut
    subst hjoin
    have hshorter := length_rest_lt hcut
    cases lexeme with
    | gap => exact absurd rfl hsolid
    | malformed =>
      rw [scanAt_malformed _ hcut] at herrors
      cases herrors
    | token t =>
      rw [scanAt_token _ hcut] at herrors ⊢
      rw [← Position.after_append] at herrors ⊢
      rw [← List.append_assoc]
      have hne : taken ≠ [] := by
        rintro rfl
        simp at hshorter
      obtain ⟨htemplate, heof⟩ := plain_of_cut hcut
      refine .more hgap hne heof (.plain (alone_of_cut hcut _) htemplate) ?_
      refine ih tail.length ?_ _ tail herrors rfl
      rw [List.length_append]
      omega
    | backtick =>
      obtain ⟨-, rfl⟩ := Lexeme.eq_of_cut_backtick hcut
      simp only [List.singleton_append] at herrors ⊢
      generalize hraw : Template.raw tail = raw at *
      obtain ⟨pieces, after⟩ := raw
      generalize hparts : Scan.parts scanAt ((p.after gap).step '`') pieces = found
      obtain ⟨found, errors, r⟩ := found
      have hend := Scan.parts_end scanAt ((p.after gap).step '`') pieces
      cases after with
      | none =>
        rw [scanAt_unterminated _ hraw hparts] at herrors
        simp [Scan.withErrors] at herrors
      | some after =>
        rw [scanAt_template _ hraw hparts] at herrors ⊢
        simp only [Scan.withErrors, Scan.withToken, List.append_eq_nil_iff] at herrors ⊢
        obtain ⟨hinside, hafter⟩ := herrors
        obtain ⟨hturn, htext⟩ := Template.raw_append (congrArg Template.Raw.rest hraw)
        rw [hraw] at hturn htext
        change Template.writtenAll pieces ++ '`' :: after = tail at htext
        have hlength := congrArg List.length htext
        simp only [List.length_append, List.length_cons] at hlength
        have hclose : r.step '`' =
            p.after (gap ++ ('`' :: Template.writtenAll pieces ++ ['`'])) := by
          rw [hparts] at hend
          simp only at hend
          simp [hend]
        have hsource : gap ++ '`' :: tail =
            gap ++ ('`' :: Template.writtenAll pieces ++ ['`']) ++ after := by
          simp [← htext]
        have hinsides : ∀ inside, .substitution inside ∈ pieces → ∀ p,
            (scanAt p inside).errors = [] → Reads p inside (scanAt p inside).tokens := by
          intro inside hmem q hq
          have hmem' : .substitution inside ∈ (Template.raw tail).pieces := by rwa [hraw]
          have hshort := Template.length_of_mem_split hmem'
          refine ih inside.length ?_ q inside hq rfl
          simp only [List.length_append, List.length_cons]
          omega
        have hpartsErrors : (Scan.parts scanAt ((p.after gap).step '`') pieces).2.1 = [] := by
          rw [hparts]
          exact hinside
        have htoken := TokenReads.template (alone_of_raw hraw hpartsErrors)
          (partsRead_of_inTurn hturn hinsides _ hpartsErrors)
        rw [hparts] at htoken
        rw [hclose] at hafter ⊢
        rw [hsource]
        refine .more hgap (by simp) rfl htoken (ih after.length ?_ _ after hafter rfl)
        simp only [List.length_append, List.length_cons]
        omega

/-- A text that is tokenized is made of its tokens, which stand in order, and of gaps. Every token
is spelled by what stands at its span, a template by its quasis and by the tokens of its
substitutions, however deep, and between two tokens there are blanks and comments only. -/
theorem tokenize_lossless {text : List Char} {tokens : List SpannedToken}
    (h : tokenize text = .ok tokens) : InOrder tokens ∧ Reads .origin text tokens := by
  obtain ⟨herrors, rfl⟩ := tokenize_eq_ok_iff.mp h
  have hreads := scanAt_reads .origin text herrors
  exact ⟨hreads.inOrder, hreads⟩

theorem tokenize_lossless_of_nested_template : ∃ tokens,
    tokenize "a /* b */ `p$\x7b`q$\x7bc\x7d` // d\n\x7d`".toList = .ok tokens ∧
    tokens =
      [(.identifier "a", ⟨0, 1, 1, 1⟩),
        (.template [.quasi "p" ⟨11, 12, 1, 12⟩,
          .substitution [(.template [.quasi "q" ⟨15, 16, 1, 16⟩,
              .substitution [(.identifier "c", ⟨18, 19, 1, 19⟩), (.eof, ⟨19, 19, 1, 20⟩)],
              .quasi "" ⟨20, 20, 1, 21⟩], ⟨14, 21, 1, 15⟩), (.eof, ⟨27, 27, 2, 1⟩)],
          .quasi "" ⟨28, 28, 2, 2⟩], ⟨10, 29, 1, 11⟩),
        (.eof, ⟨29, 29, 2, 3⟩)] ∧
    InOrder tokens ∧
      Reads .origin "a /* b */ `p$\x7b`q$\x7bc\x7d` // d\n\x7d`".toList tokens :=
  ⟨_, rfl, rfl, tokenize_lossless rfl⟩

end ScriptLint
