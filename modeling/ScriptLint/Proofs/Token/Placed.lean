import ScriptLint.Proofs.Source.Slice
import ScriptLint.Proofs.Token.Lossless

namespace ScriptLint

/-- The text of a name or reserved word. -/
def Token.word? : Token → Option String
  | .identifier name => some name
  | .keyword word => some word.spelling
  | _ => none

/-- The text at a span is a name or reserved word. -/
structure WordAt (text : List Char) (span : Span) (word : String) : Prop where
  slice : slice? text span.start span.stop = some word.toList
  isWord : Lexeme.IsWord word.toList

/-- The text at a span is read as one token. -/
def TokenAt (text : List Char) (span : Span) (t : Token) : Prop :=
  ∃ p taken, slice? text span.start span.stop = some taken ∧ TokenReads p taken t

/-- Between two offsets there is nothing that stands for anything, and something comes after it. -/
def GapAt (text : List Char) (start stop : Nat) : Prop :=
  ∃ gap, slice? text start stop = some gap ∧ Skipped false gap

theorem GapAt.le {text : List Char} {start stop : Nat} (h : GapAt text start stop) :
    start ≤ stop := by
  obtain ⟨gap, hslice, -⟩ := h
  obtain ⟨a, b, -, rfl, rfl⟩ := slice?_eq_some_iff.mp hslice
  simp

mutual

/-- A token stands at a span of the text. A mark is written there as it is spelled, so that it
can be taken apart; a word is what is written there; a string is read there again; a template is
read there again and has its parts there. -/
inductive Placed (text : List Char) : Token → Span → Prop where
  | mark (m : Punct) (a b : List Char) (htext : a ++ m.spelling.toList ++ b = text) :
      Placed text (.punct m)
        (.between (Position.origin.after a) (Position.origin.after (a ++ m.spelling.toList)))
  | template {parts : List TemplatePart} {span : Span} (hspan : span.On text)
      (htoken : TokenAt text span (.template parts))
      (hparts : PartsPlaced text span.start span.stop parts) : Placed text (.template parts) span
  | plain {t : Token} {span : Span} (hspan : span.On text) (hmark : ∀ m, t ≠ .punct m)
      (htemplate : ∀ parts, t ≠ .template parts)
      (hword : ∀ word, t.word? = some word → WordAt text span word)
      (hstring : ∀ value, t = .string value → TokenAt text span t) : Placed text t span

/-- The parts of a template stand in turn and in order between two offsets. -/
inductive PartsPlaced (text : List Char) : Nat → Nat → List TemplatePart → Prop where
  | last {lo hi : Nat} {raw : String} {span : Span} (hspan : span.On text)
      (hlo : lo ≤ span.start) (hhi : span.stop ≤ hi) : PartsPlaced text lo hi [.quasi raw span]
  | more {lo opened closed hi : Nat} {raw : String} {span : Span} {tokens : List SpannedToken}
      {rest : List TemplatePart} (hspan : span.On text) (hlo : lo ≤ span.start)
      (hopened : span.stop ≤ opened) (htokens : TokensPlaced text opened closed tokens)
      (hrest : PartsPlaced text closed hi rest) :
      PartsPlaced text lo hi (.quasi raw span :: .substitution tokens :: rest)

/-- Tokens stand in order between two offsets, gaps before each of them, with the end of the text
last. -/
inductive TokensPlaced (text : List Char) : Nat → Nat → List SpannedToken → Prop where
  | last {lo hi : Nat} {span : Span} (hspan : span.On text) (hlo : lo ≤ span.start)
      (hhi : span.stop ≤ hi) : TokensPlaced text lo hi [(.eof, span)]
  | more {lo hi : Nat} {t : Token} {span : Span} {rest : List SpannedToken}
      (hgap : GapAt text lo span.start) (htoken : Placed text t span) (heof : t.isEof = false)
      (hrest : TokensPlaced text span.stop hi rest) : TokensPlaced text lo hi ((t, span) :: rest)

end

theorem Placed.span_on {text : List Char} {t : Token} {span : Span} (h : Placed text t span) :
    span.On text := by
  cases h with
  | mark m a b htext =>
    subst htext
    exact Span.on_between a m.spelling.toList b
  | template hspan => exact hspan
  | plain hspan => exact hspan

/-- A mark is not empty. -/
theorem Placed.start_lt_stop {text : List Char} {mark : Punct} {span : Span}
    (h : Placed text (.punct mark) span) : span.start < span.stop := by
  cases h with
  | mark m a b htext =>
    have hpos : 0 < byteLength mark.spelling.toList := by cases mark <;> decide
    simp only [Span.between, Position.offset_after, byteLength_append]
    omega
  | plain _ hmark => exact absurd rfl (hmark mark)

theorem PartsPlaced.weaken {text : List Char} {lo lo' hi hi' : Nat} {parts : List TemplatePart}
    (h : PartsPlaced text lo hi parts) (hle : lo' ≤ lo) (hge : hi ≤ hi') :
    PartsPlaced text lo' hi' parts := by
  match h with
  | .last hspan hlo hhi => exact .last hspan (hle.trans hlo) (hhi.trans hge)
  | .more hspan hlo hopened htokens hrest =>
    exact .more hspan (hle.trans hlo) hopened htokens (hrest.weaken le_rfl hge)

namespace TokensPlaced

variable {text : List Char} {lo hi i : Nat} {tokens : List SpannedToken} {a b : SpannedToken}

theorem le (h : TokensPlaced text lo hi tokens) : lo ≤ hi := by
  induction tokens generalizing lo with
  | nil => cases h
  | cons _ _ ih =>
    cases h with
    | last hspan hlo hhi => exact hlo.trans (hspan.start_le_stop.trans hhi)
    | more hgap htoken _ hrest =>
      exact hgap.le.trans (htoken.span_on.start_le_stop.trans (ih hrest))

theorem length_pos (h : TokensPlaced text lo hi tokens) : 0 < tokens.length := by
  cases h <;> simp

/-- Each of the tokens stands in place between the two offsets. -/
theorem token (h : TokensPlaced text lo hi tokens) (ha : tokens[i]? = some a) :
    Placed text a.1 a.2 ∧ lo ≤ a.2.start ∧ a.2.stop ≤ hi := by
  induction tokens generalizing lo i with
  | nil => simp at ha
  | cons _ _ ih =>
    cases i with
    | zero =>
      cases ha
      cases h with
      | last hspan hlo hhi =>
        exact ⟨.plain hspan (by simp) (by simp) (by simp [Token.word?]) (by simp), hlo, hhi⟩
      | more hgap htoken _ hrest => exact ⟨htoken, hgap.le, hrest.le⟩
    | succ i =>
      rw [List.getElem?_cons_succ] at ha
      cases h with
      | last => simp at ha
      | more hgap htoken _ hrest =>
        obtain ⟨hplaced, hstart, hstop⟩ := ih hrest ha
        exact ⟨hplaced, hgap.le.trans (htoken.span_on.start_le_stop.trans hstart), hstop⟩

theorem ordered (h : TokensPlaced text lo hi tokens) (ha : tokens[i]? = some a)
    (hb : tokens[i + 1]? = some b) : a.2.stop ≤ b.2.start := by
  induction tokens generalizing lo i with
  | nil => simp at ha
  | cons _ _ ih =>
    rw [List.getElem?_cons_succ] at hb
    cases h with
    | last => simp at hb
    | more hlo htoken _ hrest =>
      cases i with
      | zero =>
        cases ha
        exact (hrest.token hb).2.1
      | succ i => exact ih hrest ha hb

/-- Between two tokens there is a gap, if the second one is not the last. -/
theorem gap (h : TokensPlaced text lo hi tokens) (ha : tokens[i]? = some a)
    (hb : tokens[i + 1]? = some b) (hlt : i + 2 < tokens.length) :
    GapAt text a.2.stop b.2.start := by
  induction tokens generalizing lo i with
  | nil => simp at ha
  | cons _ _ ih =>
    rw [List.getElem?_cons_succ] at hb
    rw [List.length_cons] at hlt
    cases h with
    | last => simp at hb
    | more _ _ _ hrest =>
      cases i with
      | zero =>
        cases ha
        cases hrest with
        | last => simp at hlt
        | more hgap =>
          cases hb
          exact hgap
      | succ i => exact ih hrest ha hb (by omega)

theorem eof_of_last (h : TokensPlaced text lo hi tokens) (ha : tokens[i]? = some a)
    (hlast : i + 1 = tokens.length) : a.1 = .eof := by
  induction tokens generalizing lo i with
  | nil => simp at ha
  | cons _ rest ih =>
    rw [List.length_cons] at hlast
    cases i with
    | zero =>
      cases ha
      cases h with
      | last => rfl
      | more _ _ _ hrest =>
        have hpos := hrest.length_pos
        omega
    | succ i =>
      rw [List.getElem?_cons_succ] at ha
      cases h with
      | last => simp at ha
      | more _ _ _ hrest => exact ih hrest ha (by omega)

/-- Only the last token is the end of the text. -/
theorem isEof_of_lt (h : TokensPlaced text lo hi tokens) (ha : tokens[i]? = some a)
    (hlt : i + 1 < tokens.length) : a.1.isEof = false := by
  induction tokens generalizing lo i with
  | nil => simp at ha
  | cons _ rest ih =>
    rw [List.length_cons] at hlt
    cases h with
    | last => simp at hlt
    | more _ _ heof hrest =>
      cases i with
      | zero =>
        cases ha
        exact heof
      | succ i =>
        rw [List.getElem?_cons_succ] at ha
        exact ih hrest ha (by omega)

end TokensPlaced

theorem PartsPlaced.le {text : List Char} {lo hi : Nat} {parts : List TemplatePart}
    (h : PartsPlaced text lo hi parts) : lo ≤ hi := by
  match h with
  | .last hspan hlo hhi => exact hlo.trans (hspan.start_le_stop.trans hhi)
  | .more hspan hlo hopened htokens hrest =>
    exact hlo.trans (hspan.start_le_stop.trans (hopened.trans (htokens.le.trans hrest.le)))

/-- The tokens of every substitution stand in place. -/
theorem PartsPlaced.tokens {text : List Char} {lo hi : Nat} {parts : List TemplatePart}
    (h : PartsPlaced text lo hi parts) {ts : List SpannedToken}
    (hts : .substitution ts ∈ parts) : ∃ lo hi, TokensPlaced text lo hi ts := by
  match h with
  | .last .. => simp at hts
  | .more _ _ _ htokens hrest =>
    simp only [List.mem_cons, reduceCtorEq, false_or, TemplatePart.substitution.injEq] at hts
    rcases hts with rfl | hts
    · exact ⟨_, _, htokens⟩
    · exact hrest.tokens hts

private theorem placed_of_spells {p : Position} {t : Token} {taken : List Char}
    (hreads : TokenReads p taken t) (hspells : (Lexeme.token t).Spells taken) (a b : List Char) :
    Placed (a ++ taken ++ b) t
      (.between (Position.origin.after a) (Position.origin.after (a ++ taken))) := by
  have hspan := Span.on_between a taken b
  have hslice : slice? (a ++ taken ++ b) (Position.origin.after a).offset
      (Position.origin.after (a ++ taken)).offset = some taken :=
    slice?_eq_some_iff.mpr ⟨a, b, rfl, by simp, by simp⟩
  cases t with
  | punct m =>
    obtain rfl : taken = m.spelling.toList := hspells
    exact .mark m a b rfl
  | template parts => exact hspells.elim
  | eof => exact hspells.elim
  | keyword word =>
    obtain rfl : taken = word.spelling.toList := hspells
    refine .plain hspan (by simp) (by simp) ?_ (by simp)
    rintro _ ⟨⟩
    exact ⟨hslice, Lexeme.isWord_spelling word⟩
  | number value => exact .plain hspan (by simp) (by simp) (by simp [Token.word?]) (by simp)
  | string value =>
    exact .plain hspan (by simp) (by simp) (by simp [Token.word?]) fun _ _ =>
      ⟨p, taken, hslice, hreads⟩
  | identifier name =>
    obtain ⟨rfl, hword⟩ := hspells
    refine .plain hspan (by simp) (by simp) ?_ (by simp)
    rintro _ ⟨⟩
    exact ⟨hslice, hword⟩

/-- A text that is one token, but no template, is how the token is spelled. -/
theorem spells_of_alone {p : Position} {text : List Char} {t : Token} (h : Alone p text t)
    (htemplate : ∀ parts, t ≠ .template parts) : (Lexeme.token t).Spells text := by
  obtain ⟨t', rfl, halone⟩ := h
  obtain ⟨herrors, htokens⟩ := tokenize_eq_ok_iff.mp halone
  change (scanAt .origin text).errors = [] at herrors
  change (scanAt .origin text).tokens = _ at htokens
  obtain ⟨gap, rest, rfl, hscan, hcase⟩ := exists_gap .origin text
  rw [hscan] at herrors htokens
  rcases hcase with ⟨rfl, -⟩ | ⟨⟨lexeme, taken, tail, hcut, hsolid⟩, -⟩
  · simp [scanAt_nil, Scan.finished] at htokens
  have hjoin := Lexeme.cut_append hcut
  subst hjoin
  cases lexeme with
  | gap => exact absurd rfl hsolid
  | malformed =>
    rw [scanAt_malformed _ hcut] at herrors
    cases herrors
  | token t =>
    rw [scanAt_token _ hcut] at htokens
    obtain ⟨⟨rfl, hspan⟩, -⟩ : (t = t' ∧ _) ∧ _ := by
      simpa only [Scan.withToken, List.cons.injEq, Prod.mk.injEq] using htokens
    have hstart := congrArg Span.start hspan
    have hstop := congrArg Span.stop hspan
    simp only [Span.between, Position.offset_after, byteLength_append] at hstart hstop
    -- the token takes up all of the text
    obtain rfl : gap = [] := eq_nil_of_byteLength (by omega)
    obtain rfl : tail = [] := eq_nil_of_byteLength (by omega)
    have hspells := Lexeme.cut_spells hcut
    rw [Token.movedTo_of_not_template p (plain_of_cut hcut).1]
    simpa using hspells
  | backtick =>
    obtain ⟨-, rfl⟩ := Lexeme.eq_of_cut_backtick hcut
    rw [List.singleton_append] at herrors htokens
    generalize hraw : Template.raw tail = raw at *
    obtain ⟨pieces, after⟩ := raw
    generalize hparts : Scan.parts scanAt ((Position.origin.after gap).step '`') pieces = found
    obtain ⟨found, errors, r⟩ := found
    cases after with
    | none =>
      rw [scanAt_unterminated _ hraw hparts] at herrors
      simp [Scan.withErrors] at herrors
    | some after =>
      rw [scanAt_template _ hraw hparts] at htokens
      simp only [Scan.withErrors, Scan.withToken, List.cons.injEq, Prod.mk.injEq] at htokens
      obtain ⟨⟨rfl, -⟩, -⟩ := htokens
      exact absurd rfl (htemplate _)

mutual

/-- Tokens that are read stand in place in the text around them. -/
theorem Reads.placed {p : Position} {text : List Char} {tokens : List SpannedToken}
    (h : Reads p text tokens) (a c : List Char) (hp : p = Position.origin.after a) :
    TokensPlaced (a ++ text ++ c) (byteLength a) (byteLength (a ++ text)) tokens := by
  match h with
  | .last hgap =>
    subst hp
    refine .last ⟨a ++ text, a ++ text, List.prefix_refl _, List.prefix_append _ _, ?_⟩ ?_ ?_
    · rw [Position.after_append]
    · simp [Span.between]
    · simp [Span.between]
  | @Reads.more _ gap taken rest _ _ hgap hne heof htoken hrest =>
    subst hp
    have htoken := htoken.placed (a ++ gap) (rest ++ c) (by simp)
    have hrest := hrest.placed (a ++ gap ++ taken) c (by simp)
    simp only [List.append_assoc, ← Position.after_append] at htoken hrest ⊢
    refine .more ⟨gap, ?_, hgap⟩ htoken heof ?_
    · exact slice?_eq_some_iff.mpr
        ⟨a, taken ++ (rest ++ c), by simp, by simp, by simp [Span.between]⟩
    · simpa [Span.between, Nat.add_assoc] using hrest

theorem TokenReads.placed {p : Position} {text : List Char} {t : Token}
    (h : TokenReads p text t) (a c : List Char) (hp : p = Position.origin.after a) :
    Placed (a ++ text ++ c) t
      (.between (Position.origin.after a) (Position.origin.after (a ++ text))) := by
  match h with
  | .plain halone htemplate =>
    exact placed_of_spells (.plain halone htemplate) (spells_of_alone halone htemplate) a c
  | @TokenReads.template _ inside _ halone hparts =>
    subst hp
    have hreads := TokenReads.template halone hparts
    have hparts := hparts.placed (a ++ ['`']) (['`'] ++ c) (by simp)
    have hslice : slice? (a ++ ('`' :: inside ++ ['`']) ++ c) (Position.origin.after a).offset
        (Position.origin.after (a ++ ('`' :: inside ++ ['`']))).offset =
        some ('`' :: inside ++ ['`']) := slice?_eq_some_iff.mpr
          ⟨a, c, rfl, by simp, by simp [Nat.add_assoc]⟩
    refine .template (Span.on_between a _ c) ⟨_, _, hslice, hreads⟩ ?_
    have hstart : byteLength a ≤ byteLength (a ++ ['`']) := by simp
    have hstop : byteLength (a ++ ['`'] ++ inside) ≤ byteLength (a ++ ('`' :: inside ++ ['`'])) := by
      simp
    simpa [Span.between, Nat.add_assoc] using hparts.weaken hstart hstop

theorem PartsRead.placed {p : Position} {text : List Char} {parts : List TemplatePart}
    (h : PartsRead p text parts) (a c : List Char) (hp : p = Position.origin.after a) :
    PartsPlaced (a ++ text ++ c) (byteLength a) (byteLength (a ++ text)) parts := by
  match h with
  | .last raw =>
    subst hp
    refine .last ?_ ?_ ?_
    · rw [← Position.after_append]
      exact Span.on_between a raw c
    · simp [Span.between]
    · simp [Span.between]
  | @PartsRead.more _ raw source rest _ _ htokens horder hrest =>
    subst hp
    have htokens := htokens.placed (a ++ raw ++ ['$', '{']) (['}'] ++ rest ++ c) (by simp)
    have hrest := hrest.placed (a ++ raw ++ ['$', '{'] ++ source ++ ['}']) c (by simp)
    have hraw := Span.on_between a raw (['$', '{'] ++ source ++ ['}'] ++ rest ++ c)
    simp only [List.append_assoc, ← Position.after_append] at htokens hrest hraw ⊢
    refine .more hraw ?_ ?_ htokens (hrest.weaken ?_ le_rfl)
    · simp [Span.between]
    · simp [Span.between]
    · simp

end

/-- The tokens of a text stand in place. -/
theorem tokenize_placed {text : List Char} {tokens : List SpannedToken}
    (h : tokenize text = .ok tokens) : TokensPlaced text 0 (byteLength text) tokens := by
  obtain ⟨herrors, rfl⟩ := tokenize_eq_ok_iff.mp h
  have hplaced := (scanAt_reads .origin text herrors).placed [] [] rfl
  rwa [List.append_nil] at hplaced

end ScriptLint
