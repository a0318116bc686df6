import ScriptLint.Proofs.Token.Exchange
import ScriptLint.Proofs.Token.Gap
import ScriptLint.Proofs.Token.Trim
import ScriptLint.Proofs.Source.Place
import ScriptLint.Token.Scan

namespace ScriptLint

/-- Scans a text that begins at a place, to its end. -/
def scanAt (p : Position) (text : List Char) : Scan := Scan.fromPlace (text.length + 1) p text

namespace Template

/-- The text of a substitution is shorter than the text after the opening backtick. -/
theorem length_of_mem_split {fuel : Nat} {text inside : List Char}
    (h : Piece.substitution inside ∈ (split fuel text).pieces) : inside.length < text.length := by
  induction fuel generalizing text with
  | zero => simp [split] at h
  | succ fuel ih =>
    cases hquasi : splitQuasi text with
    | none => simp [split, hquasi] at h
    | some found =>
      obtain ⟨quasi, ending, after⟩ := found
      cases ending with
      | backtick => simp [split, hquasi] at h
      | substitution =>
        have hjoin := splitQuasi_append hquasi
        cases hinside : splitSubstitution fuel 0 after with
        | none => simp [split, hquasi, hinside] at h
        | some found =>
          obtain ⟨first, tail⟩ := found
          have hsub := (split_append fuel).2 0 after first tail hinside
          simp only [split, hquasi, hinside, List.mem_cons, reduceCtorEq, false_or,
            Piece.substitution.injEq] at h
          have hlength : first.length + 1 + tail.length ≤ text.length := by
            rw [← hjoin, ← hsub]
            simp only [List.length_append, List.length_cons]
            omega
          rcases h with rfl | h
          · omega
          · have hshorter := ih h
            omega

end Template

namespace Scan

theorem parts_congr {scan scan' : Position → List Char → Scan} {pieces : List Template.Piece}
    (h : ∀ inside, .substitution inside ∈ pieces → ∀ p, scan p inside = scan' p inside)
    (p : Position) : parts scan p pieces = parts scan' p pieces := by
  induction pieces generalizing p with
  | nil => rfl
  | cons piece pieces ih =>
    have htail := ih fun inside hinside => h inside (List.mem_cons_of_mem _ hinside)
    cases piece with
    | quasi text => simp only [parts, htail]
    | substitution inside => simp only [parts, htail, h inside List.mem_cons_self]

theorem fromPlace_fuel {fuel fuel' : Nat} (p : Position) {text : List Char}
    (h : text.length < fuel) (h' : text.length < fuel') :
    fromPlace fuel p text = fromPlace fuel' p text := by
  induction fuel generalizing fuel' p text with
  | zero => omega
  | succ fuel ih =>
    obtain ⟨fuel', rfl⟩ : ∃ n, fuel' = n + 1 := ⟨fuel' - 1, by omega⟩
    cases text with
    | nil => rfl
    | cons c text =>
      rw [fromPlace, fromPlace]
      cases hcut : Lexeme.cut (c :: text) with
      | none => rfl
      | some found =>
        obtain ⟨lexeme, taken, rest⟩ := found
        obtain ⟨tail, rfl, rfl⟩ := Lexeme.cut_cons_taken hcut
        simp only [List.length_cons, List.length_append] at h h'
        have hrest : ∀ q, fromPlace fuel q rest = fromPlace fuel' q rest := fun q =>
          ih q (by omega) (by omega)
        cases lexeme with
        | gap => exact hrest _
        | token t => simp only [hrest]
        | malformed => simp only [hrest]
        | backtick =>
          have hparts : ∀ q, parts (fromPlace fuel) q (Template.raw rest).pieces =
              parts (fromPlace fuel') q (Template.raw rest).pieces := by
            refine parts_congr fun inside hinside q => ?_
            have hlength := Template.length_of_mem_split hinside
            exact ih q (by omega) (by omega)
          simp only [hparts]
          cases hraw : (Template.raw rest).rest with
          | none => rfl
          | some after =>
            have hjoin := congrArg List.length (Template.raw_append hraw).2
            simp only [List.length_append, List.length_cons] at hjoin
            simp only [ih _ (show after.length < fuel by omega) (show after.length < fuel' by omega)]

end Scan

theorem fromPlace_eq_scanAt {fuel : Nat} (p : Position) {text : List Char}
    (h : text.length < fuel) : Scan.fromPlace fuel p text = scanAt p text :=
  Scan.fromPlace_fuel p h (Nat.lt_succ_self _)

section
variable (p : Position) {text taken rest : List Char}

theorem scanAt_nil : scanAt p [] = .finished p := rfl

theorem length_rest_lt {lexeme : Lexeme} (hcut : Lexeme.cut text = some (lexeme, taken, rest)) :
    rest.length < text.length := by
  cases text with
  | nil => cases hcut
  | cons c text =>
    obtain ⟨tail, -, rfl⟩ := Lexeme.cut_cons_taken hcut
    simp only [List.length_append, List.length_cons]
    omega

theorem scanAt_gap (hcut : Lexeme.cut text = some (.gap, taken, rest)) :
    scanAt p text = scanAt (p.after taken) rest := by
  rw [scanAt, Scan.fromPlace, hcut]
  exact fromPlace_eq_scanAt _ (length_rest_lt hcut)

theorem scanAt_token {t : Token} (hcut : Lexeme.cut text = some (.token t, taken, rest)) :
    scanAt p text =
      (scanAt (p.after taken) rest).withToken t (.between p (p.after taken)) := by
  rw [scanAt, Scan.fromPlace, hcut]
  simp only [fromPlace_eq_scanAt _ (length_rest_lt hcut)]

theorem scanAt_malformed (hcut : Lexeme.cut text = some (.malformed, taken, rest)) :
    scanAt p text = (scanAt (p.after taken) rest).withErrors
      [Scan.defect taken (.between p (p.after taken))] := by
  rw [scanAt, Scan.fromPlace, hcut]
  simp only [fromPlace_eq_scanAt _ (length_rest_lt hcut)]

theorem parts_fromPlace {fuel : Nat} (hfuel : text.length ≤ fuel) :
    Scan.parts (Scan.fromPlace fuel) p (Template.raw text).pieces =
      Scan.parts scanAt p (Template.raw text).pieces := by
  refine Scan.parts_congr (fun inside hinside q => ?_) p
  have hlength := Template.length_of_mem_split hinside
  exact fromPlace_eq_scanAt q (by omega)

variable {pieces : List Template.Piece} {found : List TemplatePart} {errors : List ScanError}
  {r : Position}

/-- A template that is closed. -/
theorem scanAt_template (hraw : Template.raw text = ⟨pieces, some rest⟩)
    (hparts : Scan.parts scanAt (p.step '`') pieces = (found, errors, r)) :
    scanAt p ('`' :: text) =
      ((scanAt (r.step '`') rest).withToken (.template found)
        (.between p (r.step '`'))).withErrors errors := by
  have hcut : Lexeme.cut ('`' :: text) = some (.backtick, ['`'], text) := rfl
  have hrest : rest.length < text.length + 1 := by
    have hjoin := congrArg List.length (Template.raw_append (congrArg Template.Raw.rest hraw)).2
    simp only [List.length_append, List.length_cons] at hjoin
    omega
  have hpieces := parts_fromPlace (p.step '`') (Nat.le_add_right text.length 1)
  rw [hraw] at hpieces
  rw [scanAt, Scan.fromPlace, hcut]
  simp only [List.length_cons, Position.after_cons, Position.after_nil, hraw, hpieces, hparts]
  rw [fromPlace_eq_scanAt _ hrest]

/-- A template without its closing backtick. -/
theorem scanAt_unterminated (hraw : Template.raw text = ⟨pieces, none⟩)
    (hparts : Scan.parts scanAt (p.step '`') pieces = (found, errors, r)) :
    scanAt p ('`' :: text) =
      (Scan.finished (p.after ('`' :: text))).withErrors
        (errors ++ [.unterminatedTemplate (.between p (p.step '`'))]) := by
  have hcut : Lexeme.cut ('`' :: text) = some (.backtick, ['`'], text) := rfl
  have hpieces := parts_fromPlace (p.step '`') (Nat.le_add_right text.length 1)
  rw [hraw] at hpieces
  rw [scanAt, Scan.fromPlace, hcut]
  simp only [List.length_cons, Position.after_cons, Position.after_nil, hraw, hpieces, hparts]

end

theorem Scan.parts_end (scan : Position → List Char → Scan) (p : Position)
    (pieces : List Template.Piece) :
    (parts scan p pieces).2.2 = p.after (Template.writtenAll pieces) := by
  induction pieces generalizing p with
  | nil => rfl
  | cons piece pieces ih =>
    cases piece with
    | quasi text => simp [parts, ih, Template.writtenAll, Template.Piece.written]
    | substitution text => simp [parts, ih, Template.writtenAll, Template.Piece.written]

namespace Position

/-- The place that is as far from `p` as `q` is from the beginning of a text. -/
def within (p q : Position) : Position :=
  ⟨p.offset + q.offset, p.line + (q.line - 1),
    if q.line = 1 then p.column + (q.column - 1) else q.column⟩

/-- Lines and columns are counted from one. -/
def Counts (q : Position) : Prop := 1 ≤ q.line ∧ 1 ≤ q.column

theorem counts_origin : origin.Counts := ⟨le_rfl, le_rfl⟩

theorem Counts.step {q : Position} (h : q.Counts) (c : Char) : (q.step c).Counts := by
  obtain ⟨hline, hcolumn⟩ := h
  unfold Position.step Counts
  split
  · exact ⟨by simp, by simp⟩
  · exact ⟨hline, by simp⟩

theorem Counts.after {q : Position} (h : q.Counts) (text : List Char) : (q.after text).Counts := by
  induction text generalizing q with
  | nil => exact h
  | cons c text ih => exact ih (h.step c)

theorem within_step (p : Position) {q : Position} (h : q.Counts) (c : Char) :
    p.within (q.step c) = (p.within q).step c := by
  obtain ⟨hline, hcolumn⟩ := h
  unfold Position.step within
  by_cases hc : c = '\n'
  · simp only [hc, if_true, mk.injEq]
    refine ⟨by omega, by omega, ?_⟩
    rw [if_neg (by omega)]
  · simp only [hc, if_false, mk.injEq]
    refine ⟨by omega, trivial, ?_⟩
    split <;> omega

theorem within_after (p : Position) {q : Position} (h : q.Counts) (text : List Char) :
    p.within (q.after text) = (p.within q).after text := by
  induction text generalizing q with
  | nil => rfl
  | cons c text ih => rw [after_cons, after_cons, ih (h.step c), within_step p h]

@[simp] theorem within_origin (p : Position) : p.within origin = p := by
  simp [within, origin]

end Position

/-- A span of a text that begins at `p` instead. -/
def Span.movedTo (p : Position) (s : Span) : Span :=
  ⟨p.offset + s.start, p.offset + s.stop, p.line + (s.line - 1),
    if s.line = 1 then p.column + (s.column - 1) else s.column⟩

@[simp] theorem Span.movedTo_between (p q r : Position) :
    (Span.between q r).movedTo p = .between (p.within q) (p.within r) := rfl

mutual

/-- A token with the spans inside it moved. -/
def Token.movedTo (p : Position) : Token → Token
  | .template parts => .template (partsMovedTo p parts)
  | t => t

def partsMovedTo (p : Position) : List TemplatePart → List TemplatePart
  | [] => []
  | part :: parts => part.movedTo p :: partsMovedTo p parts

def TemplatePart.movedTo (p : Position) : TemplatePart → TemplatePart
  | .quasi raw span => .quasi raw (span.movedTo p)
  | .substitution tokens => .substitution (tokensMovedTo p tokens)

/-- Tokens with their spans and the spans inside them moved. -/
def tokensMovedTo (p : Position) : List (Token × Span) → List (Token × Span)
  | [] => []
  | (t, span) :: tokens => (t.movedTo p, span.movedTo p) :: tokensMovedTo p tokens

end

theorem tokensMovedTo_append (p : Position) (a b : List SpannedToken) :
    tokensMovedTo p (a ++ b) = tokensMovedTo p a ++ tokensMovedTo p b := by
  induction a with
  | nil => simp [tokensMovedTo]
  | cons x a ih => simp [tokensMovedTo, ih]

def ScanError.movedTo (p : Position) : ScanError → ScanError
  | .unexpectedCharacter c span => .unexpectedCharacter c (span.movedTo p)
  | .unterminatedTemplate span => .unterminatedTemplate (span.movedTo p)
  | .invalidToken text span => .invalidToken text (span.movedTo p)

theorem Scan.defect_movedTo (p : Position) (text : List Char) (span : Span) :
    defect text (span.movedTo p) = (defect text span).movedTo p := by
  unfold defect
  split <;> rfl

def Scan.movedTo (p : Position) (s : Scan) : Scan :=
  ⟨tokensMovedTo p s.tokens, s.errors.map (ScanError.movedTo p)⟩

namespace Scan
variable (p : Position)

@[simp] theorem finished_movedTo (q : Position) :
    (finished q).movedTo p = finished (p.within q) := rfl

@[simp] theorem withToken_movedTo (t : Token) (span : Span) (s : Scan) :
    (s.withToken t span).movedTo p = (s.movedTo p).withToken (t.movedTo p) (span.movedTo p) := rfl

@[simp] theorem withErrors_movedTo (errors : List ScanError) (s : Scan) :
    (s.withErrors errors).movedTo p =
      (s.movedTo p).withErrors (errors.map (ScanError.movedTo p)) := by
  simp [movedTo, withErrors]

/-- The parts of a template move with the template, if the scans of its substitutions do. -/
theorem parts_within {scan : Position → List Char → Scan} {pieces : List Template.Piece}
    (hscan : ∀ inside, .substitution inside ∈ pieces → ∀ q : Position, q.Counts →
      scan (p.within q) inside = (scan q inside).movedTo p)
    {q : Position} (hq : q.Counts) :
    parts scan (p.within q) pieces =
      (partsMovedTo p (parts scan q pieces).1,
        (parts scan q pieces).2.1.map (ScanError.movedTo p), p.within (parts scan q pieces).2.2) := by
  induction pieces generalizing q with
  | nil => rfl
  | cons piece pieces ih =>
    have htail := @ih fun inside hinside => hscan inside (List.mem_cons_of_mem _ hinside)
    cases piece with
    | quasi text =>
      simp only [parts, ← p.within_after hq, htail (hq.after text)]
      rfl
    | substitution text =>
      have hopen := hq.after ['$', '{']
      have hinside := hscan text List.mem_cons_self _ hopen
      simp only [parts, ← p.within_after hq, ← p.within_after hopen,
        ← p.within_step (hopen.after text), htail ((hopen.after text).step '}'), hinside]
      simp [movedTo, partsMovedTo, TemplatePart.movedTo]

end Scan

theorem Token.movedTo_of_not_template (p : Position) {t : Token}
    (h : ∀ parts, t ≠ .template parts) : t.movedTo p = t := by
  cases t with
  | template parts => exact absurd rfl (h parts)
  | _ => rfl

/-- No single lexeme is a whole template or the end of the text. -/
theorem plain_of_cut {text taken rest : List Char} {t : Token}
    (hcut : Lexeme.cut text = some (.token t, taken, rest)) :
    (∀ parts, t ≠ .template parts) ∧ t.isEof = false := by
  have hspells := Lexeme.cut_spells hcut
  cases t with
  | template parts => exact hspells.elim
  | eof => exact hspells.elim
  | _ => exact ⟨by simp, rfl⟩

/-- All that is found moves with the place where the text begins. -/
theorem scanAt_within (p : Position) {q : Position} (hq : q.Counts) (text : List Char) :
    scanAt (p.within q) text = (scanAt q text).movedTo p := by
  induction hn : text.length using Nat.strong_induction_on generalizing q text with
  | _ n ih =>
    subst hn
    cases hcut : Lexeme.cut text with
    | none =>
      cases text with
      | nil => rfl
      | cons c text => simp [Lexeme.cut] at hcut
    | some found =>
      obtain ⟨lexeme, taken, rest⟩ := found
      have hrest := ih rest.length (length_rest_lt hcut) (hq.after taken) rest rfl
      rw [p.within_after hq] at hrest
      cases lexeme with
      | gap => rw [scanAt_gap _ hcut, scanAt_gap _ hcut, hrest]
      | token t =>
        have ht := Token.movedTo_of_not_template p (plain_of_cut hcut).1
        rw [scanAt_token _ hcut, scanAt_token _ hcut, hrest, Scan.withToken_movedTo, ht,
          Span.movedTo_between, p.within_after hq]
      | malformed =>
        rw [scanAt_malformed _ hcut, scanAt_malformed _ hcut, hrest, Scan.withErrors_movedTo,
          List.map_singleton, ← Scan.defect_movedTo, Span.movedTo_between, p.within_after hq]
      | backtick =>
        obtain ⟨rfl, -⟩ := Lexeme.eq_of_cut_backtick hcut
        have hscan : ∀ inside, .substitution inside ∈ (Template.raw rest).pieces →
            ∀ q : Position, q.Counts → scanAt (p.within q) inside = (scanAt q inside).movedTo p := by
          intro inside hinside q hq
          have hlength := Template.length_of_mem_split hinside
          refine ih inside.length ?_ hq inside rfl
          rw [List.length_cons]
          omega
        have hparts := Scan.parts_within p hscan (hq.step '`')
        rw [p.within_step hq] at hparts
        have hend := Scan.parts_end scanAt (q.step '`') (Template.raw rest).pieces
        generalize hraw : Template.raw rest = raw at *
        obtain ⟨pieces, tail⟩ := raw
        cases tail with
        | none =>
          rw [scanAt_unterminated (p.within q) hraw hparts, scanAt_unterminated q hraw rfl]
          simp [ScanError.movedTo, p.within_step hq, p.within_after (hq.step '`')]
        | some after =>
          rw [scanAt_template (p.within q) hraw hparts, scanAt_template q hraw rfl]
          have hcounts : (Scan.parts scanAt (q.step '`') pieces).2.2.Counts := by
            rw [hend]
            exact (hq.step '`').after _
          have hafter : after.length < ('`' :: rest).length := by
            have hjoin := congrArg List.length
              (Template.raw_append (congrArg Template.Raw.rest hraw)).2
            simp only [List.length_append, List.length_cons] at hjoin ⊢
            omega
          have hnext := ih after.length hafter (hcounts.step '`') after rfl
          rw [p.within_step hcounts] at hnext
          simp [hnext, Token.movedTo, p.within_step hcounts]

/-- A text that begins at `p` is scanned like one that begins at the origin. -/
theorem scanAt_eq_movedTo (p : Position) (text : List Char) :
    scanAt p text = (scan text).movedTo p := by
  have h := scanAt_within p Position.counts_origin text
  rwa [Position.within_origin] at h

end ScriptLint
