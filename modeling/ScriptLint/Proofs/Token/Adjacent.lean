import ScriptLint.Proofs.Token.Wording
import Mathlib.Data.List.Chain

namespace ScriptLint
namespace Lexeme

/-- The second character can stand right after the first in a name or a number. -/
def runsOn (a b : Char) : Bool := isNumeral a && isNumeral b && (!isSign a || isDigit b)

/-- The second character can stand right after the first in a name, a number or a mark, or begins a
comment with it. -/
def joins (a b : Char) : Bool :=
  runsOn a b || a == '/' && (b == '/' || b == '*') ||
    Punct.byLength.any fun p => decide ([a, b] <:+: p.spelling.toList)

/-- No lexeme goes on from the end of the text to what stands after it. -/
def Clear (text tail : List Char) : Prop :=
  ∀ a ∈ text.getLast?, ∀ b ∈ tail.head?, joins a b = false

instance (text tail : List Char) : Decidable (Clear text tail) :=
  decidable_of_iff (text.getLast?.all (fun a => tail.head?.all fun b => !joins a b) = true)
    (by simp [Clear, Option.all_eq_true])

variable {text tail taken rest : List Char} {t : Token}

theorem Clear.suffix (front : List Char) (h : Clear (front ++ text) tail) (hne : text ≠ []) :
    Clear text tail := by
  intro a ha
  refine h a ?_
  rwa [List.getLast?_append_of_ne_nil _ hne]

theorem Clear.append_right (h : Clear text tail) (hne : tail ≠ []) (more : List Char) :
    Clear text (tail ++ more) := by
  intro a ha b hb
  refine h a ha b ?_
  rwa [List.head?_append_of_ne_nil _ hne] at hb

theorem joins_of_infix {a b : Char} {p : Punct} (h : [a, b] <:+: p.spelling.toList) :
    joins a b = true := by
  have hmem : p ∈ Punct.byLength := by cases p <;> decide
  have hany : Punct.byLength.any (fun p => decide ([a, b] <:+: p.spelling.toList)) = true :=
    List.any_eq_true.mpr ⟨p, hmem, decide_eq_true h⟩
  simp [joins, hany]

/-- What begins the longer text and has only characters next to each other that join begins the
text itself. -/
theorem Clear.isPrefix (hclear : Clear text tail) (hne : text ≠ []) (htaken : taken <+: text ++ tail)
    (hjoins : ∀ a b, [a, b] <:+: taken → joins a b = true) : taken <+: text := by
  rcases List.prefix_or_prefix_of_prefix htaken (List.prefix_append text tail) with h | ⟨more, rfl⟩
  · exact h
  · cases more with
    | nil => simp
    | cons b more =>
      obtain ⟨more', hmore⟩ := htaken
      rw [List.append_assoc, List.append_cancel_left_eq, List.cons_append] at hmore
      obtain ⟨front, a, rfl⟩ := (List.eq_nil_or_concat text).resolve_left hne
      have hjoined := hjoins a b ⟨front, more, by simp⟩
      rw [hclear a (by simp) b (by simp [← hmore])] at hjoined
      cases hjoined

/-- After a sign there is a digit. -/
def Signed (text : List Char) : Prop := text.IsChain fun a b => isSign a = true → isDigit b = true

theorem not_isSign_of_isNamePart {c : Char} (h : isNamePart c = true) : isSign c = false := by
  by_contra hsign
  simp only [Bool.not_eq_false, isSign, Bool.or_eq_true, beq_iff_eq] at hsign
  rcases hsign with rfl | rfl <;> cases h

theorem Signed.append (h : Signed text) (front : List Char)
    (hfront : front.all (fun c => !isSign c) = true) : Signed (front ++ text) := by
  induction front with
  | nil => exact h
  | cons c front ih =>
    rw [List.all_cons, Bool.and_eq_true, Bool.not_eq_true'] at hfront
    refine List.isChain_cons.mpr ⟨fun b _ hsign => ?_, ih hfront.2⟩
    rw [hfront.1] at hsign
    cases hsign

theorem signed_of_all (h : text.all isNamePart = true) : Signed text := by
  have hnil : Signed [] := List.isChain_nil
  have hsigned := hnil.append text <| List.all_eq_true.mpr fun c hc => by
    rw [not_isSign_of_isNamePart (List.all_eq_true.mp h c hc), Bool.not_false]
  rwa [List.append_nil] at hsigned

theorem all_not_isSign_digitGroups (text : List Char) :
    (digitGroups isDigit text).1.all (fun c => !isSign c) = true :=
  all_digitGroups (fun c hc => by
    rw [not_isSign_of_isNamePart (isNamePart_of_isDigit hc), Bool.not_false]) (by decide) text

theorem signed_digits (text : List Char) : Signed (run isDigit text).1 := by
  refine signed_of_all (List.all_eq_true.mpr fun c hc => ?_)
  exact isNamePart_of_isDigit (List.all_eq_true.mp (all_run isDigit text) c hc)

theorem signed_exponentPart (text : List Char) : Signed (exponentPart text).1 := by
  have hmark : ∀ {e}, isExponentMark e = true → isSign e = false := by
    intro e he
    simp only [isExponentMark, Bool.or_eq_true, beq_iff_eq] at he
    rcases he with rfl | rfl <;> decide
  rcases text with _ | ⟨e, _ | ⟨s, text⟩⟩
  · exact List.isChain_nil
  · exact List.isChain_nil
  · by_cases he : isExponentMark e = true
    · rw [exponentPart_cons he]
      split_ifs with hsigned hdigit
      · refine List.isChain_cons.mpr ⟨fun b _ hsign => ?_, List.isChain_cons.mpr ⟨?_, ?_⟩⟩
        · rw [hmark he] at hsign
          cases hsign
        · intro b hb _
          exact List.all_eq_true.mp (all_run isDigit text) b (List.mem_of_mem_head? hb)
        · exact signed_digits text
      · refine List.isChain_cons.mpr ⟨fun b _ hsign => ?_, signed_digits (s :: text)⟩
        rw [hmark he] at hsign
        cases hsign
      · exact List.isChain_nil
    · rw [exponentPart_of_not (by simpa using he)]
      exact List.isChain_nil

theorem signed_decimalFrom {whole : List Char} (hwhole : whole.all (fun c => !isSign c) = true)
    (text : List Char) : Signed (decimalFrom whole text).2.1 := by
  by_cases hpoint : text.head? = some '.'
  · obtain ⟨text, rfl⟩ := List.head?_eq_some_iff.mp hpoint
    have hdot : isSign '.' = false := by decide
    have hfront : (whole ++ '.' :: (digitGroups isDigit text).1).all (fun c => !isSign c) = true := by
      simp only [List.all_append, List.all_cons, hwhole, hdot, all_not_isSign_digitGroups]
      rfl
    have hsigned := (signed_exponentPart (digitGroups isDigit text).2).append _ hfront
    rw [decimalFrom_point]
    simpa using hsigned
  · rw [decimalFrom_of_ne whole hpoint]
    exact (signed_exponentPart text).append _ hwhole

theorem signed_number (text : List Char) : Signed (number text).2.1 := by
  unfold number
  split
  · next found hfound => exact signed_of_all (all_radixLiteral? hfound)
  · exact signed_decimalFrom (all_not_isSign_digitGroups text) _

theorem joins_of_signed (hall : taken.all isNumeral = true) (hsigned : Signed taken) {a b : Char}
    (h : [a, b] <:+: taken) : joins a b = true := by
  have hmem : ∀ c ∈ [a, b], isNumeral c = true := fun c hc =>
    List.all_eq_true.mp hall c (h.subset hc)
  have hpair := List.IsChain.infix hsigned h
  have hafter := List.isChain_pair.mp hpair
  have hruns : runsOn a b = true := by
    simp only [runsOn, hmem a (by simp), hmem b (by simp), Bool.true_and]
    cases hsign : isSign a
    · rfl
    · simp [hafter hsign]
  simp [joins, hruns]

theorem joins_of_all (hall : taken.all isNamePart = true) {a b : Char} (h : [a, b] <:+: taken) :
    joins a b = true :=
  joins_of_signed (List.all_eq_true.mpr fun c hc =>
    isNumeral_of_isNamePart (List.all_eq_true.mp hall c hc)) (signed_of_all hall) h

theorem trims_append_left (rest tail : List Char) : Trims (rest ++ tail) rest := by
  have h := (Trims.stop tail stops_nil).append_left rest
  rwa [List.append_nil] at h

/-- If the first token of the longer text ends within the text, it is the first one of the text. -/
theorem cut_append_of_isPrefix {t' : Token} {taken' rest' : List Char}
    (h : cut text = some (.token t, taken, rest))
    (h' : cut (text ++ tail) = some (.token t', taken', rest')) (hfront : taken' <+: text) :
    cut (text ++ tail) = some (.token t, taken, rest ++ tail) := by
  have hjoin := cut_append h'
  obtain ⟨more, rfl⟩ := hfront
  rw [List.append_assoc, List.append_cancel_left_eq] at hjoin
  subst hjoin
  have htrim := cut_trim h' (trims_append_left more tail)
  rw [h] at htrim
  simp only [Option.some.injEq, Prod.mk.injEq, token.injEq] at htrim
  obtain ⟨rfl, rfl, rfl⟩ := htrim
  exact h'

theorem beginsMark_append {c : Char} (h : beginsMark c text = true)
    (hclear : Clear (c :: text) tail) : beginsMark c (text ++ tail) = true := by
  cases text with
  | cons d text => exact h
  | nil =>
    cases tail with
    | nil => exact h
    | cons b tail =>
      have hjoins : joins c b = false := hclear c rfl b rfl
      simp only [joins, Bool.or_eq_false_iff] at hjoins
      simp only [beginsMark, Bool.not_eq_true', Bool.or_eq_false_iff] at h ⊢
      refine ⟨⟨h.1.1, ?_⟩, ?_⟩
      · by_contra hpoint
        simp only [Bool.not_eq_false, Bool.and_eq_true, beq_iff_eq] at hpoint
        obtain ⟨rfl, hdigit⟩ := hpoint
        have hb : isNumeral b = true := isNumeral_of_isDigit hdigit
        have hruns : runsOn '.' b = true := by simp [runsOn, hb, show isNumeral '.' = true by decide,
          show isSign '.' = false by decide]
        rw [hruns] at hjoins
        cases hjoins.1.1
      · simpa using hjoins.1.2

/-- A text that begins with a mark begins with a longest one. -/
theorem exists_punct? {p : Punct} (h : p.spelling.toList <+: text) : ∃ q, punct? text = some q := by
  have hmem : p ∈ Punct.byLength := by cases p <;> decide
  have hsome : (punct? text).isSome = true :=
    List.find?_isSome.mpr ⟨p, hmem, List.isPrefixOf_iff_prefix.mpr h⟩
  exact Option.isSome_iff_exists.mp hsome

/-- A token at the front of a text stays one when the text goes on, unless a lexeme does so too. -/
theorem cut_append_tail (h : cut text = some (.token t, taken, rest)) (hclear : Clear text tail) :
    cut (text ++ tail) = some (.token t, taken, rest ++ tail) := by
  cases begins_of_cut h with
  | @quote c hc text =>
    rw [cut_of_quote hc, Option.some.injEq] at h
    obtain ⟨body, hbody, rfl, rfl⟩ := exists_of_quoted h
    have hne : c ≠ '\\' := by rcases hc with rfl | rfl <;> decide
    have htext := stringBody_append c text
    rw [hbody] at htext
    have hlonger := stringBody_of_closed hne hbody (rest ++ tail)
    rw [List.cons_append, cut_of_quote hc, ← htext]
    simp only [List.append_assoc, List.cons_append]
    rw [quoted_of_stringBody hlonger]
    simp
  | @word c hc text =>
    obtain ⟨t', taken', rest', hword⟩ : ∃ t' taken' rest',
        word (c :: (text ++ tail)) = (.token t', taken', rest') := by
      unfold word
      simp only
      split <;> exact ⟨_, _, _, rfl⟩
    have h' : cut (c :: text ++ tail) = some (.token t', taken', rest') := by
      rw [List.cons_append, cut_of_nameStart hc, hword]
    have hall := all_word (c :: (text ++ tail))
    rw [hword] at hall
    exact cut_append_of_isPrefix h h' <|
      hclear.isPrefix (List.cons_ne_nil c text) ⟨_, cut_append h'⟩ fun _ _ => joins_of_all hall
  | @number c hc text =>
    obtain ⟨lexeme, taken', rest', hnumber⟩ : ∃ lexeme taken' rest',
        number (c :: (text ++ tail)) = (lexeme, taken', rest') := ⟨_, _, _, rfl⟩
    have hall := all_number (c :: (text ++ tail))
    have hsigned := signed_number (c :: (text ++ tail))
    have hjoin := number_append (c :: (text ++ tail))
    rw [hnumber] at hall hsigned hjoin
    obtain ⟨more, hmore⟩ := hclear.isPrefix (List.cons_ne_nil c text) ⟨_, hjoin⟩
      fun _ _ => joins_of_signed hall hsigned
    simp only at hjoin
    rw [← List.cons_append, ← hmore, List.append_assoc, List.append_cancel_left_eq] at hjoin
    subst hjoin
    -- cut off what was put after the text, the number is the one that was there
    have htrims : Trims (number (c :: (text ++ tail))).2.2 more := by
      rw [hnumber]
      exact trims_append_left more tail
    have htrim := number_trim (c :: (text ++ tail)) htrims
    rw [hnumber] at htrim
    simp only at htrim
    rw [cut_of_digit hc, Option.some.injEq, ← hmore, htrim] at h
    cases h
    rw [List.cons_append, cut_of_digit hc, hnumber]
  | @point d hd text =>
    have h' := cut_of_point hd (text ++ tail)
    have hall := all_decimalFrom List.all_nil ('.' :: d :: (text ++ tail))
    have hsigned := signed_decimalFrom List.all_nil ('.' :: d :: (text ++ tail))
    exact cut_append_of_isPrefix h h' <| hclear.isPrefix (by simp) ⟨_, cut_append h'⟩
      fun _ _ => joins_of_signed hall hsigned
  | @privateName d hd text =>
    have h' := cut_of_private hd (text ++ tail)
    have hinner : Clear (d :: text) tail := Clear.suffix ['#'] hclear (List.cons_ne_nil d text)
    have hfront := hinner.isPrefix (List.cons_ne_nil d text) ⟨_, run_append isNamePart _⟩
      fun _ _ => joins_of_all (all_run isNamePart (d :: text ++ tail))
    exact cut_append_of_isPrefix h h' (List.cons_prefix_cons.mpr ⟨rfl, hfront⟩)
  | @mark c text hmark =>
    have hlonger := cut_of_beginsMark (beginsMark_append hmark hclear)
    have hshorter := h
    rw [cut_of_beginsMark hmark, Option.some.injEq] at hshorter
    obtain ⟨p, rfl, rfl, htext, -⟩ := mark_eq_iff.mp hshorter
    have hfront : p.spelling.toList <+: c :: (text ++ tail) :=
      ⟨rest ++ tail, by rw [← List.append_assoc, ← htext, List.cons_append]⟩
    obtain ⟨q, hq⟩ := exists_punct? hfront
    have hmarked := List.find?_some hq
    rw [List.isPrefixOf_iff_prefix] at hmarked
    obtain ⟨rest', hrest'⟩ := hmarked
    have hmark' := mark_eq_iff.mpr ⟨q, rfl, rfl, hrest'.symm, hq⟩
    have h' : cut (c :: text ++ tail) = some (.token (.punct q), q.spelling.toList, rest') := by
      rw [List.cons_append, hlonger, hmark']
    exact cut_append_of_isPrefix h h' <|
      hclear.isPrefix (List.cons_ne_nil c text) ⟨_, hrest'⟩ fun _ _ => joins_of_infix

end Lexeme

theorem offset_le_of_mem_tokensMovedTo {p : Position} {tokens : List SpannedToken} {a : SpannedToken}
    (ha : a ∈ tokensMovedTo p tokens) : p.offset ≤ a.2.start := by
  induction tokens with
  | nil => cases ha
  | cons b tokens ih =>
    rw [tokensMovedTo, List.mem_cons] at ha
    rcases ha with rfl | ha
    · exact Nat.le_add_right _ _
    · exact ih ha

/-- A scan that begins further on does not find the first token. -/
theorem FirstToken.tokens_ne {t : Token} {taken rest : List Char}
    (h : FirstToken .origin t taken rest) {passed : List Char} (hpassed : passed ≠ [])
    (more : List Char) : (scanAt .origin (taken ++ rest)).tokens ≠
      (scanAt (Position.origin.after passed) more).tokens := by
  rw [h.scan (Lexeme.trims_refl rest), scanAt_eq_movedTo (Position.origin.after passed) more]
  intro heq
  have hmem : (t, Span.between .origin (Position.origin.after taken)) ∈
      tokensMovedTo (Position.origin.after passed) (ScriptLint.scan more).tokens := by
    have hcons := congrArg (List.head? ·) heq
    exact List.mem_of_mem_head? hcons.symm
  have hle := offset_le_of_mem_tokensMovedTo hmem
  have hpos := byteLength_pos hpassed
  simp [Span.between, Position.origin] at hle
  omega

/-- A first token is a lexeme of its own or a template. -/
theorem FirstToken.cut_or_raw {t : Token} {taken rest : List Char}
    (h : FirstToken .origin t taken rest) :
    Lexeme.cut (taken ++ rest) = some (.token t, taken, rest) ∨ ∃ pieces text,
      taken = '`' :: Template.writtenAll pieces ++ ['`'] ∧ Template.raw text = ⟨pieces, some rest⟩ ∧
        t = .template (Scan.parts scanAt (Position.origin.step '`') pieces).1 ∧
        (Scan.parts scanAt (Position.origin.step '`') pieces).2.1 = [] := by
  have hscan := h.scan (Lexeme.trims_refl rest)
  obtain ⟨c, tail, htaken⟩ := List.exists_cons_of_ne_nil h.ne_nil
  obtain ⟨lexeme, passed, more, hcut⟩ : ∃ lexeme passed more,
      Lexeme.cut (taken ++ rest) = some (lexeme, passed, more) := by
    rw [htaken]
    exact ⟨_, _, _, rfl⟩
  have hpassed : passed ≠ [] := by
    rw [htaken, List.cons_append] at hcut
    obtain ⟨tail', rfl, -⟩ := Lexeme.cut_cons_taken hcut
    exact List.cons_ne_nil c tail'
  cases lexeme with
  | gap => exact absurd (congrArg Scan.tokens (scanAt_gap .origin hcut)) (h.tokens_ne hpassed more)
  | malformed =>
    exact absurd (congrArg Scan.tokens (scanAt_malformed .origin hcut)) (h.tokens_ne hpassed more)
  | token t' =>
    rw [scanAt_token .origin hcut] at hscan
    simp only [Scan.withToken, Scan.mk.injEq, List.cons.injEq, Prod.mk.injEq] at hscan
    obtain ⟨⟨⟨rfl, hspan⟩, -⟩, -⟩ := hscan
    have hlength : byteLength passed = byteLength taken := by
      simpa [Span.between] using congrArg Span.stop hspan
    have hjoin := Lexeme.cut_append hcut
    obtain rfl := eq_of_isPrefix ⟨more, hjoin⟩ (List.prefix_append taken rest) hlength
    rw [List.append_cancel_left_eq] at hjoin
    exact .inl (hjoin ▸ hcut)
  | backtick =>
    obtain ⟨htext, rfl⟩ := Lexeme.eq_of_cut_backtick hcut
    generalize hraw : Template.raw more = raw
    obtain ⟨pieces, after⟩ := raw
    cases after with
    | none =>
      rw [htext, scanAt_unterminated .origin hraw rfl] at hscan
      simp only [Scan.withErrors, Scan.finished, Scan.withToken, Scan.mk.injEq, List.cons.injEq,
        Prod.mk.injEq] at hscan
      have heof := h.isEof
      rw [← hscan.1.1.1] at heof
      cases heof
    | some after =>
      rw [htext, scanAt_template .origin hraw rfl] at hscan
      simp only [Scan.withErrors, Scan.withToken, Scan.mk.injEq, List.cons.injEq,
        Prod.mk.injEq] at hscan
      obtain ⟨⟨⟨rfl, hspan⟩, -⟩, herrors⟩ := hscan
      have hpieces := (Template.raw_append (congrArg Template.Raw.rest hraw)).2
      rw [hraw] at hpieces
      change Template.writtenAll pieces ++ '`' :: after = more at hpieces
      have hwhole : '`' :: Template.writtenAll pieces ++ ['`'] ++ after = taken ++ rest := by
        rw [htext, ← hpieces]
        simp
      have hlength : byteLength ('`' :: Template.writtenAll pieces ++ ['`']) = byteLength taken := by
        rw [Scan.parts_end] at hspan
        simpa [Span.between, Nat.add_assoc] using congrArg Span.stop hspan
      have htaken := eq_of_isPrefix ⟨after, hwhole⟩ (List.prefix_append taken rest) hlength
      rw [htaken, List.append_cancel_left_eq] at hwhole
      subst hwhole
      have hend : ((Scan.parts scanAt (Position.origin.step '`') pieces).2.2).step '`' =
          Position.origin.after taken := by
        rw [Scan.parts_end, ← htaken]
        simp
      rw [hend] at herrors
      exact .inr ⟨pieces, more, htaken.symm, hraw, rfl, List.append_left_eq_self.mp herrors⟩

/-- A first token stays one when the text goes on, unless a lexeme does so too. -/
theorem FirstToken.append_tail {t : Token} {taken rest tail : List Char}
    (h : FirstToken .origin t taken rest) (hclear : Lexeme.Clear (taken ++ rest) tail) :
    FirstToken .origin t taken (rest ++ tail) := by
  rcases h.cut_or_raw with hcut | ⟨pieces, text, rfl, hraw, rfl, herrors⟩
  · have hcut' := Lexeme.cut_append_tail hcut hclear
    rw [List.append_assoc] at hcut'
    exact firstToken_of_cut hcut'
  · have hexchange := Template.raw_exchange (congrArg Template.Raw.rest hraw) (rest ++ tail)
    rw [hraw] at hexchange
    exact firstToken_of_raw hexchange herrors

end ScriptLint
