import ScriptLint.Proofs.Token.Placed
import ScriptLint.Proofs.Token.Wording
import ScriptLint.Proofs.Token.Adjacent

namespace ScriptLint

open Position (origin)

/-- A slice of a text that stands in the middle of another one. -/
theorem slice?_embedded {text mid : List Char} {start stop : Nat}
    (h : slice? text start stop = some mid) (before after : List Char) :
    slice? (before ++ text ++ after) (byteLength before + start) (byteLength before + stop) =
      some mid := by
  obtain ⟨a, b, rfl, rfl, rfl⟩ := slice?_eq_some_iff.mp h
  exact slice?_eq_some_iff.mpr
    ⟨before ++ a, b ++ after, by simp, by simp, by simp⟩

/-- From the end of one span that lies on a text to the start of another one. -/
theorem Span.On.exists_slice {text : List Char} {r q : Span} (hr : r.On text) (hq : q.On text)
    (hle : r.stop ≤ q.start) : ∃ mid, slice? text r.stop q.start = some mid := by
  have hstart : (position? text q.start).isSome := by rw [hq.position_start]; rfl
  exact Option.isSome_iff_exists.mp
    (slice?_isSome_of_position? hle hr.position_stop_isSome hstart)

/-- From the start of a span that lies on a text to the end of another one. -/
theorem Span.On.exists_slice_extendTo {text : List Char} {r q : Span} (hr : r.On text)
    (hq : q.On text) (hle : r.start ≤ q.stop) : ∃ mid, slice? text r.start q.stop = some mid := by
  have hstart : (position? text r.start).isSome := by rw [hr.position_start]; rfl
  exact Option.isSome_iff_exists.mp
    (slice?_isSome_of_position? hle hstart hq.position_stop_isSome)

theorem tokensMovedTo_eq_map (p : Position) (tokens : List SpannedToken) :
    tokensMovedTo p tokens = tokens.map fun a => (a.1.movedTo p, a.2.movedTo p) := by
  induction tokens with
  | nil => rfl
  | cons a tokens ih => rw [tokensMovedTo, ih, List.map_cons]

@[simp] theorem Scan.withTokens_movedTo (p : Position) (tokens : List SpannedToken) (s : Scan) :
    (s.withTokens tokens).movedTo p = (s.movedTo p).withTokens (tokensMovedTo p tokens) := by
  simp [Scan.withTokens, Scan.movedTo, tokensMovedTo_append]

/-- A text is tokenized, and no comment after its last token runs on to its end. -/
structure Closed (text : List Char) (tokens : List SpannedToken) : Prop where
  tokenize : tokenize text = .ok tokens
  gap : GapAt text (((tokens.filter fun a => !a.1.isEof).getLast?.map (·.2.stop)).getD 0)
    (byteLength text)

/-- The end of a text is a token of its own. -/
def endToken (text : List Char) : SpannedToken :=
  (.eof, .between (origin.after text) (origin.after text))

/-- What a closed text says, up to the gap at its end. -/
theorem Closed.exists_says {text : List Char} {tokens : List SpannedToken} (h : Closed text tokens) :
    ∃ front gap, text = front ++ gap ∧ Skipped false gap ∧ Says front (written text tokens) gap := by
  obtain ⟨hscan, hgap⟩ := h
  obtain ⟨front, gap, rfl, hskipped, htext⟩ := says_of_tokenize hscan
  refine ⟨front, gap, rfl, ?_, htext⟩
  obtain ⟨tokens', htokenize, -, hlast⟩ := htext.tokenize hskipped
  cases hscan.symm.trans htokenize
  obtain ⟨between, hslice, hbetween⟩ := hgap
  have hstop : ((tokens.filter fun a => !a.1.isEof).getLast?.map (·.2.stop)).getD 0 =
      byteLength front := by
    cases hcase : (tokens.filter fun a => !a.1.isEof).getLast? with
    | some a => exact hlast a hcase
    | none =>
      have hnil : written (front ++ gap) tokens = [] := by
        rw [written, List.getLast?_eq_none_iff.mp hcase, List.map_nil]
      rw [hnil] at htext
      rw [htext.eq_nil]
      rfl
  have hgap : slice? (front ++ gap) (byteLength front) (byteLength (front ++ gap)) = some gap :=
    slice?_eq_some_iff.mpr ⟨front, [], by simp, rfl, rfl⟩
  rw [hstop, hgap, Option.some.injEq] at hslice
  rwa [hslice]

theorem Keyword.spelling_of_ofSpelling? {name : String} {k : Keyword}
    (h : ofSpelling? name = some k) : k.spelling = name := by
  have hspelling := List.find?_some h
  exact beq_iff_eq.mp hspelling

variable {text a b gap tail : List Char} {tokens inner first second : List SpannedToken}

namespace Lexeme

/-- A character with which nothing goes on that begins before it: no name, number or comment, and no
mark. -/
def isLonely (c : Char) : Bool :=
  !isNumeral c && !(c == '/' || c == '*') &&
    Punct.byLength.all fun p => !p.spelling.toList.tail.contains c

theorem clear_of_isLonely {c : Char} (h : isLonely c = true) (text tail : List Char) :
    Clear text (c :: tail) := by
  rintro a _ b ⟨⟩
  simp only [isLonely, Bool.and_eq_true, Bool.not_eq_true'] at h
  obtain ⟨⟨hnumeral, hcomment⟩, hmarks⟩ := h
  have hmark : ∀ q ∈ Punct.byLength, ¬ [a, c] <:+: q.spelling.toList := by
    intro q hq hinfix
    have hsecond : q.spelling.toList.tail.contains c = true := by
      obtain ⟨x, y, hxy⟩ := hinfix
      rw [← hxy]
      cases x <;> simp
    have hnone := List.all_eq_true.mp hmarks q hq
    rw [hsecond] at hnone
    cases hnone
  simp only [joins, runsOn, hnumeral, hcomment, Bool.and_false, Bool.false_and, Bool.or_false,
    Bool.false_or, List.any_eq_false, decide_eq_true_eq]
  exact hmark

/-- With what begins a text after which no lexeme goes on, none does. -/
theorem Stops.clear (h : Stops tail) (text : List Char) : Clear text tail := by
  cases tail with
  | nil => simp [Clear]
  | cons c tail =>
    have hlonely : stops.all isLonely = true := by decide
    exact clear_of_isLonely (List.all_eq_true.mp hlonely c (mem_stops (h c rfl))) text tail

/-- No name goes on from the end of the text to what stands after it. -/
def Separate (text tail : List Char) : Prop :=
  ∀ a ∈ text.getLast?, ∀ b ∈ tail.head?, (isNamePart a && isNamePart b) = false

theorem Clear.separate (h : Clear text tail) : Separate text tail := by
  intro a ha b hb
  by_contra hname
  rw [Bool.not_eq_false, Bool.and_eq_true] at hname
  have hjoins : joins a b = true := by
    simp [joins, runsOn, isNumeral_of_isNamePart hname.1, isNumeral_of_isNamePart hname.2,
      not_isSign_of_isNamePart hname.1]
  exact Bool.false_ne_true ((h a ha b hb).symm.trans hjoins)

theorem Separate.suffix (front : List Char) (h : Separate (front ++ text) tail) (hne : text ≠ []) :
    Separate text tail := by
  intro a ha
  refine h a ?_
  rwa [List.getLast?_append_of_ne_nil _ hne]

/-- With what begins no name, none goes on. -/
theorem separate_of_head (h : ∀ c ∈ tail.head?, isNamePart c = false) (text : List Char) :
    Separate text tail :=
  fun _ _ b hb => by rw [h b hb, Bool.and_false]

theorem run_of_all {p : Char → Bool} (h : text.all p = true) (htail : ∀ c ∈ tail.head?, p c = false) :
    run p (text ++ tail) = (text, tail) := by
  have hall := List.all_eq_true.mp h
  have hnone : tail.takeWhile p = [] := by
    cases tail with
    | nil => rfl
    | cons c tail => exact List.takeWhile_cons_of_neg (by simp [htail c rfl])
  have htaken : (text ++ tail).takeWhile p = text := by
    rw [List.takeWhile_append_of_pos hall, hnone, List.append_nil]
  have hjoin := List.takeWhile_append_dropWhile (p := p) (l := text ++ tail)
  rw [htaken] at hjoin
  exact Prod.ext htaken (List.append_cancel_left hjoin)

end Lexeme

/-- What a text says is found in it whatever comes after it, unless a lexeme goes on to that. -/
theorem Says.exists_scanAt {front rest : List Char} {said : List (Token × List Char)}
    (h : Says front said rest) (p : Position) : ∃ tokens : List SpannedToken,
      (∀ a ∈ tokens, a.1.isEof = false) ∧ ∀ tail, Lexeme.Clear (front ++ rest) tail →
        scanAt p (front ++ (rest ++ tail)) =
          (scanAt (p.after front) (rest ++ tail)).withTokens tokens := by
  induction h generalizing p with
  | nil rest => exact ⟨[], by simp, fun _ _ => rfl⟩
  | @token gap taken front rest t said hgap htoken _ ih =>
    obtain ⟨tokens, heof, hscan⟩ := ih (p.after (gap ++ taken))
    refine ⟨(t.movedTo (p.after gap), .between (p.after gap) (p.after (gap ++ taken))) :: tokens,
      ?_, fun tail hclear => ?_⟩
    · have hmoved : (t.movedTo (p.after gap)).isEof = false := by
        rw [Token.isEof_movedTo]
        exact htoken.isEof
      simpa [hmoved] using heof
    · have hfirst : Lexeme.Clear (taken ++ (front ++ rest)) tail :=
        Lexeme.Clear.suffix gap (by simpa using hclear) (by simp [htoken.ne_nil])
      have hrest : Lexeme.Clear (front ++ rest) tail := by
        by_cases hnil : front ++ rest = []
        · rw [hnil]
          exact fun _ => nofun
        · exact hfirst.suffix taken hnil
      have hread := (htoken.append_tail hfirst).read (p.after gap)
      rw [List.append_assoc] at hread
      rw [List.append_assoc, List.append_assoc, scanAt_skipped hgap p (by simp), hread,
        ← Position.after_append, hscan tail hrest, ← Position.after_append]
      rfl

/-- In front of `tail` a text has these tokens, wherever it stands. -/
structure Spells (text : List Char) (inner : List SpannedToken) (tail : List Char) : Prop where
  plain : ∀ a ∈ inner, a.1.isEof = false
  scan : ∀ p, scanAt p (text ++ tail) =
    (scanAt (p.after text) tail).withTokens (tokensMovedTo p inner)

namespace Spells

theorem length_tokensMovedTo (p : Position) (tokens : List SpannedToken) :
    (tokensMovedTo p tokens).length = tokens.length := by
  rw [tokensMovedTo_eq_map, List.length_map]

/-- To move tokens twice is to move them once. -/
theorem movedTo_movedTo (h : Spells text inner tail) (p : Position) (before : List Char) :
    tokensMovedTo p (tokensMovedTo (origin.after before) inner) =
      tokensMovedTo (p.after before) inner := by
  have hmoved := scanAt_within p (Position.counts_origin.after before) (text ++ tail)
  rw [p.within_after Position.counts_origin, p.within_origin, h.scan, h.scan,
    Scan.withTokens_movedTo] at hmoved
  have htokens := congrArg Scan.tokens hmoved
  exact ((List.append_inj htokens (by simp only [length_tokensMovedTo])).1).symm

theorem append (h : Spells a first (b ++ tail)) (h' : Spells b second tail) :
    Spells (a ++ b) (first ++ tokensMovedTo (origin.after a) second) tail where
  plain c hc := by
    rcases List.mem_append.mp hc with hc | hc
    · exact h.plain c hc
    · rw [tokensMovedTo_eq_map, List.mem_map] at hc
      obtain ⟨d, hd, rfl⟩ := hc
      rw [Token.isEof_movedTo]
      exact h'.plain d hd
  scan p := by
    rw [List.append_assoc, h.scan, h'.scan, ← Position.after_append, tokensMovedTo_append,
      h'.movedTo_movedTo]
    simp [Scan.withTokens]

theorem ne_nil (h : Spells text inner tail) (hinner : inner ≠ []) : text ≠ [] := by
  rintro rfl
  have hlength := congrArg (fun scan => scan.tokens.length) (h.scan origin)
  simp [Scan.withTokens, length_tokensMovedTo, hinner] at hlength

theorem skipped (hgap : Skipped false gap) (tail : List Char) : Spells gap [] tail where
  plain := nofun
  scan p := scanAt_skipped hgap p nofun

end Spells

/-- All of a text. -/
theorem tokenize_of_spells (h : Spells text inner []) :
    tokenize text = .ok (tokensMovedTo origin inner ++ [endToken text]) := by
  have hread := h.scan origin
  rw [List.append_nil, scanAt_nil] at hread
  have hscan : scan text = scanAt origin text := rfl
  exact tokenize_eq_ok_iff.mpr ⟨by rw [hscan, hread]; rfl, by rw [hscan, hread]; rfl⟩

/-- A closed text has wherever it stands the tokens that it has alone. -/
theorem Closed.exists_spells (h : Closed text tokens) : ∃ inner, tokens = inner ++ [endToken text] ∧
    (∀ a ∈ inner, a.1.isEof = false) ∧ ∀ tail, Lexeme.Clear text tail →
      Spells text inner tail := by
  obtain ⟨front, gap, rfl, hgap, htext⟩ := h.exists_says
  obtain ⟨inner, heof, hread⟩ := htext.exists_scanAt origin
  have hall : ∀ tail, Lexeme.Clear (front ++ gap) tail → scanAt origin (front ++ gap ++ tail) =
      (scanAt (origin.after (front ++ gap)) tail).withTokens inner := by
    intro tail hclear
    rw [List.append_assoc, hread tail hclear, scanAt_skipped hgap _ nofun, ← Position.after_append]
  refine ⟨inner, ?_, heof, fun tail hclear => ⟨heof, fun p => ?_⟩⟩
  · have hwhole := hall [] fun _ _ => nofun
    rw [List.append_nil, scanAt_nil] at hwhole
    obtain ⟨-, rfl⟩ := tokenize_eq_ok_iff.mp h.tokenize
    have hscan : scan (front ++ gap) = scanAt origin (front ++ gap) := rfl
    rw [hscan, hwhole]
    rfl
  · have hscan : scan (front ++ gap ++ tail) = scanAt origin (front ++ gap ++ tail) := rfl
    rw [scanAt_eq_movedTo, hscan, hall tail hclear, Scan.withTokens_movedTo,
      ← scanAt_within p (Position.counts_origin.after _), p.within_after Position.counts_origin,
      p.within_origin]

/-- A text that is one token. -/
theorem Closed.spells_one {a : SpannedToken} (h : Closed text [a, endToken text])
    (hclear : Lexeme.Clear text tail) : Spells text [a] tail := by
  obtain ⟨inner, hinner, -, hspells⟩ := h.exists_spells
  obtain rfl : inner = [a] := (List.append_cancel_right hinner).symm
  exact hspells tail hclear

/-- A text of which the first lexeme is a token and all of it. -/
theorem spells_of_cut {token : Token} {taken rest : List Char}
    (h : Lexeme.cut (taken ++ rest) = some (.token token, taken, rest)) :
    Spells taken [(token, .between origin (origin.after taken))] rest := by
  have htoken := firstToken_of_cut (p := origin) h
  refine ⟨by simpa using htoken.isEof, fun p => ?_⟩
  rw [htoken.read]
  simp [Scan.withTokens, Scan.withToken, tokensMovedTo, p.within_after Position.counts_origin]

end ScriptLint
