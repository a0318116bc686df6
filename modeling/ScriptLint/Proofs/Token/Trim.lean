import ScriptLint.Proofs.Token.Cut

namespace ScriptLint
namespace Lexeme

/-- Characters with which no lexeme goes on. -/
def isStop (c : Char) : Bool := isBlank c || c == ')' || c == ';'

/-- Nothing stands here, or a character with which no lexeme goes on. -/
def Stops (tail : List Char) : Prop := ∀ c ∈ tail.head?, isStop c = true

/-- The second text begins as the first one does, and stops somewhere. -/
inductive Trims : List Char → List Char → Prop where
  | stop (rest : List Char) {tail : List Char} (htail : Stops tail) : Trims rest tail
  | keep (c : Char) {rest rest' : List Char} (h : Trims rest rest') : Trims (c :: rest) (c :: rest')

theorem stops_nil : Stops [] := by
  intro c hc
  cases hc

theorem stops_cons {c : Char} (hc : isStop c = true) (tail : List Char) : Stops (c :: tail) := by
  intro d hd
  cases hd
  exact hc

theorem Stops.head {c : Char} {tail : List Char} (h : Stops (c :: tail)) : isStop c = true :=
  h c rfl

theorem Trims.append_left {rest rest' : List Char} (h : Trims rest rest') (front : List Char) :
    Trims (front ++ rest) (front ++ rest') := by
  induction front with
  | nil => exact h
  | cons c front ih => exact .keep c ih

/-- A text may go on after its end, if it stops there. -/
theorem trims_append {tail : List Char} (htail : Stops tail) (text : List Char) :
    Trims text (text ++ tail) := by
  have h := (Trims.stop [] htail).append_left text
  rwa [List.append_nil] at h

theorem trims_refl (text : List Char) : Trims text text := by
  have h := trims_append stops_nil text
  rwa [List.append_nil] at h

theorem Trims.trans {a b c : List Char} (h : Trims a b) (h' : Trims b c) : Trims a c := by
  induction h generalizing c with
  | @stop rest tail htail =>
    refine .stop rest ?_
    cases h' with
    | stop _ hstop => exact hstop
    | keep d _ => exact stops_cons htail.head _
  | keep d _ ih =>
    cases h' with
    | stop _ hstop => exact .stop _ hstop
    | keep _ h' => exact .keep d (ih h')

/-- All characters with which no lexeme goes on. -/
def stops : List Char := [' ', '\t', '\r', '\n', '\x0c', '\ufeff', ')', ';']

theorem mem_stops {c : Char} (h : isStop c = true) : c ∈ stops := by
  simpa [isStop, isBlank, stops, or_assoc] using h

/-- A property of characters that fails of every one with which a lexeme stops. -/
def Inner (p : Char → Bool) : Prop := ∀ c, isStop c = true → p c = false

theorem inner_of_all {p : Char → Bool} (h : stops.all (fun c => !p c) = true) : Inner p := by
  intro c hc
  have hnot := List.all_eq_true.mp h c (mem_stops hc)
  simpa using hnot

theorem inner_isDigit : Inner isDigit := inner_of_all (by decide)

theorem inner_isNamePart : Inner isNamePart := inner_of_all (by decide)

theorem inner_isDigitOf (base : Nat) : Inner (isDigitOf base) := by
  have hvalue : Inner fun c => (Escape.hexValue? c).isSome := inner_of_all (by decide)
  intro c hc
  have hnone := hvalue c hc
  rw [Option.isSome_eq_false_iff, Option.isNone_iff_eq_none] at hnone
  simp [isDigitOf, hnone]

theorem Stops.head_ne {c d : Char} {tail : List Char} (h : Stops (c :: tail))
    (hd : isStop d = false) : c ≠ d := by
  rintro rfl
  rw [h.head] at hd
  cases hd

theorem Trims.head_false {p : Char → Bool} (hp : Inner p) {rest rest' : List Char}
    (htrim : Trims rest rest') (h : ∀ d ∈ rest.head?, p d = false) :
    ∀ d ∈ rest'.head?, p d = false := by
  intro d hd
  cases htrim with
  | stop _ htail => exact hp d (htail d hd)
  | keep =>
    cases hd
    exact h d rfl

theorem run_trim {p : Char → Bool} (hp : Inner p) (text : List Char) {rest' : List Char}
    (htrim : Trims (run p text).2 rest') :
    run p ((run p text).1 ++ rest') = ((run p text).1, rest') := by
  have hall : ∀ c ∈ (run p text).1, p c = true := List.all_eq_true.mp List.all_takeWhile
  have hhead : ∀ c ∈ rest'.head?, p c = false := by
    refine htrim.head_false hp fun c hc => ?_
    have hdrop := List.head?_dropWhile_not p text
    rw [show List.dropWhile p text = (run p text).2 from rfl, hc] at hdrop
    simpa using hdrop
  have hstop : rest'.takeWhile p = [] ∧ rest'.dropWhile p = rest' := by
    cases rest' with
    | nil => exact ⟨rfl, rfl⟩
    | cons c tail =>
      have hc := hhead c rfl
      simp [hc]
  rw [run, List.takeWhile_append_of_pos hall, List.dropWhile_append_of_pos hall, hstop.1, hstop.2,
    List.append_nil]

theorem digitGroups_of_stops {digit : Char → Bool} (hdigit : Inner digit) {tail : List Char}
    (htail : Stops tail) : digitGroups digit tail = ([], tail) := by
  cases tail with
  | nil => rfl
  | cons c tail =>
    have hc := hdigit c htail.head
    have hunderscore : (c == '_') = false := by
      simpa using htail.head_ne (d := '_') (by decide)
    cases tail with
    | nil => simp [digitGroups, hc]
    | cons d tail => simp [digitGroups, hc, hunderscore]

/-- A digit is always taken. -/
theorem digitGroups_of_digit {digit : Char → Bool} {d : Char} (hd : digit d = true)
    (text : List Char) : ∃ taken, (digitGroups digit (d :: text)).1 = d :: taken := by
  cases text with
  | nil => exact ⟨[], by simp [digitGroups, hd]⟩
  | cons c text => exact ⟨(digitGroups digit (c :: text)).1, by simp [digitGroups, hd]⟩

theorem digitGroups_cons {digit : Char → Bool} {c : Char} {text : List Char}
    (h : digit c = true ∨ c = '_' ∧ ∃ d ∈ text.head?, digit d = true) :
    digitGroups digit (c :: text) =
      (c :: (digitGroups digit text).1, (digitGroups digit text).2) := by
  cases text with
  | nil =>
    have hc : digit c = true := by simpa using h
    simp [digitGroups, hc]
  | cons d text =>
    have hgroup : (digit c || c == '_' && digit d) = true := by simpa using h
    simp only [digitGroups, hgroup, if_true]

theorem digitGroups_cons_of_not {digit : Char → Bool} {c : Char} {text : List Char}
    (hc : digit c = false) (h : c = '_' → ∀ d ∈ text.head?, digit d = false) :
    digitGroups digit (c :: text) = ([], c :: text) := by
  cases text with
  | nil => simp [digitGroups, hc]
  | cons d text =>
    have hgroup : (digit c || c == '_' && digit d) = false := by
      simp only [hc, Bool.false_or, Bool.and_eq_false_iff, beq_eq_false_iff_ne]
      by_cases hunderscore : c = '_'
      · exact .inr (h hunderscore d rfl)
      · exact .inl hunderscore
    simp only [digitGroups, hgroup, Bool.false_eq_true, if_false]

theorem digitGroups_trim {digit : Char → Bool} (hdigit : Inner digit)
    {text taken rest rest' : List Char} (h : digitGroups digit text = (taken, rest))
    (htrim : Trims rest rest') : digitGroups digit (taken ++ rest') = (taken, rest') := by
  fun_induction digitGroups digit text generalizing taken with
  | case1 =>
    cases h
    cases htrim with
    | stop _ htail => exact digitGroups_of_stops hdigit htail
  | case2 c hc =>
    cases h
    cases htrim with
    | stop _ htail =>
      rw [List.singleton_append, digitGroups_cons (.inl hc), digitGroups_of_stops hdigit htail]
  | case3 c hc =>
    cases h
    cases htrim with
    | stop _ htail => exact digitGroups_of_stops hdigit htail
    | keep _ htrim =>
      refine digitGroups_cons_of_not (by simpa using hc) fun _ => ?_
      exact htrim.head_false hdigit fun d hd => by cases hd
  | case4 c d text hgroup taken' rest'' heq ih =>
    simp only [Prod.mk.injEq] at h
    obtain ⟨rfl, rfl⟩ := h
    have htail := ih heq
    have hcons : digit c = true ∨ c = '_' ∧ ∃ d ∈ (taken' ++ rest').head?, digit d = true := by
      simp only [Bool.or_eq_true, Bool.and_eq_true, beq_iff_eq] at hgroup
      refine hgroup.imp_right fun hpair => ⟨hpair.1, d, ?_, hpair.2⟩
      obtain ⟨taken'', htaken⟩ := digitGroups_of_digit hpair.2 text
      rw [heq] at htaken
      simp only at htaken
      simp [htaken]
    rw [List.cons_append, digitGroups_cons hcons, htail]
  | case5 c d text hgroup =>
    cases h
    simp only [Bool.or_eq_true, Bool.and_eq_true, beq_iff_eq, not_or, not_and,
      Bool.not_eq_true] at hgroup
    cases htrim with
    | stop _ htail => exact digitGroups_of_stops hdigit htail
    | keep _ htrim =>
      refine digitGroups_cons_of_not hgroup.1 fun hunderscore => ?_
      refine htrim.head_false hdigit fun e he => ?_
      cases he
      exact hgroup.2 hunderscore

/-- The letter of an exponent. -/
def isExponentMark (c : Char) : Bool := c == 'e' || c == 'E'

/-- The sign of an exponent. -/
def isSign (c : Char) : Bool := c == '+' || c == '-'

/-- A digit stands here. -/
def startsDigit (text : List Char) : Bool := (text.head?.map isDigit).getD false

theorem startsDigit_trim {text text' : List Char} (h : startsDigit text = false)
    (htrim : Trims text text') : startsDigit text' = false := by
  cases htrim with
  | stop _ htail =>
    cases text' with
    | nil => rfl
    | cons c tail => exact inner_isDigit c htail.head
  | keep => exact h

/-- What an exponent is after its letter: a sign and digits, or digits. -/
theorem exponentPart_cons {e : Char} (he : isExponentMark e = true) (s : Char) (text : List Char) :
    exponentPart (e :: s :: text) =
      if isSign s && startsDigit text then
        (e :: s :: (run isDigit text).1, (run isDigit text).2)
      else if isDigit s then (e :: (run isDigit (s :: text)).1, (run isDigit (s :: text)).2)
      else ([], e :: s :: text) := by
  unfold exponentPart
  rw [isExponentMark] at he
  simp only [he, if_true]
  rfl

theorem exponentPart_of_not {e : Char} (he : isExponentMark e = false) (text : List Char) :
    exponentPart (e :: text) = ([], e :: text) := by
  unfold exponentPart
  rw [isExponentMark] at he
  split
  · rename_i heq
    cases heq
    simp [he]
  · rfl

theorem exponentPart_of_stops {tail : List Char} (htail : Stops tail) :
    exponentPart tail = ([], tail) ∧ ∀ e, exponentPart (e :: tail) = ([], e :: tail) := by
  have hmark : Inner isExponentMark := inner_of_all (by decide)
  have hsign : Inner isSign := inner_of_all (by decide)
  cases tail with
  | nil => exact ⟨rfl, fun _ => rfl⟩
  | cons c tail =>
    refine ⟨exponentPart_of_not (hmark c htail.head) tail, fun e => ?_⟩
    by_cases he : isExponentMark e = true
    · simp [exponentPart_cons he, hsign c htail.head, inner_isDigit c htail.head]
    · exact exponentPart_of_not (by simpa using he) _

/-- Up to three characters tell that no exponent stands here, and each of them may be the last
one. -/
theorem exponentPart_trim_of_not {text text' : List Char} (h : exponentPart text = ([], text))
    (htrim : Trims text text') : exponentPart text' = ([], text') := by
  cases htrim with
  | stop _ htail => exact (exponentPart_of_stops htail).1
  | keep e htrim =>
    cases htrim with
    | stop _ htail => exact (exponentPart_of_stops htail).2 e
    | keep s htrim =>
      rename_i text text'
      by_cases he : isExponentMark e = true
      · rw [exponentPart_cons he] at h ⊢
        split_ifs at h with hsign hdigit
        · cases h
        · cases h
        · have hsign' : (isSign s && startsDigit text') = false := by
            rw [Bool.not_eq_true, Bool.and_eq_false_iff] at hsign
            rw [Bool.and_eq_false_iff]
            exact hsign.imp_right fun hstart => startsDigit_trim hstart htrim
          simp only [hsign', hdigit, Bool.false_eq_true, if_false]
      · exact exponentPart_of_not (by simpa using he) _

theorem exponentPart_trim (text : List Char) {rest' : List Char}
    (htrim : Trims (exponentPart text).2 rest') :
    exponentPart ((exponentPart text).1 ++ rest') = ((exponentPart text).1, rest') := by
  by_cases hnone : exponentPart text = ([], text)
  · rw [hnone] at htrim ⊢
    exact exponentPart_trim_of_not hnone htrim
  match text with
  | [] => exact absurd rfl hnone
  | [e] => exact absurd rfl hnone
  | e :: s :: text =>
    have he : isExponentMark e = true := by
      by_contra he
      exact hnone (exponentPart_of_not (by simpa using he) _)
    rw [exponentPart_cons he] at hnone htrim ⊢
    split_ifs at hnone htrim ⊢ with hsign hdigit
    · have hrun := run_trim inner_isDigit text htrim
      rw [Bool.and_eq_true] at hsign
      have hdigits : startsDigit ((run isDigit text).1 ++ rest') = true := by
        cases text with
        | nil => cases hsign.2
        | cons d text =>
          have hd : isDigit d = true := hsign.2
          simp [run, startsDigit, hd]
      simp only [List.cons_append]
      rw [exponentPart_cons he, hsign.1, hdigits, hrun]
      rfl
    · have hrun := run_trim inner_isDigit (s :: text) htrim
      have hfirst : (run isDigit (s :: text)).1 = s :: (run isDigit text).1 := by
        simp [run, hdigit]
      have hs : isSign s = false := by
        by_contra hs
        rw [Bool.not_eq_false, isSign, Bool.or_eq_true, beq_iff_eq, beq_iff_eq] at hs
        rcases hs with rfl | rfl <;> cases hdigit
      simp only [hfirst, List.cons_append] at hrun ⊢
      rw [exponentPart_cons he, hs, hdigit, hrun]
      rfl
    · exact absurd rfl hnone

/-- The number with these digits before and after the point and this exponent. -/
def decimalToken (whole fraction exponent : List Char) : Token :=
  .number (Binary64.ofDecimal (digitsValue 10 (whole ++ fraction))
    (exponentValue exponent - (fraction.filter (· != '_')).length))

theorem decimalFrom_point (whole text : List Char) :
    decimalFrom whole ('.' :: text) =
      (decimalToken whole (digitGroups isDigit text).1
          (exponentPart (digitGroups isDigit text).2).1,
        whole ++ ('.' :: (digitGroups isDigit text).1 ++
          (exponentPart (digitGroups isDigit text).2).1),
        (exponentPart (digitGroups isDigit text).2).2) := by
  simp [decimalFrom, decimalToken]

theorem decimalFrom_of_ne (whole : List Char) {text : List Char} (h : text.head? ≠ some '.') :
    decimalFrom whole text =
      (decimalToken whole [] (exponentPart text).1, whole ++ (exponentPart text).1,
        (exponentPart text).2) := by
  unfold decimalFrom
  split
  rename_i point fraction rest heq
  split at heq
  · exact absurd rfl h
  · cases heq
    simp [decimalToken]

theorem head?_exponentPart (text : List Char) :
    (exponentPart text).1 = [] ∨ (exponentPart text).1.head? = text.head? := by
  have hjoin := exponentPart_append text
  cases htaken : (exponentPart text).1 with
  | nil => exact .inl rfl
  | cons c taken =>
    rw [htaken] at hjoin
    rw [← hjoin]
    exact .inr rfl

theorem decimalFrom_trim (whole text : List Char) {rest' : List Char}
    (htrim : Trims (decimalFrom whole text).2.2 rest') :
    ∃ body, (decimalFrom whole text).2.1 = whole ++ body ∧
      decimalFrom whole (body ++ rest') = ((decimalFrom whole text).1, whole ++ body, rest') := by
  by_cases hpoint : text.head? = some '.'
  · obtain ⟨text, rfl⟩ : ∃ tail, text = '.' :: tail := by
      cases text with
      | nil => cases hpoint
      | cons c tail => exact ⟨tail, by simpa using hpoint⟩
    rw [decimalFrom_point] at htrim ⊢
    refine ⟨_, rfl, ?_⟩
    have hexponent := exponentPart_trim _ htrim
    have hmore : Trims (digitGroups isDigit text).2
        ((exponentPart (digitGroups isDigit text).2).1 ++ rest') := by
      have hjoin := exponentPart_append (digitGroups isDigit text).2
      rw [← hjoin]
      simpa only [hjoin] using htrim.append_left (exponentPart (digitGroups isDigit text).2).1
    have hdigits := digitGroups_trim inner_isDigit rfl hmore
    rw [List.cons_append, List.cons_append, List.append_assoc, decimalFrom_point, hdigits, hexponent]
    rfl
  · rw [decimalFrom_of_ne whole hpoint] at htrim ⊢
    refine ⟨_, rfl, ?_⟩
    have hexponent := exponentPart_trim _ htrim
    have hhead : ((exponentPart text).1 ++ rest').head? ≠ some '.' := by
      cases htaken : (exponentPart text).1 with
      | nil =>
        have hrest : (exponentPart text).2 = text := by
          simpa [htaken] using exponentPart_append text
        rw [hrest] at htrim
        cases htrim with
        | stop _ htail =>
          intro hdot
          cases htail _ hdot
        | keep => exact hpoint
      | cons c taken =>
        have hfirst := (head?_exponentPart text).resolve_left (by simp [htaken])
        rw [htaken] at hfirst
        rw [← hfirst] at hpoint
        simpa using hpoint
    rw [decimalFrom_of_ne whole hhead, hexponent]

/-- What digits in a base are: a number, if it fits 64 bits. -/
def radixLexeme (base : Nat) (digits : List Char) : Lexeme :=
  if digitsValue base digits < 0x10000000000000000 then
    .token (.number (.ofNat (digitsValue base digits)))
  else .malformed

theorem radixLiteral?_cons (mark d : Char) (text : List Char) :
    radixLiteral? ('0' :: mark :: d :: text) = (radix? mark).bind fun base =>
      if isDigitOf base d then
        some (radixLexeme base (digitGroups (isDigitOf base) (d :: text)).1,
          '0' :: mark :: (digitGroups (isDigitOf base) (d :: text)).1,
          (digitGroups (isDigitOf base) (d :: text)).2)
      else none := rfl

theorem radixLiteral?_trim {text taken rest rest' : List Char} {lexeme : Lexeme}
    (h : radixLiteral? text = some (lexeme, taken, rest)) (htrim : Trims rest rest') :
    radixLiteral? (taken ++ rest') = some (lexeme, taken, rest') := by
  unfold radixLiteral? at h
  split at h
  · rename_i mark d text
    change radixLiteral? ('0' :: mark :: d :: text) = _ at h
    rw [radixLiteral?_cons] at h
    obtain ⟨base, hbase, h⟩ := Option.bind_eq_some_iff.mp h
    split_ifs at h with hdigit
    simp only [Option.some.injEq, Prod.mk.injEq] at h
    obtain ⟨rfl, rfl, rfl⟩ := h
    obtain ⟨digits, hdigits⟩ := digitGroups_of_digit hdigit text
    have hgroups := digitGroups_trim (inner_isDigitOf base) rfl htrim
    rw [hdigits] at hgroups ⊢
    simp only [List.cons_append] at hgroups ⊢
    rw [radixLiteral?_cons, hbase, Option.bind_some, if_pos hdigit, hgroups]
  · cases h

theorem radixLiteral?_trim_of_none {text text' : List Char} (h : radixLiteral? text = none)
    (htrim : Trims text text') : radixLiteral? text' = none := by
  cases htrim with
  | stop _ htail =>
    unfold radixLiteral?
    split
    · exact absurd rfl (htail.head_ne (d := '0') (by decide))
    · rfl
  | keep c htrim =>
    by_cases hc : c = '0'
    · subst hc
      cases htrim with
      | stop _ htail =>
        unfold radixLiteral?
        split
        · rename_i mark d tail heq
          cases heq
          have hmark : Inner fun c => (radix? c).isSome := inner_of_all (by decide)
          have hnone := hmark mark htail.head
          rw [Option.isSome_eq_false_iff, Option.isNone_iff_eq_none] at hnone
          simp [hnone]
        · rfl
      | keep mark htrim =>
        cases htrim with
        | stop _ htail =>
          unfold radixLiteral?
          split
          · rename_i mark' d tail heq
            cases heq
            cases hbase : radix? mark with
            | none => rfl
            | some base => simp [inner_isDigitOf base d htail.head]
          · rfl
        | keep d htrim =>
          rw [radixLiteral?_cons] at h ⊢
          cases hbase : radix? mark with
          | none => rfl
          | some base =>
            rw [hbase, Option.bind_some] at h
            split_ifs at h with hdigit
            simp [hdigit]
    · unfold radixLiteral?
      split
      · rename_i heq
        cases heq
        exact absurd rfl hc
      · rfl

theorem number_trim (text : List Char) {rest' : List Char} (htrim : Trims (number text).2.2 rest') :
    number ((number text).2.1 ++ rest') = ((number text).1, (number text).2.1, rest') := by
  have htext := number_append text
  have htrims : Trims text ((number text).2.1 ++ rest') := by
    have h := htrim.append_left (number text).2.1
    rwa [htext] at h
  cases hradix : radixLiteral? text with
  | some found =>
    have hnumber : number text = found := by simp [number, hradix]
    rw [hnumber] at htrim ⊢
    simp [number, radixLiteral?_trim hradix htrim]
  | none =>
    have hnone := radixLiteral?_trim_of_none hradix htrims
    have hnumber : number text =
        (.token (decimalFrom (digitGroups isDigit text).1 (digitGroups isDigit text).2).1,
          (decimalFrom (digitGroups isDigit text).1 (digitGroups isDigit text).2).2) := by
      simp [number, hradix]
    rw [hnumber] at htrim hnone ⊢
    obtain ⟨body, htaken, hdecimal⟩ := decimalFrom_trim _ _ htrim
    have hmore : Trims (digitGroups isDigit text).2 (body ++ rest') := by
      have hjoin := decimalFrom_append (digitGroups isDigit text).1 (digitGroups isDigit text).2
      rw [htaken, List.append_assoc, List.append_cancel_left_eq] at hjoin
      have h := htrim.append_left body
      rwa [hjoin] at h
    have hdigits := digitGroups_trim inner_isDigit rfl hmore
    simp only [htaken, List.append_assoc] at hnone ⊢
    simp [number, hnone, hdigits, hdecimal]

theorem stringBody_cons {quote c : Char} (hc : c ≠ '\\') (text : List Char) :
    stringBody quote (c :: text) =
      if c == quote || c == '\n' then ([], c :: text)
      else (c :: (stringBody quote text).1, (stringBody quote text).2) := by
  cases text with
  | nil => simp [stringBody, hc]
  | cons d text => simp [stringBody, hc]

/-- The body of a closed string does not depend on what follows its quote. -/
theorem stringBody_of_closed {quote : Char} (hquote : quote ≠ '\\') {text body rest : List Char}
    (h : stringBody quote text = (body, quote :: rest)) (rest' : List Char) :
    stringBody quote (body ++ quote :: rest') = (body, quote :: rest') := by
  fun_induction stringBody quote text generalizing body with
  | case1 c text body' rest'' heq ih =>
    simp only [Prod.mk.injEq] at h
    obtain ⟨rfl, rfl⟩ := h
    simp [stringBody, ih heq]
  | case2 c text hnot hends =>
    simp only [Prod.mk.injEq, List.cons.injEq] at h
    obtain ⟨rfl, rfl, -⟩ := h
    simp [stringBody_cons hquote]
  | case3 c text hnot hends body' rest'' heq ih =>
    simp only [Prod.mk.injEq] at h
    obtain ⟨rfl, rfl⟩ := h
    simp only [Bool.or_eq_true, beq_iff_eq, not_or] at hends
    simp [stringBody_cons hends.1.2, hends, ih heq]
  | case4 => cases h

/-- A string literal ends with the quote that it begins with. -/
theorem exists_of_quoted {quote : Char} {text taken rest : List Char} {t : Token}
    (h : quoted quote text = (.token t, taken, rest)) :
    ∃ body, stringBody quote text = (body, quote :: rest) ∧ taken = quote :: body ++ [quote] ∧
      t = .string (unescape (String.ofList body)) := by
  unfold quoted at h
  split at h
  · rename_i body c rest' heq
    split_ifs at h with hc
    · rw [beq_iff_eq] at hc
      subst hc
      cases h
      refine ⟨body, heq, rfl, ?_⟩
      rw [unescape, String.toList_ofList]
    · cases h
  · cases h

theorem quoted_of_stringBody {quote : Char} {text body rest : List Char}
    (h : stringBody quote text = (body, quote :: rest)) :
    quoted quote text =
      (.token (.string (unescape (String.ofList body))), quote :: body ++ [quote], rest) := by
  rw [unescape, String.toList_ofList, quoted, h]
  simp

theorem quoted_trim {quote : Char} (hquote : quote ≠ '\\') {text taken rest : List Char} {t : Token}
    (h : quoted quote text = (.token t, taken, rest)) (rest' : List Char) :
    ∃ body, taken = quote :: body ∧ quoted quote (body ++ rest') = (.token t, taken, rest') := by
  obtain ⟨body, hbody, rfl, rfl⟩ := exists_of_quoted h
  refine ⟨body ++ [quote], rfl, ?_⟩
  rw [List.append_assoc, List.singleton_append]
  exact quoted_of_stringBody (stringBody_of_closed hquote hbody rest')

theorem word_trim (text : List Char) {rest' : List Char} (htrim : Trims (word text).2.2 rest') :
    word ((word text).2.1 ++ rest') = ((word text).1, (word text).2.1, rest') := by
  have hword : ∀ text : List Char, word text =
      (.token ((Keyword.ofSpelling? (String.ofList (run isNamePart text).1)).elim
          (.identifier (String.ofList (run isNamePart text).1)) .keyword),
        (run isNamePart text).1, (run isNamePart text).2) := by
    intro text
    simp only [word]
    cases Keyword.ofSpelling? (String.ofList (run isNamePart text).1) <;> rfl
  rw [hword text] at htrim ⊢
  rw [hword, run_trim inner_isNamePart text htrim]

/-- A mark of several characters has none in it with which a lexeme stops. -/
theorem not_isStop_of_mem_tail (p : Punct) : ∀ c ∈ p.spelling.toList.tail, isStop c = false := by
  have hall : p.spelling.toList.tail.all (fun c => !isStop c) = true := by
    cases p <;> rfl
  intro c hc
  have hnot := List.all_eq_true.mp hall c hc
  simpa using hnot

/-- What stands at the front of a trimmed text, without a stop in it, stands there in the text. -/
theorem Trims.isPrefix {rest rest' w : List Char} (h : Trims rest rest') (hw : w <+: rest')
    (hstop : ∀ c ∈ w, isStop c = false) : w <+: rest := by
  induction h generalizing w with
  | stop rest htail =>
    cases w with
    | nil => exact List.nil_prefix
    | cons c w =>
      obtain ⟨tail, rfl⟩ := hw
      have hc := hstop c List.mem_cons_self
      rw [Stops.head htail] at hc
      cases hc
  | keep c _ ih =>
    cases w with
    | nil => exact List.nil_prefix
    | cons d w =>
      obtain ⟨rfl, htail⟩ := List.cons_prefix_cons.mp hw
      exact List.cons_prefix_cons.mpr
        ⟨rfl, ih htail fun e he => hstop e (List.mem_cons_of_mem _ he)⟩

theorem spelling_eq_cons (p : Punct) : ∃ c tail, p.spelling.toList = c :: tail := by
  cases p <;> exact ⟨_, _, rfl⟩

theorem punct?_trim {p : Punct} {rest rest' : List Char}
    (h : punct? (p.spelling.toList ++ rest) = some p) (htrim : Trims rest rest') :
    punct? (p.spelling.toList ++ rest') = some p := by
  obtain ⟨c, tail, hspelling⟩ := spelling_eq_cons p
  unfold punct? at h ⊢
  rw [List.find?_eq_some_iff_append] at h ⊢
  obtain ⟨-, before, after, hlist, hbefore⟩ := h
  refine ⟨List.isPrefixOf_iff_prefix.mpr (List.prefix_append _ _), before, after, hlist,
    fun q hq => ?_⟩
  have hnot := hbefore q hq
  obtain ⟨d, tail', hspelling'⟩ := spelling_eq_cons q
  have hinner := not_isStop_of_mem_tail q
  rw [hspelling', List.tail_cons] at hinner
  simp only [Bool.not_eq_true', ← Bool.not_eq_true, List.isPrefixOf_iff_prefix, hspelling,
    hspelling', List.cons_append, List.cons_prefix_cons] at hnot ⊢
  rintro ⟨hhead, htail⟩
  exact hnot ⟨hhead, (htrim.append_left tail).isPrefix htail hinner⟩

/-- A mark and what it leaves of the text. -/
theorem mark_eq_iff {c : Char} {text taken rest : List Char} {t : Token} :
    mark c text = (.token t, taken, rest) ↔
      ∃ p, t = .punct p ∧ taken = p.spelling.toList ∧ c :: text = taken ++ rest ∧
        punct? (c :: text) = some p := by
  constructor
  · intro h
    unfold mark at h
    split at h
    · rename_i p hp
      cases h
      have hprefix := List.find?_some hp
      rw [List.isPrefixOf_iff_prefix] at hprefix
      refine ⟨p, rfl, (List.prefix_iff_eq_take.mp hprefix).symm, ?_, hp⟩
      exact (List.take_append_drop _ _).symm
    · cases h
  · rintro ⟨p, rfl, rfl, htext, hp⟩
    unfold mark
    rw [hp, htext]
    simp

theorem mark_trim {c : Char} {text taken rest rest' : List Char} {t : Token}
    (h : mark c text = (.token t, taken, rest)) (htrim : Trims rest rest') :
    ∃ tail, taken = c :: tail ∧ mark c (tail ++ rest') = (.token t, taken, rest') := by
  obtain ⟨p, rfl, rfl, htext, hp⟩ := mark_eq_iff.mp h
  obtain ⟨d, tail, hspelling⟩ := spelling_eq_cons p
  rw [htext] at hp
  have hp' := punct?_trim hp htrim
  rw [hspelling, List.cons_append, List.cons.injEq] at htext
  obtain ⟨rfl, -⟩ := htext
  refine ⟨tail, hspelling, mark_eq_iff.mpr ⟨p, rfl, rfl, ?_, ?_⟩⟩
  · rw [hspelling, List.cons_append]
  · rw [hspelling, List.cons_append] at hp'
    exact hp'

/-- Nothing but a mark can begin with these characters. -/
def beginsMark (c : Char) (text : List Char) : Bool :=
  !(isBlank c || c == '`' || c == '"' || c == '\'' || isNameStart c || isDigit c || c == '#' ||
    c == '.' && startsDigit text || c == '/' && (text.head? == some '/' || text.head? == some '*'))

theorem beginsMark_trim {c : Char} {text text' : List Char} (h : beginsMark c text = true)
    (htrim : Trims text text') : beginsMark c text' = true := by
  have hcomment : ∀ d, isStop d = false → text.head? ≠ some d → text'.head? ≠ some d := by
    intro d hd hne
    cases htrim with
    | stop _ htail =>
      intro hhead
      rw [htail d hhead] at hd
      cases hd
    | keep => exact hne
  simp only [beginsMark, Bool.not_eq_true', Bool.or_eq_false_iff, Bool.and_eq_false_iff,
    beq_eq_false_iff_ne] at h ⊢
  refine ⟨⟨h.1.1, h.1.2.imp_right fun hdigit => startsDigit_trim hdigit htrim⟩, ?_⟩
  exact h.2.imp_right fun hslash =>
    ⟨hcomment _ (by decide) hslash.1, hcomment _ (by decide) hslash.2⟩

theorem cut_of_quote {c : Char} (hc : c = '"' ∨ c = '\'') (text : List Char) :
    cut (c :: text) = some (quoted c text) := by
  rcases hc with rfl | rfl <;> rfl

theorem cut_of_nameStart {c : Char} (hc : isNameStart c = true) (text : List Char) :
    cut (c :: text) = some (word (c :: text)) := by
  have hne : ∀ d, isNameStart d = false → c ≠ d := by
    rintro d hd rfl
    rw [hc] at hd
    cases hd
  have hblank : isBlank c = false := by simp (disch := decide) [isBlank, hne]
  simp (disch := decide) [cut, hc, hblank, hne]

theorem not_isNameStart_of_isDigit {c : Char} (hc : isDigit c = true) : isNameStart c = false := by
  have hne : ∀ d, isDigit d = false → c ≠ d := by
    rintro d hd rfl
    rw [hc] at hd
    cases hd
  have hletter : isLetter c = false := by
    simp only [isDigit, isLetter, Bool.and_eq_true, decide_eq_true_eq, Bool.or_eq_false_iff,
      Bool.and_eq_false_iff, decide_eq_false_iff_not, Char.le_def, UInt32.le_iff_toNat_le] at hc ⊢
    have hnine : '9'.val.toNat < 'A'.val.toNat ∧ 'A'.val.toNat < 'a'.val.toNat := by decide
    omega
  simp (disch := decide) [isNameStart, hletter, hne]

theorem cut_of_digit {c : Char} (hc : isDigit c = true) (text : List Char) :
    cut (c :: text) = some (number (c :: text)) := by
  have hne : ∀ d, isDigit d = false → c ≠ d := by
    rintro d hd rfl
    rw [hc] at hd
    cases hd
  have hblank : isBlank c = false := by simp (disch := decide) [isBlank, hne]
  have hname := not_isNameStart_of_isDigit hc
  simp (disch := decide) [cut, hc, hblank, hname, hne]

theorem cut_of_point {d : Char} (hd : isDigit d = true) (text : List Char) :
    cut ('.' :: d :: text) = some (.token (decimalFrom [] ('.' :: d :: text)).1,
      (decimalFrom [] ('.' :: d :: text)).2) := by
  have hdot : isBlank '.' = false ∧ isNameStart '.' = false ∧ isDigit '.' = false := by decide
  simp [cut, hdot, hd]

theorem cut_of_private {d : Char} (hd : isNameStart d = true) (text : List Char) :
    cut ('#' :: d :: text) =
      some (.token (.identifier (String.ofList ('#' :: (run isNamePart (d :: text)).1))),
        '#' :: (run isNamePart (d :: text)).1, (run isNamePart (d :: text)).2) := by
  have hmark : isBlank '#' = false ∧ isNameStart '#' = false ∧ isDigit '#' = false := by decide
  have hne : d ≠ '!' := by
    rintro rfl
    cases hd
  simp [cut, hmark, hd]

theorem cut_of_beginsMark {c : Char} {text : List Char} (h : beginsMark c text = true) :
    cut (c :: text) = some (mark c text) := by
  simp only [beginsMark, Bool.not_eq_true', Bool.or_eq_false_iff, Bool.and_eq_false_iff] at h
  obtain ⟨⟨⟨⟨⟨⟨⟨⟨hblank, hbacktick⟩, hdouble⟩, hsingle⟩, hname⟩, hdigit⟩, hprivate⟩, hpoint⟩, hslash⟩ :=
    h
  simp only [cut, hblank, hbacktick, hdouble, hsingle, hname, hdigit, Bool.false_or,
    Bool.false_eq_true, if_false, Option.some.injEq]
  split
  · rename_i d rest
    simp only [beq_self_eq_true, reduceCtorEq, false_or] at hpoint
    have hd : isDigit d = false := hpoint
    simp [hd]
  · simp at hprivate
  · simp at hprivate
  · simp at hslash
  · simp at hslash
  · rfl

/-- The ways in which a text can begin with a token. -/
inductive Begins : List Char → Prop where
  | quote {c : Char} (hc : c = '"' ∨ c = '\'') (text : List Char) : Begins (c :: text)
  | word {c : Char} (hc : isNameStart c = true) (text : List Char) : Begins (c :: text)
  | number {c : Char} (hc : isDigit c = true) (text : List Char) : Begins (c :: text)
  | point {d : Char} (hd : isDigit d = true) (text : List Char) : Begins ('.' :: d :: text)
  | privateName {d : Char} (hd : isNameStart d = true) (text : List Char) : Begins ('#' :: d :: text)
  | mark {c : Char} {text : List Char} (h : beginsMark c text = true) : Begins (c :: text)

theorem begins_of_cut {text taken rest : List Char} {t : Token}
    (h : cut text = some (.token t, taken, rest)) : Begins text := by
  cases text with
  | nil => cases h
  | cons c text =>
    simp only [cut, Option.some.injEq] at h
    split_ifs at h with hblank hbacktick hquote hname hdigit
    · cases h
    · cases h
    · exact .quote (by simpa using hquote) text
    · exact .word hname text
    · exact .number hdigit text
    · split at h
      · rename_i d rest'
        split_ifs at h with hd
        · exact .point hd rest'
        · refine .mark ?_
          have hstarts : startsDigit (d :: rest') = false := by simpa [startsDigit] using hd
          simp_all [beginsMark]
      · cases h
      · split_ifs at h with hd
        · exact .privateName hd _
        · cases h
      · cases h
      · cases h
      · rename_i hpoint hbang hprivate hline hblock
        refine .mark ?_
        have hhash : c ≠ '#' := by
          rintro rfl
          cases text with
          | nil => cases h
          | cons d text => exact hprivate d text rfl rfl
        have hcomment : c = '/' → text.head? ≠ some '/' ∧ text.head? ≠ some '*' := by
          rintro rfl
          cases text with
          | nil => simp
          | cons d text => simpa using And.intro (hline text rfl) (hblock text rfl)
        have hdot : c = '.' → startsDigit text = false := by
          rintro rfl
          cases text with
          | nil => rfl
          | cons d text => exact absurd rfl (hpoint d text rfl)
        have hshape := And.intro (not_or_of_imp hdot) (not_or_of_imp hcomment)
        simp_all [beginsMark]

theorem number_ne_nil {c : Char} (hc : isDigit c = true) (text : List Char) :
    (number (c :: text)).2.1 ≠ [] := by
  unfold number
  split
  · rename_i cut hcut
    unfold radixLiteral? at hcut
    split at hcut
    · obtain ⟨base, -, hcut⟩ := Option.bind_eq_some_iff.mp hcut
      split_ifs at hcut
      cases hcut
      simp
    · cases hcut
  · obtain ⟨digits, hdigits⟩ := digitGroups_of_digit hc text
    simp [decimalFrom, hdigits]

/-- A lexeme begins with the first character of the text. -/
theorem cut_cons_taken {c : Char} {text taken rest : List Char} {lexeme : Lexeme}
    (h : cut (c :: text) = some (lexeme, taken, rest)) :
    ∃ tail, taken = c :: tail ∧ text = tail ++ rest := by
  have hjoin := cut_append h
  have hne : taken ≠ [] := by
    rintro rfl
    simp only [cut, Option.some.injEq] at h
    split_ifs at h with hblank hbacktick hquote hname hdigit
    · cases h
    · cases h
    · unfold quoted at h
      split at h
      · split_ifs at h <;> cases h
      · cases h
    · have hpart : isNamePart c = true := by simp [isNamePart, hname]
      simp only [word] at h
      split at h <;> simp [run, hpart] at h
    · have hnumber := number_ne_nil hdigit text
      rw [h] at hnumber
      exact hnumber rfl
    · have hmark : ∀ c text, (mark c text).2.1 ≠ [] := by
        intro c text
        unfold mark
        split
        · rename_i p hp
          obtain ⟨d, tail, hspelling⟩ := spelling_eq_cons p
          simp [hspelling]
        · simp
      have habsurd := fun hm : mark c text = (lexeme, [], rest) => hmark c text (by rw [hm])
      split at h
      · split_ifs at h
        · rw [decimalFrom_point] at h
          cases h
        · exact habsurd h
      · cases h
      · split_ifs at h <;> cases h
      · cases h
      · cases h
      · exact habsurd h
  cases taken with
  | nil => exact absurd rfl hne
  | cons d tail =>
    simp only [List.cons_append, List.cons.injEq] at hjoin
    exact ⟨tail, by rw [hjoin.1], hjoin.2.symm⟩

/-- A token stays the same where the text after it is trimmed. -/
theorem cut_trim {text taken rest rest' : List Char} {t : Token}
    (h : cut text = some (.token t, taken, rest)) (htrim : Trims rest rest') :
    cut (taken ++ rest') = some (.token t, taken, rest') := by
  cases begins_of_cut h with
  | @quote c hc text =>
    rw [cut_of_quote hc, Option.some.injEq] at h
    have hne : c ≠ '\\' := by rcases hc with rfl | rfl <;> decide
    obtain ⟨body, rfl, hquoted⟩ := quoted_trim hne h rest'
    rw [List.cons_append, cut_of_quote hc, hquoted]
  | @word c hc text =>
    obtain ⟨tail, rfl, -⟩ := cut_cons_taken h
    rw [cut_of_nameStart hc, Option.some.injEq] at h
    have htrim' : Trims (Lexeme.word (c :: text)).2.2 rest' := by rwa [h]
    have hword := word_trim (c :: text) htrim'
    rw [h] at hword
    rw [List.cons_append, cut_of_nameStart hc, ← List.cons_append, hword]
  | @number c hc text =>
    obtain ⟨tail, rfl, -⟩ := cut_cons_taken h
    rw [cut_of_digit hc, Option.some.injEq] at h
    have htrim' : Trims (Lexeme.number (c :: text)).2.2 rest' := by rwa [h]
    have hnumber := number_trim (c :: text) htrim'
    rw [h] at hnumber
    rw [List.cons_append, cut_of_digit hc, ← List.cons_append, hnumber]
  | @point d hd text =>
    rw [cut_of_point hd] at h
    simp only [Option.some.injEq, Prod.mk.injEq, token.injEq] at h
    obtain ⟨rfl, hparts⟩ := h
    have htrim' : Trims (decimalFrom [] ('.' :: d :: text)).2.2 rest' := by rwa [hparts]
    obtain ⟨body, htaken, hdecimal⟩ := decimalFrom_trim [] ('.' :: d :: text) htrim'
    obtain ⟨digits, hdigits⟩ := digitGroups_of_digit hd text
    have hbody : body = '.' :: d :: (digits ++ (exponentPart (digitGroups isDigit (d :: text)).2).1) := by
      rw [decimalFrom_point, hdigits] at htaken
      simpa using htaken.symm
    have heq : taken = body := by
      rw [hparts] at htaken
      simpa using htaken
    subst heq
    rw [hbody] at hdecimal ⊢
    simp only [List.cons_append, List.nil_append] at hdecimal ⊢
    rw [cut_of_point hd, hdecimal]
  | @privateName d hd text =>
    rw [cut_of_private hd] at h
    simp only [Option.some.injEq, Prod.mk.injEq, token.injEq] at h
    obtain ⟨rfl, rfl, rfl⟩ := h
    have hrun := run_trim inner_isNamePart (d :: text) htrim
    have hpart : isNamePart d = true := by simp [isNamePart, hd]
    have hfirst : (run isNamePart (d :: text)).1 = d :: (run isNamePart text).1 := by
      simp [run, hpart]
    rw [hfirst] at hrun ⊢
    simp only [List.cons_append] at hrun ⊢
    rw [cut_of_private hd, hrun]
  | @mark c text hmark =>
    obtain ⟨tail, htail, htext⟩ := cut_cons_taken h
    rw [cut_of_beginsMark hmark, Option.some.injEq] at h
    obtain ⟨tail', htaken, hmark'⟩ := mark_trim h htrim
    subst htaken
    rw [List.cons.injEq] at htail
    obtain ⟨-, rfl⟩ := htail
    have hbegins := beginsMark_trim hmark (htext ▸ htrim.append_left tail')
    rw [List.cons_append, cut_of_beginsMark hbegins, hmark']

end Lexeme
end ScriptLint
