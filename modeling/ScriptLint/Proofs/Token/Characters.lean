import ScriptLint.Proofs.Token.Trim

namespace ScriptLint
namespace Lexeme

/-- Characters that a number can be written with. -/
def isNumeral (c : Char) : Bool := isNamePart c || c == '.' || isSign c

theorem isNumeral_of_isNamePart {c : Char} (h : isNamePart c = true) : isNumeral c = true := by
  simp [isNumeral, h]

theorem isNamePart_of_isDigit {c : Char} (h : isDigit c = true) : isNamePart c = true := by
  simp [isNamePart, h]

theorem isNumeral_of_isDigit {c : Char} (h : isDigit c = true) : isNumeral c = true :=
  isNumeral_of_isNamePart (isNamePart_of_isDigit h)

theorem all_run (p : Char → Bool) (text : List Char) : (run p text).1.all p = true :=
  List.all_takeWhile

theorem isNamePart_of_isDigitOf (base : Nat) (c : Char) (h : isDigitOf base c = true) :
    isNamePart c = true := by
  unfold isDigitOf at h
  split at h
  · next d hd =>
    unfold Escape.hexValue? at hd
    split_ifs at hd with hdigit hlower hupper
    · exact isNamePart_of_isDigit (by simpa [isDigit] using hdigit)
    · have hletter : isLetter c = true := by
        simp [isLetter, hlower.1, Char.le_trans hlower.2 (show 'f' ≤ 'z' by decide)]
      simp [isNamePart, isNameStart, hletter]
    · have hletter : isLetter c = true := by
        simp [isLetter, hupper.1, Char.le_trans hupper.2 (show 'F' ≤ 'Z' by decide)]
      simp [isNamePart, isNameStart, hletter]
  · cases h

theorem all_digitGroups {digit p : Char → Bool} (hdigit : ∀ c, digit c = true → p c = true)
    (hunderscore : p '_' = true) (text : List Char) : (digitGroups digit text).1.all p = true := by
  fun_induction digitGroups digit text with
  | case1 => rfl
  | case2 c hc => simp [hdigit c hc]
  | case3 => rfl
  | case4 c d text hgroup taken rest heq ih =>
    rw [heq] at ih
    simp only [Bool.or_eq_true, Bool.and_eq_true, beq_iff_eq] at hgroup
    rw [List.all_cons, ih, Bool.and_true]
    rcases hgroup with hc | ⟨rfl, -⟩
    · exact hdigit c hc
    · exact hunderscore
  | case5 => rfl

theorem all_digits (text : List Char) : (run isDigit text).1.all isNumeral = true :=
  List.all_eq_true.mpr fun c hc =>
    isNumeral_of_isDigit (List.all_eq_true.mp (all_run isDigit text) c hc)

theorem all_exponentPart (text : List Char) : (exponentPart text).1.all isNumeral = true := by
  have hmark : ∀ c, isExponentMark c = true → isNumeral c = true := by
    intro c hc
    simp only [isExponentMark, Bool.or_eq_true, beq_iff_eq] at hc
    rcases hc with rfl | rfl <;> decide
  have hsign : ∀ c, isSign c = true → isNumeral c = true := fun c hc => by simp [isNumeral, hc]
  rcases text with _ | ⟨e, _ | ⟨s, text⟩⟩
  · rfl
  · rfl
  · by_cases he : isExponentMark e = true
    · rw [exponentPart_cons he]
      split_ifs with hsigned hdigit
      · rw [Bool.and_eq_true] at hsigned
        simp [hmark e he, hsign s hsigned.1, all_digits]
      · simp [hmark e he, all_digits]
      · rfl
    · rw [exponentPart_of_not (by simpa using he)]
      rfl

theorem all_decimalFrom {whole : List Char} (hwhole : whole.all isNumeral = true)
    (text : List Char) : (decimalFrom whole text).2.1.all isNumeral = true := by
  by_cases hpoint : text.head? = some '.'
  · obtain ⟨text, rfl⟩ : ∃ tail, text = '.' :: tail := by
      cases text with
      | nil => cases hpoint
      | cons c tail => exact ⟨tail, by simpa using hpoint⟩
    have hdot : isNumeral '.' = true := by decide
    have hfraction : (digitGroups isDigit text).1.all isNumeral = true :=
      all_digitGroups (fun _ => isNumeral_of_isDigit) rfl text
    have hexponent := all_exponentPart (digitGroups isDigit text).2
    rw [decimalFrom_point]
    simp [hwhole, hdot, hfraction, hexponent]
  · rw [decimalFrom_of_ne whole hpoint]
    simp [hwhole, all_exponentPart text]

theorem all_radixLiteral? {text : List Char} {found : Lexeme × List Char × List Char}
    (h : radixLiteral? text = some found) : found.2.1.all isNamePart = true := by
  unfold radixLiteral? at h
  split at h
  · next mark d text =>
    obtain ⟨base, hbase, hcut⟩ := Option.bind_eq_some_iff.mp h
    split_ifs at hcut
    cases hcut
    have hmark : isNamePart mark = true := by
      simp only [radix?, Bool.or_eq_true, beq_iff_eq] at hbase
      split_ifs at hbase with hx hb ho
      · rcases hx with rfl | rfl <;> decide
      · rcases hb with rfl | rfl <;> decide
      · rcases ho with rfl | rfl <;> decide
    have hzero : isNamePart '0' = true := by decide
    have hdigits := all_digitGroups (isNamePart_of_isDigitOf base) rfl (d :: text)
    simp [hzero, hmark, hdigits]
  · cases h

theorem all_number (text : List Char) : (number text).2.1.all isNumeral = true := by
  unfold number
  split
  · next found hfound =>
    exact List.all_eq_true.mpr fun c hc =>
      isNumeral_of_isNamePart (List.all_eq_true.mp (all_radixLiteral? hfound) c hc)
  · exact all_decimalFrom (all_digitGroups (fun _ => isNumeral_of_isDigit) rfl text) _

theorem all_word (text : List Char) : (word text).2.1.all isNamePart = true := by
  unfold word
  simp only
  split <;> exact all_run isNamePart text

/-- A text that does not end with a blank. -/
def EndsSolid (text : List Char) : Prop := ∀ c ∈ text.getLast?, isBlank c = false

theorem endsSolid_of_all {p : Char → Bool} (hp : Inner p) {text : List Char}
    (h : text.all p = true) : EndsSolid text := by
  intro c hc
  have hpc := List.all_eq_true.mp h c (List.mem_of_getLast? hc)
  by_contra hblank
  rw [Bool.not_eq_false] at hblank
  rw [hp c (by simp [isStop, hblank])] at hpc
  cases hpc

theorem endsSolid_append_singleton (text : List Char) {c : Char} (hc : isBlank c = false) :
    EndsSolid (text ++ [c]) := by
  intro d hd
  rw [List.getLast?_concat, Option.mem_some_iff] at hd
  exact hd ▸ hc

theorem inner_isNumeral : Inner isNumeral := inner_of_all (by decide)

theorem endsSolid_spelling (p : Punct) : EndsSolid p.spelling.toList := by
  cases p <;> (intro c hc; cases hc; decide)

/-- No token ends with a blank. -/
theorem endsSolid_of_cut {text taken rest : List Char} {t : Token}
    (h : cut text = some (.token t, taken, rest)) : EndsSolid taken := by
  have hspells := cut_spells h
  cases begins_of_cut h with
  | @quote c hc text =>
    rw [cut_of_quote hc, Option.some.injEq] at h
    obtain ⟨body, -, rfl, -⟩ := exists_of_quoted h
    refine endsSolid_append_singleton (c :: body) ?_
    rcases hc with rfl | rfl <;> decide
  | @word c hc text =>
    rw [cut_of_nameStart hc, Option.some.injEq] at h
    have hall := all_word (c :: text)
    rw [h] at hall
    exact endsSolid_of_all inner_isNamePart hall
  | @number c hc text =>
    rw [cut_of_digit hc, Option.some.injEq] at h
    have hall := all_number (c :: text)
    rw [h] at hall
    exact endsSolid_of_all inner_isNumeral hall
  | @point d hd text =>
    rw [cut_of_point hd, Option.some.injEq, Prod.mk.injEq] at h
    have hall := all_decimalFrom List.all_nil ('.' :: d :: text)
    rw [h.2] at hall
    exact endsSolid_of_all inner_isNumeral hall
  | @privateName d hd text =>
    rw [cut_of_private hd] at h
    cases h
    have hall := all_run isNamePart (d :: text)
    have hne : (run isNamePart (d :: text)).1 ≠ [] := by simp [run, isNamePart, hd]
    intro c hc
    rw [List.getLast?_cons, List.getLast?_eq_some_getLast hne] at hc
    refine endsSolid_of_all inner_isNamePart hall c ?_
    rw [List.getLast?_eq_some_getLast hne]
    simpa using hc
  | @mark c text hmark =>
    rw [cut_of_beginsMark hmark, Option.some.injEq] at h
    unfold mark at h
    split at h
    · next m hm =>
      simp only [Prod.mk.injEq, token.injEq] at h
      obtain ⟨rfl, -, -⟩ := h
      obtain rfl : taken = m.spelling.toList := hspells
      exact endsSolid_spelling m
    · cases h

end Lexeme
end ScriptLint
