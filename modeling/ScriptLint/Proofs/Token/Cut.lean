import ScriptLint.Token.Lexeme
import ScriptLint.Token.Template
import Mathlib.Data.List.Basic

namespace ScriptLint
namespace Lexeme

theorem run_append (p : Char → Bool) (text : List Char) : (run p text).1 ++ (run p text).2 = text :=
  List.takeWhile_append_dropWhile

theorem digitGroups_append (digit : Char → Bool) (text : List Char) :
    (digitGroups digit text).1 ++ (digitGroups digit text).2 = text := by
  fun_induction digitGroups digit text with
  | case1 => rfl
  | case2 => rfl
  | case3 => rfl
  | case4 c d text _ taken rest heq ih =>
    rw [heq] at ih
    simpa using ih
  | case5 => rfl

theorem exponentPart_append (text : List Char) :
    (exponentPart text).1 ++ (exponentPart text).2 = text := by
  unfold exponentPart
  split
  · rename_i e s rest
    split
    · split
      · simp [run, List.takeWhile_append_dropWhile]
      · split
        · simp [run, List.takeWhile_append_dropWhile]
        · rfl
    · rfl
  · rfl

theorem decimalFrom_append (whole rest : List Char) :
    (decimalFrom whole rest).2.1 ++ (decimalFrom whole rest).2.2 = whole ++ rest := by
  have hexp := exponentPart_append
  have hdigits := digitGroups_append isDigit
  unfold decimalFrom
  split
  rename_i point fraction tail hpoint
  have hjoin : point ++ fraction ++ tail = rest := by
    split at hpoint
    · rename_i body
      simp only [Prod.mk.injEq] at hpoint
      obtain ⟨rfl, rfl, rfl⟩ := hpoint
      simpa using hdigits body
    · simp only [Prod.mk.injEq] at hpoint
      obtain ⟨rfl, rfl, rfl⟩ := hpoint
      rfl
  have htail := hexp tail
  simp only [List.append_assoc] at hjoin ⊢
  rw [htail, hjoin]

theorem radixLiteral?_append {text : List Char} {lexeme : Lexeme} {taken rest : List Char}
    (h : radixLiteral? text = some (lexeme, taken, rest)) : taken ++ rest = text := by
  unfold radixLiteral? at h
  split at h
  · rename_i mark d text
    cases hbase : radix? mark with
    | none => simp [hbase] at h
    | some base =>
      have hdigits := digitGroups_append (isDigitOf base) (d :: text)
      simp only [hbase, bind, Option.bind_some] at h
      split at h
      · simp only [Option.some.injEq, Prod.mk.injEq] at h
        obtain ⟨_, rfl, rfl⟩ := h
        simpa using hdigits
      · cases h
  · cases h

theorem number_append (text : List Char) : (number text).2.1 ++ (number text).2.2 = text := by
  unfold number
  split
  · rename_i cut hcut
    obtain ⟨lexeme, taken, rest⟩ := cut
    exact radixLiteral?_append hcut
  · have hdec := decimalFrom_append (digitGroups isDigit text).1 (digitGroups isDigit text).2
    rw [digitGroups_append] at hdec
    exact hdec

theorem stringBody_append (quote : Char) (text : List Char) :
    (stringBody quote text).1 ++ (stringBody quote text).2 = text := by
  fun_induction stringBody quote text with
  | case1 c text body rest heq ih =>
    rw [heq] at ih
    simpa using ih
  | case2 => rfl
  | case3 c text _ _ body rest heq ih =>
    rw [heq] at ih
    simpa using ih
  | case4 => rfl

theorem quoted_append (quote : Char) (text : List Char) :
    (quoted quote text).2.1 ++ (quoted quote text).2.2 = quote :: text := by
  have hbody := stringBody_append quote text
  unfold quoted
  split
  · rename_i body c rest heq
    rw [heq] at hbody
    split
    · simpa using hbody
    · simpa using hbody
  · rename_i body heq
    rw [heq] at hbody
    simpa using hbody

theorem word_append (text : List Char) : (word text).2.1 ++ (word text).2.2 = text := by
  unfold word
  simp only
  split <;> exact run_append isNamePart text

theorem blockComment_append (text : List Char) :
    (blockComment text).1 ++ (blockComment text).2 = text := by
  fun_induction blockComment text with
  | case1 => rfl
  | case2 c text _ taken rest heq ih =>
    rw [heq] at ih
    simpa using ih
  | case3 => rfl

theorem mark_append (c : Char) (text : List Char) :
    (mark c text).2.1 ++ (mark c text).2.2 = c :: text := by
  unfold mark
  split
  · exact List.take_append_drop _ _
  · rfl

/-- The text of a name or reserved word, which a number sign may stand before. -/
def IsWord (text : List Char) : Prop :=
  ∃ c rest, (text = c :: rest ∨ text = '#' :: c :: rest) ∧ isNameStart c = true ∧
    rest.all isNamePart = true

/-- A lexeme that the parser reads as a mark or a word is written as that mark or word, a string
stands between two quotes, and no single lexeme is a whole template or the end of the text. -/
def Spells (taken : List Char) : Lexeme → Prop
  | .token (.punct m) => taken = m.spelling.toList
  | .token (.keyword word) => taken = word.spelling.toList
  | .token (.identifier name) => taken = name.toList ∧ IsWord taken
  | .token (.string _) => ∃ quote body, (quote = '"' ∨ quote = '\'') ∧ taken = quote :: body ++ [quote]
  | .token (.template _) => False
  | .token .eof => False
  | _ => True

theorem radixLiteral?_spells {text : List Char} {r : Lexeme × List Char × List Char}
    (h : radixLiteral? text = some r) : r.1.Spells r.2.1 := by
  unfold radixLiteral? at h
  split at h
  · rename_i mark d text
    cases hbase : radix? mark with
    | none => simp [hbase] at h
    | some base =>
      simp only [hbase, bind, Option.bind_some] at h
      split at h
      · simp only [Option.some.injEq] at h
        subst h
        simp only
        split <;> trivial
      · cases h
  · cases h

theorem number_spells (text : List Char) : (number text).1.Spells (number text).2.1 := by
  unfold number
  split
  · rename_i cut hcut
    exact radixLiteral?_spells hcut
  · simp [decimalFrom, Spells]

theorem quoted_spells {quote : Char} (hquote : quote = '"' ∨ quote = '\'') (text : List Char) :
    (quoted quote text).1.Spells (quoted quote text).2.1 := by
  unfold quoted
  split
  · next body c rest heq =>
    split
    · next hclosed => exact ⟨quote, body, hquote, by rw [beq_iff_eq.mp hclosed]⟩
    · trivial
  · trivial

/-- A character that begins a name is the first of a word. -/
theorem isWord_run {c : Char} (hc : isNameStart c = true) (text : List Char) :
    IsWord (run isNamePart (c :: text)).1 := by
  refine ⟨c, text.takeWhile isNamePart, .inl ?_, hc, List.all_takeWhile⟩
  simp [run, isNamePart, hc]

theorem isWord_spelling (word : Keyword) : IsWord word.spelling.toList := by
  cases word <;> exact ⟨_, _, .inl rfl, by decide, by decide⟩

theorem word_spells {c : Char} (hc : isNameStart c = true) (text : List Char) :
    (word (c :: text)).1.Spells (word (c :: text)).2.1 := by
  unfold word
  simp only
  split
  · next word hword =>
    have hspelling := List.find?_some hword
    exact (String.toList_ofList.symm.trans (congrArg String.toList (eq_of_beq hspelling).symm))
  · exact ⟨String.toList_ofList.symm, isWord_run hc text⟩

theorem mark_spells (c : Char) (text : List Char) :
    (mark c text).1.Spells (mark c text).2.1 := by
  unfold mark
  split
  · rename_i p hp
    have hprefix := List.find?_some hp
    rw [List.isPrefixOf_iff_prefix] at hprefix
    exact (List.prefix_iff_eq_take.mp hprefix).symm
  · trivial

private theorem cut_cons (c : Char) (text : List Char) :
    ∃ r, cut (c :: text) = some r ∧ r.2.1 ++ r.2.2 = c :: text ∧ r.1.Spells r.2.1 := by
  refine ⟨_, rfl, ?_⟩
  split
  · exact ⟨rfl, trivial⟩
  split
  · exact ⟨rfl, trivial⟩
  split
  · next hquote => exact ⟨quoted_append c text, quoted_spells (by simpa using hquote) text⟩
  split
  · next hstart => exact ⟨word_append _, word_spells hstart _⟩
  split
  · exact ⟨number_append _, number_spells _⟩
  split
  · split
    · exact ⟨by simpa using decimalFrom_append [] _, by simp [decimalFrom, Spells]⟩
    · exact ⟨mark_append _ _, mark_spells _ _⟩
  · exact ⟨by simp [run, List.takeWhile_append_dropWhile], trivial⟩
  · split
    · next d rest _ _ _ _ _ _ hstart =>
      refine ⟨by simp [run, List.takeWhile_append_dropWhile], String.toList_ofList.symm, ?_⟩
      exact ⟨d, rest.takeWhile isNamePart, .inr (by simp [run, isNamePart, hstart]), hstart,
        List.all_takeWhile⟩
    · exact ⟨rfl, trivial⟩
  · exact ⟨by simp [run, List.takeWhile_append_dropWhile], trivial⟩
  · exact ⟨by simpa using blockComment_append _, trivial⟩
  · exact ⟨mark_append _ _, mark_spells _ _⟩

/-- The first lexeme and the rest make up the text. -/
theorem cut_append {text taken rest : List Char} {lexeme : Lexeme}
    (h : cut text = some (lexeme, taken, rest)) : taken ++ rest = text := by
  cases text with
  | nil => cases h
  | cons c text =>
    obtain ⟨r, hr, hjoin, _⟩ := cut_cons c text
    rw [hr, Option.some.injEq] at h
    simpa [h] using hjoin

theorem cut_spells {text taken rest : List Char} {lexeme : Lexeme}
    (h : cut text = some (lexeme, taken, rest)) : lexeme.Spells taken := by
  cases text with
  | nil => cases h
  | cons c text =>
    obtain ⟨r, hr, _, hspells⟩ := cut_cons c text
    rw [hr, Option.some.injEq] at h
    simpa [h] using hspells

end Lexeme

namespace Template

/-- The text of a piece, with the marks around a substitution. -/
def Piece.written : Piece → List Char
  | .quasi text => text
  | .substitution text => '$' :: '{' :: text ++ ['}']

/-- Pieces in turn: a quasi first and last, and one between any two substitutions. -/
inductive InTurn : List Piece → Prop where
  | last (text : List Char) : InTurn [.quasi text]
  | more (text inside : List Char) {pieces : List Piece} (htail : InTurn pieces) :
      InTurn (.quasi text :: .substitution inside :: pieces)

/-- What ends a quasi, as it is written. -/
def QuasiEnd.written : QuasiEnd → List Char
  | .backtick => ['`']
  | .substitution => ['$', '{']

theorem splitQuasi_append {text quasi rest : List Char} {ending : QuasiEnd}
    (h : splitQuasi text = some (quasi, ending, rest)) :
    quasi ++ ending.written ++ rest = text := by
  fun_induction splitQuasi text generalizing quasi with
  | case1 => cases h
  | case2 c text ih =>
    obtain ⟨⟨q, e, r⟩, hq, heq⟩ := Option.map_eq_some_iff.mp h
    cases heq
    simpa using ih hq
  | case3 => cases h; rfl
  | case4 => cases h; rfl
  | case5 => cases h
  | case6 c text _ _ _ _ ih =>
    obtain ⟨⟨q, e, r⟩, hq, heq⟩ := Option.map_eq_some_iff.mp h
    cases heq
    simpa using ih hq

theorem splitQuoted_append {quote : Char} {text quoted rest : List Char}
    (h : splitQuoted quote text = some (quoted, rest)) : quoted ++ rest = text := by
  fun_induction splitQuoted quote text generalizing quoted with
  | case1 => cases h
  | case2 c text ih =>
    obtain ⟨⟨q, r⟩, hq, heq⟩ := Option.map_eq_some_iff.mp h
    cases heq
    simpa using ih hq
  | case3 => cases h; rfl
  | case4 c text _ _ ih =>
    obtain ⟨⟨q, r⟩, hq, heq⟩ := Option.map_eq_some_iff.mp h
    cases heq
    simpa using ih hq

/-- What a rest of the text lacks of it at the front. -/
theorem take_sub_length_append {text rest : List Char} (h : rest <:+ text) :
    text.take (text.length - rest.length) ++ rest = text := by
  obtain ⟨front, rfl⟩ := h
  simp

/-- Nothing of the text is lost when a template or a substitution is split off. The two are
split by each other, so the facts are proved together. -/
theorem split_append (fuel : Nat) :
    (∀ text rest, (split fuel text).rest = some rest →
      InTurn (split fuel text).pieces ∧
        (split fuel text).pieces.flatMap Piece.written ++ '`' :: rest = text) ∧
    (∀ depth text inside rest, splitSubstitution fuel depth text = some (inside, rest) →
      inside ++ '}' :: rest = text) := by
  induction fuel with
  | zero =>
    refine ⟨fun text rest h => ?_, fun depth text inside rest h => ?_⟩
    · simp [split] at h
    · simp [splitSubstitution] at h
  | succ fuel ih =>
    obtain ⟨ihTemplate, ihSubstitution⟩ := ih
    refine ⟨fun text rest h => ?_, fun depth text inside rest h => ?_⟩
    · cases hquasi : splitQuasi text with
      | none => simp [split, hquasi] at h
      | some found =>
        obtain ⟨quasi, ending, after⟩ := found
        have hjoin := splitQuasi_append hquasi
        cases ending with
        | backtick =>
          simp only [split, hquasi, Option.some.injEq] at h ⊢
          subst h
          exact ⟨.last quasi, by simpa [Piece.written, QuasiEnd.written] using hjoin⟩
        | substitution =>
          cases hinside : splitSubstitution fuel 0 after with
          | none => simp [split, hquasi, hinside] at h
          | some found =>
            obtain ⟨inside, tail⟩ := found
            simp only [split, hquasi, hinside] at h ⊢
            obtain ⟨hturn, hpieces⟩ := ihTemplate tail rest h
            refine ⟨.more quasi inside hturn, ?_⟩
            have hsub := ihSubstitution 0 after inside tail hinside
            have htext : text = quasi ++ ['$', '{'] ++
                (inside ++ '}' :: ((split fuel tail).pieces.flatMap Piece.written ++ '`' :: rest)) := by
              rw [hpieces, hsub]
              exact hjoin.symm
            rw [htext]
            simp [Piece.written]
    · cases text with
      | nil => simp [splitSubstitution] at h
      | cons c text =>
        have keep {taken tail : List Char} {depth : Nat}
            (hkeep : (splitSubstitution fuel depth tail).map
              (fun found => (taken ++ found.1, found.2)) = some (inside, rest)) :
            inside ++ '}' :: rest = taken ++ tail := by
          obtain ⟨⟨i, r⟩, hi, heq⟩ := Option.map_eq_some_iff.mp hkeep
          cases heq
          simpa using ihSubstitution depth tail _ _ hi
        unfold splitSubstitution at h
        split at h
        · exact keep h
        · split at h
          · cases h
            rfl
          · exact keep h
        · split at h
          · cases h
          · rename_i string tail hstring
            have hjoin := splitQuoted_append hstring
            rw [keep h, ← hjoin]
            rfl
        · split at h
          · cases h
          · rename_i string tail hstring
            have hjoin := splitQuoted_append hstring
            rw [keep h, ← hjoin]
            rfl
        · split at h
          · cases h
          · rename_i tail htail
            have hsuffix : tail <:+ text := by
              have hjoin := (ihTemplate text tail htail).2
              exact ⟨(split fuel text).pieces.flatMap Piece.written ++ ['`'], by simpa using hjoin⟩
            rw [keep h, List.cons_append, take_sub_length_append hsuffix]
        · exact keep h

/-- The pieces of a closed template, its closing backtick and the rest make up the text. -/
theorem raw_append {text rest : List Char} (h : (raw text).rest = some rest) :
    InTurn (raw text).pieces ∧ (raw text).pieces.flatMap Piece.written ++ '`' :: rest = text :=
  (split_append _).1 text rest h

end Template
end ScriptLint
