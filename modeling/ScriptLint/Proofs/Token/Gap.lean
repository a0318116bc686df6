import ScriptLint.Proofs.Token.Cut

namespace ScriptLint
namespace Lexeme

/-- The lexeme is a token or a defect. -/
def isSolid : Lexeme → Bool
  | .token _ => true
  | .malformed => true
  | _ => false

theorem isSolid_quoted (quote : Char) (text : List Char) : (quoted quote text).1.isSolid = true := by
  unfold quoted
  split
  · split <;> rfl
  · rfl

theorem isSolid_word (text : List Char) : (word text).1.isSolid = true := by
  unfold word
  simp only
  split <;> rfl

theorem isSolid_number (text : List Char) : (number text).1.isSolid = true := by
  unfold number
  split
  · rename_i cut hcut
    unfold radixLiteral? at hcut
    split at hcut
    · obtain ⟨base, -, hcut⟩ := Option.bind_eq_some_iff.mp hcut
      split_ifs at hcut
      cases hcut
      simp only
      split <;> rfl
    · cases hcut
  · rfl

theorem isSolid_mark (c : Char) (text : List Char) : (mark c text).1.isSolid = true := by
  unfold mark
  split <;> rfl

/-- The first lexeme, its characters and the rest, where it is neither a token nor a defect. -/
inductive Hollow : Lexeme → List Char → List Char → Prop where
  | blank {c : Char} (hc : isBlank c = true) (rest : List Char) : Hollow .gap [c] rest
  | backtick (rest : List Char) : Hollow .backtick ['`'] rest
  | line {opening : List Char} (hopening : opening = ['/', '/'] ∨ opening = ['#', '!'])
      (text : List Char) : Hollow .gap (opening ++ (run (· != '\n') text).1) (run (· != '\n') text).2
  | block (text : List Char) : Hollow .gap ('/' :: '*' :: (blockComment text).1) (blockComment text).2

theorem hollow_of_cut {text taken rest : List Char} {lexeme : Lexeme}
    (h : cut text = some (lexeme, taken, rest)) (hhollow : lexeme.isSolid = false) :
    Hollow lexeme taken rest := by
  have habsurd : ∀ {r : Lexeme × List Char × List Char}, r.1.isSolid = true →
      r = (lexeme, taken, rest) → False := by
    rintro r hr rfl
    rw [hhollow] at hr
    cases hr
  cases text with
  | nil => cases h
  | cons c text =>
    simp only [cut, Option.some.injEq] at h
    split_ifs at h with hblank hbacktick hquote hname hdigit
    · cases h
      exact .blank hblank _
    · cases h
      rw [beq_iff_eq] at hbacktick
      rw [hbacktick]
      exact .backtick _
    · exact (habsurd (isSolid_quoted c text) h).elim
    · exact (habsurd (isSolid_word _) h).elim
    · exact (habsurd (isSolid_number _) h).elim
    · split at h
      · split_ifs at h
        · cases h
          cases hhollow
        · exact (habsurd (isSolid_mark _ _) h).elim
      · cases h
        exact .line (.inr rfl) _
      · split_ifs at h
        · cases h
          cases hhollow
        · cases h
          cases hhollow
      · cases h
        exact .line (.inl rfl) _
      · cases h
        exact .block _
      · exact (habsurd (isSolid_mark _ _) h).elim

theorem eq_of_cut_backtick {text taken rest : List Char}
    (h : cut text = some (.backtick, taken, rest)) : text = '`' :: rest ∧ taken = ['`'] := by
  have hjoin := cut_append h
  cases hollow_of_cut h rfl with
  | backtick => exact ⟨hjoin.symm, rfl⟩

/-- A line goes up to a line feed or to the end of the text. -/
theorem run_line (text : List Char) :
    '\n' ∉ (run (· != '\n') text).1 ∧
      ((run (· != '\n') text).2 = [] ∨ (run (· != '\n') text).2.head? = some '\n') := by
  constructor
  · intro hmem
    have hall : ∀ c ∈ (run (· != '\n') text).1, (c != '\n') = true :=
      List.all_eq_true.mp List.all_takeWhile
    simpa using hall '\n' hmem
  · have hdrop := List.head?_dropWhile_not (· != '\n') text
    rw [show List.dropWhile (· != '\n') text = (run (· != '\n') text).2 from rfl] at hdrop
    cases hrest : (run (· != '\n') text).2 with
    | nil => exact .inl rfl
    | cons c rest =>
      rw [hrest] at hdrop
      exact .inr (by simpa using hdrop)

/-- The first two characters do not end a comment, so its end stands further on. -/
theorem not_infix_cons {c : Char} {body tail text : List Char} (htext : body ++ tail = text)
    (hfirst : ∀ rest, c = '*' → text = '/' :: rest → False) (hbody : ¬ ['*', '/'] <:+: body) :
    ¬ ['*', '/'] <:+: c :: body := by
  rw [List.infix_cons_iff, not_or]
  refine ⟨?_, hbody⟩
  rintro ⟨rest, hrest⟩
  simp only [List.cons_append, List.nil_append, List.cons.injEq] at hrest
  obtain ⟨hc, hslash⟩ := hrest
  rw [← hslash] at htext
  exact hfirst _ hc.symm htext.symm

/-- A block comment goes up to the first `*/` or to the end of the text. -/
theorem blockComment_cases (text : List Char) :
    (∃ body, (blockComment text).1 = body ++ ['*', '/'] ∧ ¬ ['*', '/'] <:+: body) ∨
      (blockComment text).2 = [] ∧ ¬ ['*', '/'] <:+: (blockComment text).1 := by
  fun_induction blockComment text with
  | case1 text => exact .inl ⟨[], rfl, by simp⟩
  | case2 c text hfirst taken rest heq ih =>
    have hjoin := blockComment_append text
    rw [heq] at ih hjoin
    rcases ih with ⟨body, htaken, hbody⟩ | ⟨hrest, htaken⟩
    · simp only at htaken hjoin
      subst htaken
      rw [List.append_assoc] at hjoin
      exact .inl ⟨c :: body, rfl, not_infix_cons hjoin hfirst hbody⟩
    · exact .inr ⟨hrest, not_infix_cons hjoin hfirst htaken⟩
  | case3 => exact .inr ⟨rfl, by simp⟩

end Lexeme

/-- Text that stands for nothing. With `last`, nothing of the text that is scanned comes after it,
and a comment may end with the text. -/
inductive Skipped (last : Bool) : List Char → Prop where
  | nil : Skipped last []
  | blank {c : Char} {rest : List Char} (hc : Lexeme.isBlank c = true) (hrest : Skipped last rest) :
      Skipped last (c :: rest)
  | line {opening body rest : List Char} (hopening : opening = ['/', '/'] ∨ opening = ['#', '!'])
      (hbody : '\n' ∉ body) (hend : rest.head? = some '\n' ∨ last = true ∧ rest = [])
      (hrest : Skipped last rest) : Skipped last (opening ++ body ++ rest)
  | block {body rest : List Char} (hbody : ¬ ['*', '/'] <:+: body) (hrest : Skipped last rest) :
      Skipped last ('/' :: '*' :: body ++ ['*', '/'] ++ rest)
  | openBlock {body : List Char} (hbody : ¬ ['*', '/'] <:+: body) (hlast : last = true) :
      Skipped last ('/' :: '*' :: body)

end ScriptLint
