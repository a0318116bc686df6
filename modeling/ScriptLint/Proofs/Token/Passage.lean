import ScriptLint.Proofs.Token.Characters
import ScriptLint.Proofs.Token.Lossless

namespace ScriptLint
namespace Lexeme

open Template (isDelimiter)

/-- Text without braces, quotes and backticks. -/
def Bare (text : List Char) : Prop := ∀ c ∈ text, isDelimiter c = false

/-- A class of characters to which no delimiter belongs. -/
def Apart (p : Char → Bool) : Prop := ∀ c, p c = true → isDelimiter c = false

/-- The characters that are not passed over one by one. -/
def delimiters : List Char := ['{', '}', '"', '\'', '`']

theorem mem_delimiters {c : Char} (h : isDelimiter c = true) : c ∈ delimiters := by
  simpa [isDelimiter, delimiters, or_assoc] using h

theorem apart_of_all {p : Char → Bool} (h : delimiters.all (fun c => !p c) = true) : Apart p := by
  intro c hc
  by_contra hdelimiter
  rw [Bool.not_eq_false] at hdelimiter
  have hnot := List.all_eq_true.mp h c (mem_delimiters hdelimiter)
  rw [hc] at hnot
  cases hnot

theorem apart_isNamePart : Apart isNamePart := apart_of_all (by decide)

theorem apart_isNumeral : Apart isNumeral := apart_of_all (by decide)

theorem bare_of_all {p : Char → Bool} (hp : Apart p) {text : List Char} (h : text.all p = true) :
    Bare text := fun c hc => hp c (List.all_eq_true.mp h c hc)

/-- The braces are the only marks that are delimiters. -/
theorem bare_spelling {m : Punct} (hopen : m ≠ .leftBrace) (hclose : m ≠ .rightBrace) :
    Bare m.spelling.toList := by
  have hall : ∀ m : Punct, m ≠ .leftBrace → m ≠ .rightBrace →
      m.spelling.toList.all (fun c => !isDelimiter c) = true := by
    intro m hopen hclose
    cases m <;> first | contradiction | rfl
  intro c hc
  have h := List.all_eq_true.mp (hall m hopen hclose) c hc
  simpa using h

end Lexeme

/-- The depth of open braces after a token; there is none if the token closes a brace that was not
opened. -/
def Token.depthAfter (depth : Nat) : Token → Option Nat
  | .punct .leftBrace => some (depth + 1)
  | .punct .rightBrace => if depth = 0 then none else some (depth - 1)
  | _ => some depth

namespace Template

open Lexeme (Bare)

theorem kept_kept (a b : List Char) (found : Option (List Char × List Char)) :
    kept a (kept b found) = kept (a ++ b) found := by
  cases found with
  | none => rfl
  | some found => simp [kept]

/-- The search for the end of a substitution passes over a text, whatever comes after it, and
counts the braces from one depth to another. -/
def Passes (depth depth' : Nat) (text : List Char) : Prop :=
  ∀ fuel tail, text.length ≤ fuel → ∃ fuel', fuel ≤ fuel' + text.length ∧
    splitSubstitution fuel depth (text ++ tail) = kept text (splitSubstitution fuel' depth' tail)

theorem passes_nil (depth : Nat) : Passes depth depth [] := by
  intro fuel tail hfuel
  refine ⟨fuel, by simp, ?_⟩
  cases h : splitSubstitution fuel depth tail <;> simp [kept, h]

theorem Passes.append {depth depth' depth'' : Nat} {a b : List Char} (ha : Passes depth depth' a)
    (hb : Passes depth' depth'' b) : Passes depth depth'' (a ++ b) := by
  intro fuel tail hfuel
  rw [List.length_append] at hfuel
  obtain ⟨fuel₁, hfuel₁, hfirst⟩ := ha fuel (b ++ tail) (by omega)
  obtain ⟨fuel₂, hfuel₂, hsecond⟩ := hb fuel₁ tail (by omega)
  refine ⟨fuel₂, by rw [List.length_append]; omega, ?_⟩
  rw [List.append_assoc, hfirst, hsecond, kept_kept]

/-- A text that is taken in one step. -/
theorem passes_of_step {depth depth' : Nat} {text : List Char} (hne : text ≠ [])
    (hstep : ∀ fuel tail, text.length ≤ fuel + 1 → splitSubstitution (fuel + 1) depth (text ++ tail) =
      kept text (splitSubstitution fuel depth' tail)) : Passes depth depth' text := by
  intro fuel tail hfuel
  have hpos := List.length_pos_of_ne_nil hne
  obtain ⟨fuel, rfl⟩ : ∃ n, fuel = n + 1 := ⟨fuel - 1, by omega⟩
  exact ⟨fuel, by omega, hstep fuel tail hfuel⟩

theorem passes_bare (depth : Nat) {text : List Char} (h : Bare text) : Passes depth depth text := by
  induction text with
  | nil => exact passes_nil depth
  | cons c text ih =>
    have hc : Passes depth depth [c] :=
      passes_of_step (by simp) fun fuel tail _ =>
        splitSubstitution_plain fuel depth tail (h c List.mem_cons_self)
    exact hc.append (ih fun d hd => h d (List.mem_cons_of_mem c hd))

theorem splitQuoted_of_stringBody {quote : Char} (hquote : quote ≠ '\\')
    {text body rest : List Char} (h : Lexeme.stringBody quote text = (body, quote :: rest))
    (tail : List Char) :
    splitQuoted quote (body ++ quote :: tail) = some (body ++ [quote], tail) := by
  fun_induction Lexeme.stringBody quote text generalizing body with
  | case1 c text body' rest' heq ih =>
    simp only [Prod.mk.injEq] at h
    obtain ⟨rfl, rfl⟩ := h
    simp [splitQuoted, ih heq]
  | case2 c text hescape hends =>
    simp only [Prod.mk.injEq, List.cons.injEq] at h
    obtain ⟨rfl, rfl, -⟩ := h
    rw [List.nil_append, splitQuoted]
    · simp
    · rintro d tail rfl -
      exact hquote rfl
  | case3 c text hescape hends body' rest' heq ih =>
    simp only [Prod.mk.injEq] at h
    obtain ⟨rfl, rfl⟩ := h
    simp only [Bool.or_eq_true, beq_iff_eq, not_or] at hends
    rw [List.cons_append, splitQuoted]
    · simp [hends.1.1, ih heq]
    · rintro d tail rfl -
      exact hends.1.2 rfl
  | case4 => simp at h

theorem passes_quoted {quote : Char} (hquote : quote = '"' ∨ quote = '\'') (depth : Nat)
    {text taken rest : List Char} {t : Token}
    (h : Lexeme.quoted quote text = (.token t, taken, rest)) :
    Passes depth depth taken ∧ ∃ value, t = .string value := by
  have hslash : quote ≠ '\\' := by rcases hquote with rfl | rfl <;> decide
  obtain ⟨body, hbody, rfl, rfl⟩ := Lexeme.exists_of_quoted h
  refine ⟨passes_of_step (by simp) fun fuel tail _ => ?_, _, rfl⟩
  have hquoted := splitQuoted_of_stringBody hslash hbody tail
  have htext : quote :: body ++ [quote] ++ tail = quote :: (body ++ quote :: tail) := by simp
  rw [htext, splitSubstitution_quote _ _ _ hquote, hquoted]
  rfl

theorem passes_template (depth : Nat) {text rest : List Char} {pieces : List Piece}
    (hraw : raw text = ⟨pieces, some rest⟩) :
    Passes depth depth ('`' :: writtenAll pieces ++ ['`']) := by
  refine passes_of_step (by simp) fun fuel tail hfuel => ?_
  simp only [List.length_append, List.length_cons, List.length_nil] at hfuel
  have hsplit := (split_exchange _).1 text rest (congrArg Raw.rest hraw) fuel tail
  rw [show split (text.length + 1) text = ⟨pieces, some rest⟩ from hraw] at hsplit
  have htext : '`' :: writtenAll pieces ++ ['`'] ++ tail =
      '`' :: (writtenAll pieces ++ '`' :: tail) := by
    simp
  rw [htext, splitSubstitution_backtick, hsplit (by simp only; omega), Option.bind_some,
    take_sub_length]
  rfl

theorem passes_brace {depth depth' : Nat} {m : Punct} (hbrace : m = .leftBrace ∨ m = .rightBrace)
    (hdepth : (Token.punct m).depthAfter depth = some depth') :
    Passes depth depth' m.spelling.toList := by
  rcases hbrace with rfl | rfl
  · obtain rfl : depth + 1 = depth' := by simpa [Token.depthAfter] using hdepth
    exact passes_of_step (by decide) fun fuel tail _ => splitSubstitution_open fuel depth tail
  · cases depth with
    | zero => simp [Token.depthAfter] at hdepth
    | succ depth =>
      obtain rfl : depth = depth' := by simpa [Token.depthAfter] using hdepth
      exact passes_of_step (by decide) fun fuel tail _ =>
        splitSubstitution_close_succ fuel depth tail

/-- A token whose text is bare is no brace. -/
theorem depthAfter_of_bare {t : Token} {taken : List Char}
    (hspells : (Lexeme.token t).Spells taken) (hbare : Bare taken) (depth : Nat) :
    t.depthAfter depth = some depth := by
  unfold Token.depthAfter
  split
  · obtain rfl : taken = _ := hspells
    cases hbare '{' (by decide)
  · obtain rfl : taken = _ := hspells
    cases hbare '}' (by decide)
  · rfl

theorem passes_token {depth depth' : Nat} {text taken rest : List Char} {t : Token}
    (hcut : Lexeme.cut text = some (.token t, taken, rest))
    (hdepth : t.depthAfter depth = some depth') : Passes depth depth' taken := by
  have hspells := Lexeme.cut_spells hcut
  have hbare (h : Bare taken) : Passes depth depth' taken := by
    rw [depthAfter_of_bare hspells h, Option.some.injEq] at hdepth
    subst hdepth
    exact passes_bare depth h
  cases Lexeme.begins_of_cut hcut with
  | quote hc text =>
    rw [Lexeme.cut_of_quote hc, Option.some.injEq] at hcut
    obtain ⟨hpasses, value, rfl⟩ := passes_quoted hc depth hcut
    cases hdepth
    exact hpasses
  | @word c hc text =>
    rw [Lexeme.cut_of_nameStart hc, Option.some.injEq] at hcut
    have h := Lexeme.all_word (c :: text)
    rw [hcut] at h
    exact hbare (Lexeme.bare_of_all Lexeme.apart_isNamePart h)
  | @number c hc text =>
    rw [Lexeme.cut_of_digit hc, Option.some.injEq] at hcut
    have h := Lexeme.all_number (c :: text)
    rw [hcut] at h
    exact hbare (Lexeme.bare_of_all Lexeme.apart_isNumeral h)
  | @point d hd text =>
    rw [Lexeme.cut_of_point hd, Option.some.injEq, Prod.mk.injEq] at hcut
    have h := Lexeme.all_decimalFrom List.all_nil ('.' :: d :: text)
    rw [hcut.2] at h
    exact hbare (Lexeme.bare_of_all Lexeme.apart_isNumeral h)
  | @privateName d hd text =>
    rw [Lexeme.cut_of_private hd] at hcut
    cases hcut
    have hall := Lexeme.all_run Lexeme.isNamePart (d :: text)
    exact hbare (List.forall_mem_cons.mpr ⟨rfl, Lexeme.bare_of_all Lexeme.apart_isNamePart hall⟩)
  | mark hmark =>
    rw [Lexeme.cut_of_beginsMark hmark, Option.some.injEq] at hcut
    unfold Lexeme.mark at hcut
    split at hcut
    · rename_i m hm
      simp only [Prod.mk.injEq, Lexeme.token.injEq] at hcut
      obtain ⟨rfl, -, -⟩ := hcut
      obtain rfl : taken = m.spelling.toList := hspells
      by_cases hbrace : m = .leftBrace ∨ m = .rightBrace
      · exact passes_brace hbrace hdepth
      · rw [not_or] at hbrace
        exact hbare (Lexeme.bare_spelling hbrace.1 hbrace.2)
    · cases hcut

end Template
end ScriptLint
