import ScriptLint.Proofs.Lint.TemplateLiteral
import ScriptLint.Proofs.Token.Escape
import ScriptLint.Proofs.Token.Octets

namespace ScriptLint
namespace Escape

variable {c : Char} {digits written raw rest : List Char}

/-- A hexadecimal escape, without its backslash: two digits, four digits, or digits in braces. -/
inductive Hexadecimal : List Char → Prop where
  | byte {digits : List Char} (hlength : digits.length = 2) (h : (hex? digits).isSome) :
      Hexadecimal ('x' :: digits)
  | unit {digits : List Char} (hlength : digits.length = 4) (h : (hex? digits).isSome) :
      Hexadecimal ('u' :: digits)
  | braced {digits : List Char} (h : (hex? digits).isSome) :
      Hexadecimal ('u' :: '{' :: (digits ++ ['}']))

/-- A text in which every backslash escapes something, and every hexadecimal escape has the digits
of a number, be there a character with that number or not. -/
inductive WellFormed : List Char → Prop where
  | nil : WellFormed []
  | plain {c : Char} {raw : List Char} (hslash : c ≠ '\\') (h : WellFormed raw) :
      WellFormed (c :: raw)
  | simple {c : Char} {raw : List Char} (hx : c ≠ 'x') (hu : c ≠ 'u') (h : WellFormed raw) :
      WellFormed ('\\' :: c :: raw)
  | hexadecimal {written raw : List Char} (hwritten : Hexadecimal written) (h : WellFormed raw) :
      WellFormed ('\\' :: (written ++ raw))

theorem hexValue?_ne_none_of_hexFrom? {n : Nat} (h : (hexFrom? n digits).isSome) :
    ∀ c ∈ digits, hexValue? c ≠ none := by
  induction digits generalizing n with
  | nil => exact List.forall_mem_nil _
  | cons c digits ih =>
    cases hc : hexValue? c with
    | none => simp [hexFrom?, hc] at h
    | some d =>
      rw [hexFrom?, hc, Option.bind_some] at h
      exact List.forall_mem_cons.mpr ⟨by simp [hc], ih h⟩

/-- No mark stands among the digits of a number. -/
theorem ne_of_isSome_hex? (h : (hex? digits).isSome) {mark : Char} (hplus : mark ≠ '+')
    (hmark : hexValue? mark = none) : ∀ c ∈ digits, c ≠ mark := by
  rintro c hc rfl
  unfold hex? at h
  split at h
  · cases h
  · cases h
  · rcases List.mem_cons.mp hc with rfl | hc
    · exact hplus rfl
    · exact hexValue?_ne_none_of_hexFrom? h c hc hmark
  · exact hexValue?_ne_none_of_hexFrom? h c hc hmark

theorem Hexadecimal.exists_tail (h : Hexadecimal written) :
    ∃ c tail, written = c :: tail ∧ ∀ d ∈ tail, d ≠ '\\' ∧ d ≠ '`' ∧ d ≠ '$' := by
  have hdigits : ∀ digits : List Char, (hex? digits).isSome →
      ∀ d ∈ digits, d ≠ '\\' ∧ d ≠ '`' ∧ d ≠ '$' := fun digits h d hd =>
    ⟨ne_of_isSome_hex? h (by decide) rfl d hd, ne_of_isSome_hex? h (by decide) rfl d hd,
      ne_of_isSome_hex? h (by decide) rfl d hd⟩
  cases h with
  | byte _ h => exact ⟨_, _, rfl, hdigits _ h⟩
  | unit _ h => exact ⟨_, _, rfl, hdigits _ h⟩
  | @braced digits h =>
    refine ⟨_, _, rfl, fun d hd => ?_⟩
    rcases List.mem_cons.mp hd with rfl | hd
    · decide
    · rcases List.mem_append.mp hd with hd | hd
      · exact hdigits digits h d hd
      · obtain rfl := List.mem_singleton.mp hd
        decide

/-- What a hexadecimal escape stands for does not depend on what follows it. -/
theorem Hexadecimal.exists_read (h : Hexadecimal written) :
    ∃ v, ∀ rest, read .plain ('\\' :: (written ++ rest)) = v ++ read .plain rest := by
  cases h with
  | @byte digits hlength h => exact ⟨resolve digits, fun rest => read_byte hlength⟩
  | @unit digits hlength h =>
    exact ⟨resolve digits, fun rest => read_unit (ne_of_isSome_hex? h (by decide) rfl) hlength⟩
  | @braced digits h =>
    refine ⟨resolve digits, fun rest => ?_⟩
    have hread : read .plain ('\\' :: 'u' :: '{' :: (digits ++ '}' :: rest)) =
        resolve digits ++ read .plain rest :=
      read_braced [] (ne_of_isSome_hex? h (by decide) rfl)
    simpa using hread

end Escape

namespace TemplatePiece
open Escape (WellFormed)

variable {raw : List Char}

theorem escape_append {front : List Char} (h : ∀ c ∈ front, c ≠ '\\' ∧ c ≠ '`' ∧ c ≠ '$')
    (raw : List Char) : escape (front ++ raw) = front ++ escape raw := by
  induction front with
  | nil => rfl
  | cons c front ih =>
    obtain ⟨⟨hslash, hbacktick, hdollar⟩, hfront⟩ := List.forall_mem_cons.mp h
    rw [List.cons_append, escape_cons hslash, if_neg (not_or.mpr ⟨hbacktick, hdollar⟩), ih hfront,
      List.cons_append]

/-- Escaping does not change what is read. -/
theorem read_escape (h : WellFormed raw) :
    Escape.read .plain (escape raw) = Escape.read .plain raw := by
  induction h with
  | nil => rfl
  | @plain c raw hslash _ ih =>
    rw [escape_cons hslash, Escape.read_plain_cons hslash]
    split_ifs with hmark
    · -- The mark gets a backslash, which is resolved again.
      have hsimple : Escape.simple c = [c] := by rcases hmark with rfl | rfl <;> rfl
      rw [Escape.read_simple, hsimple, ih, List.singleton_append]
      all_goals rcases hmark with rfl | rfl <;> decide
    · rw [Escape.read_plain_cons hslash, ih]
  | @simple c raw hx hu _ ih =>
    rw [escape, Escape.read_simple hx hu, Escape.read_simple hx hu, ih]
  | @hexadecimal written raw hwritten _ ih =>
    obtain ⟨c, tail, rfl, htail⟩ := hwritten.exists_tail
    obtain ⟨v, hv⟩ := hwritten.exists_read
    have hescape : escape ('\\' :: (c :: tail ++ raw)) = '\\' :: (c :: tail ++ escape raw) := by
      rw [List.cons_append, escape, escape_append htail]
      rfl
    rw [hescape, hv, hv, ih]

/-- The escaped body of a string ends as a quasi at the backtick after it. -/
theorem splitQuasi_escape {quote : Char} {text body rest : List Char}
    (h : Lexeme.stringBody quote text = (body, rest)) (tail : List Char) :
    Template.splitQuasi (escape body ++ '`' :: tail) = some (escape body, .backtick, tail) := by
  have hadmits : Template.Mode.plain.Admits (Template.chars (α := List Char) (escape body)) :=
    ⟨.plain, run?_escape h, nofun⟩
  have hquasi := Template.splitQuasi_of_admits hadmits .backtick tail
  rwa [List.append_assoc] at hquasi

end TemplatePiece

namespace Lexeme

theorem exists_decimalFrom_eq_number (whole rest : List Char) :
    ∃ value, (decimalFrom whole rest).1 = .number value := by
  unfold decimalFrom
  split
  exact ⟨_, rfl⟩

theorem number_ne_string (text : List Char) (value : String) :
    (number text).1 ≠ .token (.string value) := by
  intro h
  unfold number at h
  split at h
  · next cut hcut =>
    unfold radixLiteral? at hcut
    split at hcut
    · obtain ⟨base, -, hcut⟩ := Option.bind_eq_some_iff.mp hcut
      split_ifs at hcut
      rw [Option.some.injEq] at hcut
      rw [← hcut] at h
      split_ifs at h
      cases h
    · cases hcut
  · obtain ⟨n, hn⟩ := exists_decimalFrom_eq_number (digitGroups isDigit text).1
      (digitGroups isDigit text).2
    simp [hn] at h

/-- A string literal: a body between quotes, and the value that its escapes give. -/
theorem exists_of_cut_string {text taken rest : List Char} {value : String}
    (h : cut text = some (.token (.string value), taken, rest)) : ∃ quote body tail,
    stringBody quote tail = (body, quote :: rest) ∧ taken = quote :: body ++ [quote] ∧
      value = unescape (String.ofList body) := by
  cases begins_of_cut h with
  | @quote c hc text =>
    rw [cut_of_quote hc, Option.some.injEq] at h
    obtain ⟨body, hbody, htaken, hvalue⟩ := exists_of_quoted h
    exact ⟨c, body, text, hbody, htaken, Token.string.inj hvalue⟩
  | @word c hc text =>
    rw [cut_of_nameStart hc, Option.some.injEq] at h
    unfold word at h
    simp only at h
    split at h <;> cases h
  | @number c hc text =>
    rw [cut_of_digit hc, Option.some.injEq] at h
    exact absurd (congrArg Prod.fst h) (number_ne_string (c :: text) value)
  | @point d hd text =>
    rw [cut_of_point hd, Option.some.injEq, Prod.mk.injEq] at h
    obtain ⟨n, hn⟩ := exists_decimalFrom_eq_number [] ('.' :: d :: text)
    rw [hn] at h
    cases h.1
  | @privateName d hd text =>
    rw [cut_of_private hd] at h
    cases h
  | @mark c text hmark =>
    rw [cut_of_beginsMark hmark, Option.some.injEq] at h
    unfold mark at h
    split at h <;> cases h

end Lexeme

theorem withoutDelimiters?_of_delimited (first last : Char) (body : List Char) :
    withoutDelimiters? (first :: body ++ [last]) = some body := by
  cases body with
  | nil => rfl
  | cons c body =>
    have hlast : (c :: body ++ [last]).dropLast = c :: body := List.dropLast_concat
    exact congrArg some hlast

/-- The text between two backticks is all of a template: the template has this one quasi and no
substitution, and it ends at the second backtick, whatever follows. -/
structure Template.OneQuasi (quasi : List Char) : Prop where
  raw_eq (rest : List Char) : Template.raw (quasi ++ '`' :: rest) = ⟨[.quasi quasi], some rest⟩
  /-- As a token, at any place of a source. -/
  scanAt_eq (p : Position) (rest : List Char) :
    scanAt p ('`' :: (quasi ++ '`' :: rest)) =
      (scanAt (((p.step '`').after quasi).step '`') rest).withToken
        (.template [.quasi (String.ofList quasi) (.between (p.step '`') ((p.step '`').after quasi))])
        (.between p (((p.step '`').after quasi).step '`'))
  /-- Also when the end is looked for byte by byte. -/
  quasiEnd?_eq (rest : List Char) :
    Template.quasiEnd? (octets (quasi ++ '`' :: rest)) = some (byteLength quasi, .backtick)

theorem Template.oneQuasi_of_splitQuasi {quasi : List Char}
    (h : ∀ rest, splitQuasi (quasi ++ '`' :: rest) = some (quasi, .backtick, rest)) :
    OneQuasi quasi := by
  have hraw : ∀ rest, Template.raw (quasi ++ '`' :: rest) = ⟨[.quasi quasi], some rest⟩ := by
    intro rest
    rw [Template.raw, split, h rest]
  refine ⟨hraw, fun p rest => ?_, fun rest => ?_⟩
  · exact scanAt_template p (hraw rest) rfl
  · rw [quasiEnd?_octets, h rest]
    rfl

/-- Wherever a string literal is cut off a text, its escaped body is one quasi. If the hexadecimal
escapes in it are whole, its escapes give the value of the string, as those of the body do. -/
theorem unescape_escape_of_cut {text taken rest raw : List Char} {value : String}
    (hcut : Lexeme.cut text = some (.token (.string value), taken, rest))
    (hraw : withoutDelimiters? taken = some raw) (hwell : Escape.WellFormed raw) :
    Template.OneQuasi (TemplatePiece.escape raw) ∧
      unescape (String.ofList (TemplatePiece.escape raw)) = value ∧
      unescape (String.ofList raw) = value := by
  obtain ⟨quote, body, tail, hbody, rfl, rfl⟩ := Lexeme.exists_of_cut_string hcut
  obtain rfl : body = raw := by
    rwa [withoutDelimiters?_of_delimited, Option.some.injEq] at hraw
  have hread := TemplatePiece.read_escape hwell
  refine ⟨Template.oneQuasi_of_splitQuasi (TemplatePiece.splitQuasi_escape hbody), ?_, rfl⟩
  rw [unescape, unescape, String.toList_ofList, String.toList_ofList, hread]

/-- A string of all kinds of escapes, with marks that have a backslash and marks that have none. -/
theorem unescape_escape_of_cut_mixed : ∃ taken raw,
    Lexeme.cut "'\\\\`$\x7b\\$\\\n\\x41\\u\x7b1F600\x7dé' + b".toList =
      some (.token (.string "\\`$\x7b$A😀é"), taken, " + b".toList) ∧
    withoutDelimiters? taken = some raw ∧ Escape.WellFormed raw ∧
    TemplatePiece.escape raw = "\\\\\\`\\$\x7b\\$\\\n\\x41\\u\x7b1F600\x7dé".toList ∧
    Template.OneQuasi (TemplatePiece.escape raw) ∧
    unescape (String.ofList (TemplatePiece.escape raw)) = "\\`$\x7b$A😀é" ∧
    unescape (String.ofList raw) = "\\`$\x7b$A😀é" := by
  have hbyte : Escape.Hexadecimal ['x', '4', '1'] := .byte rfl rfl
  have hbraced : Escape.Hexadecimal ['u', '{', '1', 'F', '6', '0', '0', '}'] :=
    @Escape.Hexadecimal.braced ['1', 'F', '6', '0', '0'] rfl
  have hend : Escape.WellFormed
      ['\\', 'x', '4', '1', '\\', 'u', '{', '1', 'F', '6', '0', '0', '}', 'é'] :=
    .hexadecimal hbyte (.hexadecimal hbraced (.plain (by decide) .nil))
  obtain ⟨raw, hraw, hwell⟩ : ∃ raw, raw = ['\\', '\\', '`', '$', '{', '\\', '$', '\\', '\n'] ++
      ['\\', 'x', '4', '1', '\\', 'u', '{', '1', 'F', '6', '0', '0', '}', 'é'] ∧
      Escape.WellFormed raw :=
    ⟨_, rfl, .simple (by decide) (by decide) (.plain (by decide) (.plain (by decide)
      (.plain (by decide) (.simple (by decide) (by decide) (.simple (by decide) (by decide)
        hend)))))⟩
  have hcut : Lexeme.cut "'\\\\`$\x7b\\$\\\n\\x41\\u\x7b1F600\x7dé' + b".toList =
      some (.token (.string "\\`$\x7b$A😀é"), '\'' :: raw ++ ['\''], " + b".toList) := by
    rw [hraw]
    rfl
  have hescape : TemplatePiece.escape raw =
      "\\\\\\`\\$\x7b\\$\\\n\\x41\\u\x7b1F600\x7dé".toList := by
    rw [hraw]
    rfl
  have hdelimited := withoutDelimiters?_of_delimited '\'' '\'' raw
  exact ⟨_, raw, hcut, hdelimited, hwell, hescape, unescape_escape_of_cut hcut hdelimited hwell⟩

/-- A hexadecimal escape that lacks a digit takes in the backslash that a mark after it gets. -/
example : unescape (String.ofList (TemplatePiece.escape "\\x4$".toList)) = "4\\$" ∧
    unescape "\\x4$" = "4$" := by
  decide

end ScriptLint
