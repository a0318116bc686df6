import ScriptLint.Token.Escape
import Mathlib.Data.Nat.Digits.Defs
import Mathlib.Data.List.Forall2

namespace ScriptLint
namespace Escape

/-- The character is the hexadecimal digit `d`, as a small or a capital letter. -/
def IsDigit (c : Char) (d : Nat) : Prop :=
  d < 16 ∧ (c = d.digitChar ∨ c = d.digitChar.toUpper)

instance (c : Char) (d : Nat) : Decidable (IsDigit c d) :=
  inferInstanceAs (Decidable (_ ∧ _))

/-- The digits are those of a number, the most significant first; zeros may stand before them. -/
def Numeral (digits : List Char) (n : Nat) : Prop :=
  ∃ values, List.Forall₂ IsDigit digits values ∧ n = Nat.ofDigits 16 values.reverse

/-- The code units of a character in UTF-16: one, or two surrogates. -/
def codeUnits (c : Char) : List Nat :=
  if c.toNat < 0x10000 then [c.toNat]
  else [0xd800 + (c.toNat - 0x10000) / 0x400, 0xdc00 + (c.toNat - 0x10000) % 0x400]

/-- Characters that have an escape of one letter. -/
def letters : List (Char × Char) :=
  [('n', '\n'), ('r', '\r'), ('t', '\t'), ('b', '\x08'), ('f', '\x0c'), ('v', '\x0b')]

/-- The ways to write a character. The index is the number of its code units that are written after
another one. -/
inductive Writes : Char → List Char → Nat → Prop where
  | itself {c : Char} (hslash : c ≠ '\\') (hline : c ≠ '\n') : Writes c [c] 0
  | braced {c : Char} {digits : List Char} (hne : digits ≠ []) (h : Numeral digits c.toNat) :
      Writes c ('\\' :: 'u' :: '{' :: (digits ++ ['}'])) 0
  | units {c : Char} (quads : List (List Char))
      (h : List.Forall₂ (fun digits unit => digits.length = 4 ∧ Numeral digits unit) quads
        (codeUnits c)) :
      Writes c (quads.flatMap fun digits => '\\' :: 'u' :: digits) ((codeUnits c).length - 1)
  | byte {c : Char} {digits : List Char} (hlength : digits.length = 2)
      (h : Numeral digits c.toNat) : Writes c ('\\' :: 'x' :: digits) 0
  | letter {l c : Char} (h : (l, c) ∈ letters) : Writes c ['\\', l] 0

/-- The ways to write a text: its characters one after the other, and line continuations between
them. The index is the number of characters that are written as two code units. -/
inductive Spells : List Char → List Char → Nat → Prop where
  | nil : Spells [] [] 0
  | continuation {text body : List Char} {pairs : Nat} (h : Spells text body pairs) :
      Spells text ('\\' :: '\n' :: body) pairs
  | character {c : Char} {text written body : List Char} {pair pairs : Nat}
      (hc : Writes c written pair) (h : Spells text body pairs) :
      Spells (c :: text) (written ++ body) (pair + pairs)

theorem hexValue?_digitChar : ∀ d < 16, hexValue? d.digitChar = some d ∧
    hexValue? d.digitChar.toUpper = some d := by
  decide

variable {c : Char} {d n : Nat} {digits rest : List Char}

theorem hexValue?_of_isDigit (h : IsDigit c d) : hexValue? c = some d := by
  obtain ⟨hlt, rfl | rfl⟩ := h
  · exact (hexValue?_digitChar d hlt).1
  · exact (hexValue?_digitChar d hlt).2

theorem hexFrom?_of_forall₂ {values : List Nat} (h : List.Forall₂ IsDigit digits values) (n : Nat) :
    hexFrom? n digits = some (values.foldl (fun n d => d + 16 * n) n) := by
  induction h generalizing n with
  | nil => rfl
  | cons hd _ ih =>
    rw [hexFrom?, hexValue?_of_isDigit hd, Option.bind_some, ih, Nat.add_comm, List.foldl_cons]

theorem hexFrom?_of_numeral (h : Numeral digits n) : hexFrom? 0 digits = some n := by
  obtain ⟨values, hvalues, rfl⟩ := h
  rw [hexFrom?_of_forall₂ hvalues, Nat.ofDigits_eq_foldr, List.foldr_reverse]
  rfl

/-- No digit is a mark by which escapes are told. -/
theorem Numeral.ne (h : Numeral digits n) {mark : Char} (hmark : hexValue? mark = none) :
    ∀ c ∈ digits, c ≠ mark := by
  obtain ⟨values, hvalues, -⟩ := h
  induction hvalues with
  | nil => exact fun c hc => absurd hc List.not_mem_nil
  | cons hd _ ih =>
    rintro c hc rfl
    rcases List.mem_cons.mp hc with rfl | hc
    · rw [hexValue?_of_isDigit hd] at hmark
      cases hmark
    · exact ih c hc rfl

theorem hex?_of_numeral (h : Numeral digits n) (hne : digits ≠ []) : hex? digits = some n := by
  have hplus : ∀ c ∈ digits, c ≠ '+' := h.ne rfl
  rw [← hexFrom?_of_numeral h]
  unfold hex?
  split <;> simp_all

/-- The digits of a code point stand for its character. -/
theorem resolve_of_numeral (h : Numeral digits c.toNat) (hne : digits ≠ []) :
    resolve digits = [c] := by
  have hchar : char? c.toNat = some c := by
    rw [char?, if_pos (show c.toNat.isValidChar from c.valid), Char.ofNat_toNat]
  rw [resolve, hex?_of_numeral h hne, Option.bind_some, hchar]

/-- The code unit is one of two that stand for a character. -/
def IsSurrogate (unit : Nat) : Prop := 0xd800 ≤ unit ∧ unit < 0xe000

/-- The digits of a surrogate stand for themselves. -/
theorem resolve_of_isSurrogate (h : Numeral digits n) (hne : digits ≠ []) (hn : IsSurrogate n) :
    resolve digits = digits := by
  have hnone : char? n = none := by
    rw [char?, if_neg]
    simp only [Nat.isValidChar]
    obtain ⟨hlo, hhi⟩ := hn
    omega
  rw [resolve, hex?_of_numeral h hne, Option.bind_some, hnone]

theorem codeUnits_cases (c : Char) : codeUnits c = [c.toNat] ∨
    ∃ high low, codeUnits c = [high, low] ∧ IsSurrogate high ∧ IsSurrogate low := by
  have hlt : c.toNat < 0x110000 := by
    have hvalid := c.valid
    simp only [UInt32.isValidChar, Nat.isValidChar] at hvalid
    simp only [Char.toNat]
    omega
  unfold codeUnits
  split_ifs with hsmall
  · exact .inl rfl
  · refine .inr ⟨_, _, rfl, ⟨?_, ?_⟩, ?_, ?_⟩ <;> omega

theorem read_plain_cons (hc : c ≠ '\\') : read .plain (c :: rest) = c :: read .plain rest := by
  rw [read]
  exact hc

theorem read_simple (hx : c ≠ 'x') (hu : c ≠ 'u') :
    read .plain ('\\' :: c :: rest) = simple c ++ read .plain rest := by
  rw [read, read]
  · exact hx
  · exact hu

theorem read_fixed {left : Nat} (seen : List Char) (hlength : digits.length = left + 1) :
    read (.fixed left seen) (digits ++ rest) =
      resolve (seen.reverse ++ digits) ++ read .plain rest := by
  induction left generalizing digits seen with
  | zero =>
    obtain ⟨c, rfl⟩ := List.length_eq_one_iff.mp hlength
    rw [← List.reverse_cons]
    rfl
  | succ left ih =>
    obtain ⟨c, digits, rfl⟩ := List.exists_cons_of_length_eq_add_one hlength
    have hstep : read (.fixed (left + 1) seen) (c :: digits ++ rest) =
        read (.fixed left (c :: seen)) (digits ++ rest) := rfl
    rw [hstep, ih (c :: seen) (by simpa using hlength)]
    simp

theorem read_braced (seen : List Char) (hbrace : ∀ c ∈ digits, c ≠ '}') :
    read (.braced seen) (digits ++ '}' :: rest) =
      resolve (seen.reverse ++ digits) ++ read .plain rest := by
  induction digits generalizing seen with
  | nil =>
    rw [List.append_nil]
    rfl
  | cons c digits ih =>
    have hstep : read (.braced seen) (c :: (digits ++ '}' :: rest)) =
        read (.braced (c :: seen)) (digits ++ '}' :: rest) := by
      rw [read]
      exact fun h => hbrace c List.mem_cons_self h
    rw [List.cons_append, hstep, ih (c :: seen) fun c hc => hbrace c (List.mem_cons_of_mem _ hc)]
    simp

/-- An escape of two digits. -/
theorem read_byte (hlength : digits.length = 2) :
    read .plain ('\\' :: 'x' :: (digits ++ rest)) = resolve digits ++ read .plain rest :=
  read_fixed [] hlength

/-- An escape of four digits. -/
theorem read_unit (hbrace : ∀ c ∈ digits, c ≠ '{') (hlength : digits.length = 4) :
    read .plain ('\\' :: 'u' :: (digits ++ rest)) = resolve digits ++ read .plain rest := by
  obtain ⟨c, digits, rfl⟩ := List.exists_cons_of_length_eq_add_one hlength
  have hstep : read .unicode (c :: (digits ++ rest)) = read (.fixed 2 [c]) (digits ++ rest) := by
    rw [read]
    exact hbrace c List.mem_cons_self
  calc read .plain ('\\' :: 'u' :: (c :: digits ++ rest))
      = read .unicode (c :: (digits ++ rest)) := rfl
    _ = resolve (c :: digits) ++ read .plain rest := by
      rw [hstep, read_fixed [c] (by simpa using hlength)]
      rfl

theorem read_letter {l : Char} (h : (l, c) ∈ letters) :
    read .plain ('\\' :: l :: rest) = c :: read .plain rest := by
  simp only [letters, List.mem_cons, Prod.mk.injEq, List.not_mem_nil, or_false] at h
  obtain ⟨rfl, rfl⟩ | ⟨rfl, rfl⟩ | ⟨rfl, rfl⟩ | ⟨rfl, rfl⟩ | ⟨rfl, rfl⟩ | ⟨rfl, rfl⟩ := h <;>
    exact read_simple (by decide) (by decide)

/-- What is read of a character: the character, or the eight digits of its two code units. -/
theorem Writes.exists_read {written : List Char} {pair : Nat} (h : Writes c written pair) :
    ∃ v, (∀ rest, read .plain (written ++ rest) = v ++ read .plain rest) ∧
      (pair = 0 → v = [c]) ∧ v.length = 1 + 7 * pair := by
  cases h with
  | itself hslash hline =>
    exact ⟨[c], fun rest => read_plain_cons hslash, fun _ => rfl, rfl⟩
  | @braced _ digits hne h =>
    refine ⟨[c], fun rest => ?_, fun _ => rfl, rfl⟩
    have hread : read .plain ('\\' :: 'u' :: '{' :: (digits ++ '}' :: rest)) =
        resolve digits ++ read .plain rest := read_braced [] (h.ne rfl)
    simpa [resolve_of_numeral h hne] using hread
  | units quads h =>
    obtain hunits | ⟨high, low, hunits, hhigh, hlow⟩ := codeUnits_cases c
    · rw [hunits] at h ⊢
      obtain ⟨digits, _, ⟨hlength, hdigits⟩, hnil, rfl⟩ := List.forall₂_cons_right_iff.mp h
      obtain rfl := List.forall₂_nil_right_iff.mp hnil
      have hne : digits ≠ [] := List.ne_nil_of_length_eq_add_one hlength
      refine ⟨[c], fun rest => ?_, fun _ => rfl, rfl⟩
      rw [← resolve_of_numeral hdigits hne, ← read_unit (hdigits.ne rfl) hlength]
      simp
    · -- The two are not put together again: each is read as its own digits.
      rw [hunits] at h ⊢
      obtain ⟨first, _, ⟨hlength, hfirst⟩, htail, rfl⟩ := List.forall₂_cons_right_iff.mp h
      obtain ⟨second, _, ⟨hlength', hsecond⟩, hnil, rfl⟩ := List.forall₂_cons_right_iff.mp htail
      obtain rfl := List.forall₂_nil_right_iff.mp hnil
      have hne : first ≠ [] := List.ne_nil_of_length_eq_add_one hlength
      have hne' : second ≠ [] := List.ne_nil_of_length_eq_add_one hlength'
      refine ⟨first ++ second, fun rest => ?_, nofun, by simp [hlength, hlength']⟩
      have hread : read .plain ('\\' :: 'u' :: (first ++ '\\' :: 'u' :: (second ++ rest))) =
          first ++ (second ++ read .plain rest) := by
        rw [read_unit (hfirst.ne rfl) hlength, resolve_of_isSurrogate hfirst hne hhigh,
          read_unit (hsecond.ne rfl) hlength', resolve_of_isSurrogate hsecond hne' hlow]
      simpa using hread
  | @byte _ digits hlength h =>
    refine ⟨[c], fun rest => ?_, fun _ => rfl, rfl⟩
    have hne : digits ≠ [] := List.ne_nil_of_length_eq_add_one hlength
    rw [← resolve_of_numeral h hne]
    exact read_byte hlength
  | letter h => exact ⟨[c], fun rest => read_letter h, fun _ => rfl, rfl⟩

/-- Every character that is written as two code units is read as seven characters too many. -/
theorem read_of_spells {text body : List Char} {pairs : Nat} (h : Spells text body pairs) :
    (pairs = 0 → read .plain body = text) ∧
      (read .plain body).length = text.length + 7 * pairs := by
  induction h with
  | nil => exact ⟨fun _ => rfl, rfl⟩
  | continuation _ ih => simpa [read_simple, simple] using ih
  | character hc _ ih =>
    obtain ⟨v, hread, hv, hlength⟩ := hc.exists_read
    refine ⟨fun hpairs => ?_, ?_⟩
    · rw [hread, hv (by omega), ih.1 (by omega), List.singleton_append]
    · rw [hread, List.length_append, hlength, ih.2, List.length_cons]
      omega

end Escape

open Escape (Spells Numeral)

/-- Resolving the escapes of a spelling gives back the text that is spelled, in whichever way each
of its characters is spelled, unless a character of it is written as two code units: then it does
not. -/
theorem unescape_eq_iff_of_spells {text body : String} {pairs : Nat}
    (h : Spells text.toList body.toList pairs) : unescape body = text ↔ pairs = 0 := by
  obtain ⟨hread, hlength⟩ := Escape.read_of_spells h
  constructor
  · rintro rfl
    rw [unescape, String.toList_ofList] at hlength
    omega
  · intro hpairs
    rw [unescape, hread hpairs, String.ofList_toList]

/-- A text of which each character is written in another way. -/
theorem unescape_eq_iff_of_spells_mixed :
    Spells "A😀ñB\n".toList "\\x41\\u\x7b01F600\x7d\\\n\\u00f1B\\n".toList 0 ∧
      unescape "\\x41\\u\x7b01F600\x7d\\\n\\u00f1B\\n" = "A😀ñB\n" := by
  have hbyte : Numeral "41".toList 'A'.toNat := ⟨[4, 1], by decide, by decide⟩
  have hbraced : Numeral "01F600".toList '😀'.toNat := ⟨[0, 1, 15, 6, 0, 0], by decide, by decide⟩
  have hunit : Numeral "00f1".toList 'ñ'.toNat := ⟨[0, 0, 15, 1], by decide, by decide⟩
  have hunits : Escape.Writes 'ñ' "\\u00f1".toList 0 :=
    .units (c := 'ñ') ["00f1".toList] (.cons ⟨rfl, hunit⟩ .nil)
  have hline : ('n', '\n') ∈ Escape.letters := by decide
  have hend : Spells "B\n".toList "B\\n".toList 0 :=
    .character (.itself (by decide) (by decide)) (.character (.letter hline) .nil)
  have htail : Spells "ñB\n".toList "\\\n\\u00f1B\\n".toList 0 :=
    .continuation (.character hunits hend)
  have hspells : Spells "A😀ñB\n".toList "\\x41\\u\x7b01F600\x7d\\\n\\u00f1B\\n".toList 0 :=
    .character (.byte rfl hbyte) (.character (.braced (by simp) hbraced) htail)
  exact ⟨hspells, (unescape_eq_iff_of_spells hspells).mpr rfl⟩

/-- The two code units of a character are not read as the character: their digits come out as they
stand in the spelling. -/
theorem not_unescape_of_spells : ¬ ∀ (text body : String) (pairs : Nat),
    Spells text.toList body.toList pairs → unescape body = text := by
  intro hall
  have hspells : Spells "😀".toList "\\ud83d\\ude00".toList 1 := by
    have hhigh : Numeral "d83d".toList 0xd83d := ⟨[13, 8, 3, 13], by decide, by decide⟩
    have hlow : Numeral "de00".toList 0xde00 := ⟨[13, 14, 0, 0], by decide, by decide⟩
    have hunits : Escape.Writes '😀' "\\ud83d\\ude00".toList 1 :=
      .units (c := '😀') ["d83d".toList, "de00".toList]
        (.cons ⟨rfl, hhigh⟩ (.cons ⟨rfl, hlow⟩ .nil))
    exact .character hunits .nil
  have hread : unescape "\\ud83d\\ude00" = "d83dde00" := by decide
  have hequal := hall _ _ _ hspells
  rw [hread] at hequal
  exact absurd hequal (by decide)

end ScriptLint
