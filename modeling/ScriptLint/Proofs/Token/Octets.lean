import ScriptLint.Proofs.Token.Cut
import ScriptLint.Proofs.Source.Place

namespace ScriptLint

/-- The bytes of a text in UTF-8. -/
def octets (text : List Char) : List UInt8 := text.flatMap String.utf8EncodeChar

theorem octets_cons (c : Char) (text : List Char) :
    octets (c :: text) = String.utf8EncodeChar c ++ octets text := List.flatMap_cons

/-- A character is one byte, or all its bytes lie beyond ASCII. -/
theorem utf8EncodeChar_cases (c : Char) :
    c.toNat < 128 ∧ String.utf8EncodeChar c = [c.toUInt8] ∨
      ∀ b ∈ String.utf8EncodeChar c, 128 ≤ b.toNat := by
  rcases Nat.lt_or_ge c.toNat 128 with hc | hc
  · have hsize : c.utf8Size = 1 := by
      rw [Char.utf8Size_eq_one_iff, UInt32.le_iff_toNat_le]
      exact Nat.le_of_lt_succ hc
    exact .inl ⟨hc, String.utf8EncodeChar_eq_singleton hsize⟩
  · right
    change 128 ≤ c.val.toNat at hc
    unfold String.utf8EncodeChar
    simp only
    split_ifs <;>
      simp only [List.mem_cons, List.not_mem_nil, or_false, forall_eq_or_imp, forall_eq,
        UInt8.toNat_ofNat', Nat.reducePow] <;>
      omega

/-- What is left of a character after its first byte lies beyond ASCII. -/
theorem exists_utf8EncodeChar_eq_cons (c : Char) : ∃ b tail,
    String.utf8EncodeChar c = b :: tail ∧ c.utf8Size = tail.length + 1 ∧
      ∀ d ∈ tail, 128 ≤ d.toNat := by
  have hlength := String.length_utf8EncodeChar c
  obtain ⟨b, tail, htail⟩ := List.exists_cons_of_ne_nil (String.utf8EncodeChar_ne_nil (c := c))
  rw [htail, List.length_cons] at hlength
  refine ⟨b, tail, htail, hlength.symm, ?_⟩
  rcases utf8EncodeChar_cases c with ⟨-, hone⟩ | hall
  · rw [htail, List.cons.injEq] at hone
    rw [hone.2]
    exact List.forall_mem_nil _
  · rw [htail] at hall
    exact fun d hd => hall d (List.mem_cons_of_mem b hd)

theorem toNat_toUInt8 {c : Char} (hc : c.toNat < 128) : c.toUInt8.toNat = c.toNat :=
  Nat.mod_eq_of_lt (show c.toNat < 256 by omega)

theorem toUInt8_inj {c d : Char} (hc : c.toNat < 128) (hd : d.toNat < 128) :
    c.toUInt8 = d.toUInt8 ↔ c = d := by
  refine ⟨fun h => Char.toNat_inj.mp ?_, congrArg Char.toUInt8⟩
  rw [← toNat_toUInt8 hc, ← toNat_toUInt8 hd, h]

/-- The first byte of a text is an ASCII character only if it is the first character. -/
theorem head?_eq_of_octets {c : Char} (hc : c.toNat < 128) {text : List Char}
    (h : (octets text).head? = some c.toUInt8) : text.head? = some c := by
  cases text with
  | nil => cases h
  | cons d text =>
    rw [octets_cons] at h
    rcases utf8EncodeChar_cases d with ⟨hd, hone⟩ | hbeyond
    · rw [hone, List.singleton_append, List.head?_cons, Option.some.injEq, toUInt8_inj hd hc] at h
      rw [List.head?_cons, h]
    · obtain ⟨b, tail, htail⟩ := List.exists_cons_of_ne_nil (String.utf8EncodeChar_ne_nil (c := d))
      rw [htail, List.cons_append, List.head?_cons, Option.some.injEq] at h
      have hb := hbeyond b (htail ▸ List.mem_cons_self)
      rw [h, toNat_toUInt8 hc] at hb
      omega

namespace Template

/-- An end that was found behind `n` bytes. -/
def furtherBy (n : Nat) (found : Option (Nat × QuasiEnd)) : Option (Nat × QuasiEnd) :=
  found.map fun e => (n + e.1, e.2)

theorem furtherBy_zero (found : Option (Nat × QuasiEnd)) : furtherBy 0 found = found := by
  simp [furtherBy]

theorem furtherBy_furtherBy (m n : Nat) (found : Option (Nat × QuasiEnd)) :
    furtherBy m (furtherBy n found) = furtherBy (m + n) found := by
  simp only [furtherBy, Option.map_map, Function.comp_def, Nat.add_assoc]

/-- Looks for the end of a quasi: how many bytes stand before it, and which end it is. -/
def quasiEnd? : List UInt8 → Option (Nat × QuasiEnd)
  | [] => none
  | b :: bytes =>
    if b = '\\'.toUInt8 then
      match bytes with
      | [] => none
      | _ :: bytes => furtherBy 2 (quasiEnd? bytes)
    else if b = '`'.toUInt8 then some (0, .backtick)
    else if b = '$'.toUInt8 ∧ bytes.head? = some '{'.toUInt8 then some (0, .substitution)
    else furtherBy 1 (quasiEnd? bytes)

theorem quasiEnd?_cons {b : UInt8} {bytes : List UInt8} (hslash : b ≠ '\\'.toUInt8)
    (hbacktick : b ≠ '`'.toUInt8)
    (hdollar : b = '$'.toUInt8 → bytes.head? ≠ some '{'.toUInt8) :
    quasiEnd? (b :: bytes) = furtherBy 1 (quasiEnd? bytes) := by
  rw [quasiEnd?.eq_def]
  simp only
  rw [if_neg hslash, if_neg hbacktick, if_neg (not_and.mpr hdollar)]

theorem quasiEnd?_backtick (bytes : List UInt8) :
    quasiEnd? ('`'.toUInt8 :: bytes) = some (0, .backtick) := by
  rw [quasiEnd?.eq_def]
  rfl

/-- Bytes beyond ASCII are passed over. -/
theorem quasiEnd?_append {front : List UInt8} (h : ∀ b ∈ front, 128 ≤ b.toNat)
    (bytes : List UInt8) :
    quasiEnd? (front ++ bytes) = furtherBy front.length (quasiEnd? bytes) := by
  induction front with
  | nil => exact (furtherBy_zero _).symm
  | cons b front ih =>
    obtain ⟨hb, hfront⟩ := List.forall_mem_cons.mp h
    have hne : ∀ m : UInt8, m.toNat < 128 → b ≠ m := by
      rintro m hm rfl
      omega
    rw [List.cons_append, quasiEnd?_cons (hne _ (by decide)) (hne _ (by decide))
      fun hdollar => absurd hdollar (hne _ (by decide)), ih hfront, furtherBy_furtherBy,
      List.length_cons, Nat.add_comm]

theorem quasiEnd?_escaped (c : Char) (text : List Char) :
    quasiEnd? (octets ('\\' :: c :: text)) =
      furtherBy (byteLength ['\\', c]) (quasiEnd? (octets text)) := by
  obtain ⟨b, tail, htail, hsize, hbeyond⟩ := exists_utf8EncodeChar_eq_cons c
  have hbytes : octets ('\\' :: c :: text) = '\\'.toUInt8 :: b :: (tail ++ octets text) := by
    rw [octets_cons, octets_cons, htail]
    rfl
  -- The search goes on after the first byte of the character.
  have hstep : quasiEnd? ('\\'.toUInt8 :: b :: (tail ++ octets text)) =
      furtherBy 2 (quasiEnd? (tail ++ octets text)) := rfl
  have hlength : byteLength ['\\', c] = 2 + tail.length := by
    have hslash : '\\'.utf8Size = 1 := rfl
    simp only [byteLength_cons, byteLength_nil]
    omega
  rw [hbytes, hstep, quasiEnd?_append hbeyond, furtherBy_furtherBy, hlength]

theorem quasiEnd?_character {c : Char} {text : List Char} (hslash : c ≠ '\\')
    (hbacktick : c ≠ '`') (hdollar : c = '$' → text.head? ≠ some '{') :
    quasiEnd? (octets (c :: text)) = furtherBy (byteLength [c]) (quasiEnd? (octets text)) := by
  rw [octets_cons, byteLength_cons, byteLength_nil, Nat.add_zero, ← String.length_utf8EncodeChar]
  rcases utf8EncodeChar_cases c with ⟨hc, hone⟩ | hbeyond
  · rw [hone, List.singleton_append, quasiEnd?_cons]
    · rfl
    · exact fun h => hslash ((toUInt8_inj hc (by decide)).mp h)
    · exact fun h => hbacktick ((toUInt8_inj hc (by decide)).mp h)
    · intro h hbrace
      exact hdollar ((toUInt8_inj hc (by decide)).mp h) (head?_eq_of_octets (by decide) hbrace)
  · exact quasiEnd?_append hbeyond (octets text)

/-- Whether the end is looked for in the bytes or in the characters, it is the same. -/
theorem quasiEnd?_octets (text : List Char) : quasiEnd? (octets text) =
    (splitQuasi text).map fun found => (byteLength found.1, found.2.1) := by
  fun_induction splitQuasi text with
  | case1 => rfl
  | case2 c text ih =>
    rw [quasiEnd?_escaped, ih, furtherBy, Option.map_map, Option.map_map]
    refine Option.map_congr ?_
    rintro ⟨quasi, e, rest⟩ -
    simp only [Function.comp_apply, byteLength_cons, byteLength_nil, Nat.add_zero, Nat.add_assoc]
  | case3 text => exact quasiEnd?_backtick (octets text)
  | case4 text => rfl
  | case5 c text hescape hbacktick hopen hslash =>
    obtain rfl := beq_iff_eq.mp hslash
    cases text with
    | nil => rfl
    | cons d text => exact absurd rfl (hescape d text rfl)
  | case6 c text hescape hbacktick hopen hslash ih =>
    rw [beq_iff_eq] at hslash
    have hdollar : c = '$' → text.head? ≠ some '{' := by
      intro hdollar hbrace
      obtain ⟨tail, htail⟩ := List.head?_eq_some_iff.mp hbrace
      exact hopen tail hdollar htail
    rw [quasiEnd?_character hslash hbacktick hdollar, ih, furtherBy, Option.map_map, Option.map_map]
    refine Option.map_congr ?_
    rintro ⟨quasi, e, rest⟩ -
    simp only [Function.comp_apply, byteLength_cons, byteLength_nil, Nat.add_zero]

end Template
end ScriptLint
