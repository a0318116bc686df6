import ScriptLint.Proofs.Token.Cut

namespace ScriptLint
namespace Template

theorem splitQuasi_exchange {text quasi rest : List Char} {ending : QuasiEnd}
    (h : splitQuasi text = some (quasi, ending, rest)) (rest' : List Char) :
    splitQuasi (quasi ++ ending.written ++ rest') = some (quasi, ending, rest') := by
  fun_induction splitQuasi text generalizing quasi with
  | case1 => cases h
  | case2 c text ih =>
    obtain ⟨⟨q, e, r⟩, hq, heq⟩ := Option.map_eq_some_iff.mp h
    cases heq
    simpa [splitQuasi] using ih hq
  | case3 => cases h; rfl
  | case4 => cases h; rfl
  | case5 => cases h
  | case6 c text hescape hbacktick hopen hslash ih =>
    obtain ⟨⟨q, e, r⟩, hq, heq⟩ := Option.map_eq_some_iff.mp h
    cases heq
    -- A dollar opens a substitution or not by the next character, which is kept.
    have hhead : (q ++ ending.written ++ rest').head? = text.head? := by
      rw [← splitQuasi_append hq]
      cases q with
      | nil => cases ending <;> rfl
      | cons d q => rfl
    rw [List.cons_append, List.cons_append, splitQuasi]
    · rw [if_neg hslash, ih hq]
      rfl
    · rintro d tail rfl -
      simp at hslash
    · rintro rfl
      exact hbacktick rfl
    · rintro tail rfl htail
      rw [htail] at hhead
      cases text with
      | nil => cases hhead
      | cons d text =>
        cases hhead
        exact hopen text rfl rfl

theorem splitQuoted_exchange {quote : Char} (hquote : quote ≠ '\\') {text quoted rest : List Char}
    (h : splitQuoted quote text = some (quoted, rest)) (rest' : List Char) :
    splitQuoted quote (quoted ++ rest') = some (quoted, rest') := by
  fun_induction splitQuoted quote text generalizing quoted with
  | case1 => cases h
  | case2 c text ih =>
    obtain ⟨⟨q, r⟩, hq, heq⟩ := Option.map_eq_some_iff.mp h
    cases heq
    simp [splitQuoted, ih hq]
  | case3 c text _ hc =>
    cases h
    rw [beq_iff_eq] at hc
    subst hc
    rw [List.singleton_append, splitQuoted]
    · simp
    · rintro d tail rfl -
      exact hquote rfl
  | case4 c text hescape hc ih =>
    obtain ⟨⟨q, r⟩, hq, heq⟩ := Option.map_eq_some_iff.mp h
    cases heq
    have hslash : c ≠ '\\' := by
      rintro rfl
      cases text with
      | nil => cases hq
      | cons d text => exact hescape d text rfl rfl
    rw [List.cons_append, splitQuoted]
    · simp [hc, ih hq]
    · rintro d tail rfl -
      exact hslash rfl

/-- The text of a template up to its closing backtick. -/
def writtenAll (pieces : List Piece) : List Char := pieces.flatMap Piece.written

/-- What stands before a rest of the text, up to and with the character before it. -/
theorem take_sub_length (front : List Char) (c : Char) (rest : List Char) :
    (front ++ c :: rest).take ((front ++ c :: rest).length - rest.length) = front ++ [c] := by
  have hlength : (front ++ c :: rest).length - rest.length = (front ++ [c]).length := by
    simp only [List.length_append, List.length_cons, List.length_nil]
    omega
  rw [hlength, List.append_cons front c rest, List.take_left]

/-- The characters of a substitution's text that are not passed over one by one. -/
def isDelimiter (c : Char) : Bool := c == '{' || c == '}' || c == '"' || c == '\'' || c == '`'

/-- What was split off, with a stretch of text before it. -/
def kept (taken : List Char) (found : Option (List Char × List Char)) :
    Option (List Char × List Char) :=
  found.map fun found => (taken ++ found.1, found.2)

theorem kept_eq_some_iff {taken inside rest : List Char} {found : Option (List Char × List Char)} :
    kept taken found = some (inside, rest) ↔
      ∃ tail, found = some (tail, rest) ∧ inside = taken ++ tail := by
  constructor
  · intro h
    obtain ⟨⟨tail, _⟩, hfound, heq⟩ := Option.map_eq_some_iff.mp h
    cases heq
    exact ⟨tail, hfound, rfl⟩
  · rintro ⟨tail, rfl, rfl⟩
    rfl

section
variable (fuel depth : Nat) (text : List Char)

theorem splitSubstitution_open : splitSubstitution (fuel + 1) depth ('{' :: text) =
    kept ['{'] (splitSubstitution fuel (depth + 1) text) := rfl

theorem splitSubstitution_close : splitSubstitution (fuel + 1) 0 ('}' :: text) = some ([], text) := rfl

theorem splitSubstitution_close_succ : splitSubstitution (fuel + 1) (depth + 1) ('}' :: text) =
    kept ['}'] (splitSubstitution fuel depth text) := rfl

theorem splitSubstitution_quote {c : Char} (hc : c = '"' ∨ c = '\'') :
    splitSubstitution (fuel + 1) depth (c :: text) =
      (splitQuoted c text).bind fun found =>
        kept (c :: found.1) (splitSubstitution fuel depth found.2) := by
  rcases hc with rfl | rfl <;> rw [splitSubstitution] <;> cases splitQuoted _ text <;> rfl

theorem splitSubstitution_backtick : splitSubstitution (fuel + 1) depth ('`' :: text) =
    (split fuel text).rest.bind fun rest =>
      kept ('`' :: text.take (text.length - rest.length)) (splitSubstitution fuel depth rest) := by
  rw [splitSubstitution]
  cases (split fuel text).rest <;> rfl

theorem splitSubstitution_plain {c : Char} (hc : isDelimiter c = false) :
    splitSubstitution (fuel + 1) depth (c :: text) =
      kept [c] (splitSubstitution fuel depth text) := by
  simp only [isDelimiter, Bool.or_eq_false_iff, beq_eq_false_iff_ne] at hc
  obtain ⟨⟨⟨⟨hopen, hclose⟩, hdouble⟩, hsingle⟩, hbacktick⟩ := hc
  rw [splitSubstitution]
  · rfl
  all_goals assumption

end

/-- The pieces of a template and the text of a substitution stay the same where the text behind
their end is exchanged. The two are split by each other, so the facts are proved together. -/
theorem split_exchange (fuel : Nat) :
    (∀ text rest, (split fuel text).rest = some rest →
      ∀ fuel' rest', (writtenAll (split fuel text).pieces).length < fuel' →
        split fuel' (writtenAll (split fuel text).pieces ++ '`' :: rest') =
          ⟨(split fuel text).pieces, some rest'⟩) ∧
    (∀ depth text inside rest, splitSubstitution fuel depth text = some (inside, rest) →
      ∀ fuel' rest', inside.length < fuel' →
        splitSubstitution fuel' depth (inside ++ '}' :: rest') = some (inside, rest')) := by
  induction fuel with
  | zero =>
    refine ⟨fun text rest h => ?_, fun depth text inside rest h => ?_⟩
    · simp [split] at h
    · simp [splitSubstitution] at h
  | succ fuel ih =>
    obtain ⟨ihTemplate, ihSubstitution⟩ := ih
    refine ⟨fun text rest h fuel' rest' hfuel => ?_,
      fun depth text inside rest h fuel' rest' hfuel => ?_⟩
    · obtain ⟨fuel', rfl⟩ : ∃ n, fuel' = n + 1 := ⟨fuel' - 1, by omega⟩
      cases hquasi : splitQuasi text with
      | none => simp [split, hquasi] at h
      | some found =>
        obtain ⟨quasi, ending, after⟩ := found
        cases ending with
        | backtick =>
          have hsame := splitQuasi_exchange hquasi rest'
          simp only [split, hquasi, writtenAll, List.flatMap_cons, List.flatMap_nil,
            List.append_nil, Piece.written]
          simp only [QuasiEnd.written, List.append_assoc, List.singleton_append] at hsame
          rw [hsame]
        | substitution =>
          cases hinside : splitSubstitution fuel 0 after with
          | none => simp [split, hquasi, hinside] at h
          | some found =>
            obtain ⟨inside, tail⟩ := found
            simp only [split, hquasi, hinside] at h hfuel ⊢
            have hwritten : writtenAll (.quasi quasi :: .substitution inside ::
                (split fuel tail).pieces) =
                  quasi ++ ['$', '{'] ++ (inside ++ '}' :: writtenAll (split fuel tail).pieces) := by
              simp [writtenAll, Piece.written]
            rw [hwritten] at hfuel ⊢
            simp only [List.length_append, List.length_cons, List.length_nil] at hfuel
            have hrest := ihTemplate tail rest h fuel' rest' (by omega)
            have hsub := ihSubstitution 0 after inside tail hinside fuel'
              (writtenAll (split fuel tail).pieces ++ '`' :: rest') (by omega)
            have hsame := splitQuasi_exchange hquasi
              (inside ++ '}' :: (writtenAll (split fuel tail).pieces ++ '`' :: rest'))
            rw [List.append_assoc _ (inside ++ _), List.append_assoc inside, List.cons_append]
            simp only [QuasiEnd.written] at hsame
            rw [hsame]
            simp only [hsub, hrest]
    · obtain ⟨fuel', rfl⟩ : ∃ n, fuel' = n + 1 := ⟨fuel' - 1, by omega⟩
      cases text with
      | nil => simp [splitSubstitution] at h
      | cons c text =>
        -- Whatever is passed over first, the rest is split as before.
        have keep {taken tail : List Char} {depth : Nat} (hne : taken ≠ [])
            (hkeep : kept taken (splitSubstitution fuel depth tail) = some (inside, rest)) :
            ∃ i, inside = taken ++ i ∧ kept taken (splitSubstitution fuel' depth (i ++ '}' :: rest')) =
              some (inside, rest') := by
          obtain ⟨i, hi, rfl⟩ := kept_eq_some_iff.mp hkeep
          have hlength := List.length_pos_of_ne_nil hne
          rw [List.length_append] at hfuel
          refine ⟨i, rfl, kept_eq_some_iff.mpr ⟨i, ?_, rfl⟩⟩
          exact ihSubstitution depth tail i rest hi fuel' rest' (by omega)
        by_cases hopen : c = '{'
        · subst hopen
          rw [splitSubstitution_open] at h
          obtain ⟨i, rfl, hi⟩ := keep (by simp) h
          rw [← hi]
          exact splitSubstitution_open fuel' depth _
        by_cases hclose : c = '}'
        · subst hclose
          cases depth with
          | zero =>
            rw [splitSubstitution_close] at h
            cases h
            exact splitSubstitution_close fuel' rest'
          | succ depth =>
            rw [splitSubstitution_close_succ] at h
            obtain ⟨i, rfl, hi⟩ := keep (by simp) h
            rw [← hi]
            exact splitSubstitution_close_succ fuel' depth _
        by_cases hquote : c = '"' ∨ c = '\''
        · rw [splitSubstitution_quote _ _ _ hquote] at h
          obtain ⟨⟨quoted, tail⟩, hquoted, h⟩ := Option.bind_eq_some_iff.mp h
          obtain ⟨i, rfl, hi⟩ := keep (by simp) h
          have hslash : c ≠ '\\' := by rcases hquote with rfl | rfl <;> decide
          have hsame := splitQuoted_exchange hslash hquoted (i ++ '}' :: rest')
          rw [List.cons_append, List.cons_append, List.append_assoc,
            splitSubstitution_quote _ _ _ hquote, hsame]
          exact hi
        by_cases hbacktick : c = '`'
        · subst hbacktick
          rw [splitSubstitution_backtick] at h
          obtain ⟨tail, htail, h⟩ := Option.bind_eq_some_iff.mp h
          have hjoin := ((split_append fuel).1 text tail htail).2
          have hsame := ihTemplate text tail htail fuel'
          change writtenAll _ ++ _ = _ at hjoin
          generalize (split fuel text).pieces = pieces at hjoin hsame
          subst hjoin
          rw [take_sub_length] at h
          obtain ⟨i, rfl, hi⟩ := keep (by simp) h
          simp only [List.length_append, List.length_cons, List.length_nil] at hfuel
          have hsplit := hsame (i ++ '}' :: rest') (by omega)
          have htext : '`' :: (writtenAll pieces ++ ['`']) ++ i ++ '}' :: rest' =
              '`' :: (writtenAll pieces ++ '`' :: (i ++ '}' :: rest')) := by
            simp
          rw [htext, splitSubstitution_backtick, hsplit, Option.bind_some, take_sub_length, hi]
        · rw [splitSubstitution_plain] at h
          · obtain ⟨i, rfl, hi⟩ := keep (by simp) h
            rw [← hi]
            refine splitSubstitution_plain fuel' depth _ ?_
            simp_all [isDelimiter]
          · simp_all [isDelimiter]

/-- The pieces of a closed template do not depend on what stands after it. -/
theorem raw_exchange {text rest : List Char} (h : (raw text).rest = some rest) (rest' : List Char) :
    raw (writtenAll (raw text).pieces ++ '`' :: rest') = ⟨(raw text).pieces, some rest'⟩ := by
  refine (split_exchange _).1 text rest h _ rest' ?_
  change (writtenAll (raw text).pieces).length < _
  simp only [List.length_append, List.length_cons]
  omega

end Template
end ScriptLint
