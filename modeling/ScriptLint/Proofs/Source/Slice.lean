import ScriptLint.Proofs.Source.Place

namespace ScriptLint

theorem exists_of_dropBytes {n : Nat} {text rest : List Char} (h : dropBytes n text = some rest) :
    ∃ a, text = a ++ rest ∧ byteLength a = n := by
  fun_induction dropBytes n text with
  | case1 text =>
    cases h
    exact ⟨[], rfl, rfl⟩
  | case2 => cases h
  | case3 n c text hfit ih =>
    obtain ⟨a, rfl, hlength⟩ := ih h
    refine ⟨c :: a, rfl, ?_⟩
    rw [byteLength_cons]
    omega
  | case4 => cases h

theorem exists_of_takeBytes {n : Nat} {text a : List Char} (h : takeBytes n text = some a) :
    ∃ rest, text = a ++ rest ∧ byteLength a = n := by
  fun_induction takeBytes n text generalizing a with
  | case1 text =>
    cases h
    exact ⟨text, rfl, rfl⟩
  | case2 => cases h
  | case3 n c text hfit ih =>
    obtain ⟨a', ha', rfl⟩ := Option.map_eq_some_iff.mp h
    obtain ⟨rest, rfl, hlength⟩ := ih ha'
    refine ⟨rest, rfl, ?_⟩
    rw [byteLength_cons]
    omega
  | case4 => cases h

/-- The text between two offsets is what stands after a beginning of the text. -/
theorem slice?_eq_some_iff {text mid : List Char} {start stop : Nat} :
    slice? text start stop = some mid ↔
      ∃ a b, text = a ++ mid ++ b ∧ byteLength a = start ∧ byteLength (a ++ mid) = stop := by
  constructor
  · intro h
    unfold slice? at h
    split_ifs at h with hle
    obtain ⟨rest, hrest, hmid⟩ := Option.bind_eq_some_iff.mp h
    obtain ⟨a, rfl, ha⟩ := exists_of_dropBytes hrest
    obtain ⟨b, rfl, hlength⟩ := exists_of_takeBytes hmid
    refine ⟨a, b, (List.append_assoc _ _ _).symm, ha, ?_⟩
    rw [byteLength_append]
    omega
  · rintro ⟨a, b, rfl, rfl, rfl⟩
    have hsize : byteLength (a ++ mid) - byteLength a = byteLength mid := by simp
    rw [slice?, if_pos (by simp), List.append_assoc, dropBytes_byteLength, Option.bind_some, hsize,
      takeBytes_byteLength]

/-- Slices that follow each other make up one slice. -/
theorem slice?_append {text x y : List Char} {start middle stop : Nat}
    (hx : slice? text start middle = some x) (hy : slice? text middle stop = some y) :
    slice? text start stop = some (x ++ y) := by
  rw [slice?_eq_some_iff] at hx hy ⊢
  obtain ⟨a, b, htext, rfl, rfl⟩ := hx
  obtain ⟨a', b', htext', hmiddle, rfl⟩ := hy
  obtain rfl : a' = a ++ x := eq_of_isPrefix ⟨y ++ b', by simp [htext']⟩ ⟨b, htext.symm⟩ hmiddle
  exact ⟨a, b', by simpa using htext', rfl, by simp⟩

theorem slice?_isSome_of_position? {text : List Char} {start stop : Nat} (hle : start ≤ stop)
    (hstart : (position? text start).isSome) (hstop : (position? text stop).isSome) :
    (slice? text start stop).isSome := by
  obtain ⟨a, ha⟩ := Option.isSome_iff_exists.mp (Option.isSome_map ▸ hstart)
  obtain ⟨b, hb⟩ := Option.isSome_iff_exists.mp (Option.isSome_map ▸ hstop)
  obtain ⟨rest, htext, rfl⟩ := exists_of_takeBytes ha
  obtain ⟨rest', htext', rfl⟩ := exists_of_takeBytes hb
  obtain ⟨mid, rfl⟩ := isPrefix_of_byteLength_le ⟨rest, htext.symm⟩ ⟨rest', htext'.symm⟩ hle
  exact Option.isSome_iff_exists.mpr ⟨mid, slice?_eq_some_iff.mpr ⟨a, rest', htext', rfl, rfl⟩⟩

variable {a old b w : List Char} {start stop : Nat}

end ScriptLint
