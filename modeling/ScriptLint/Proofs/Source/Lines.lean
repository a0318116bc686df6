import ScriptLint.Source.Lines
import ScriptLint.Proofs.Source.Slice
import Mathlib.Data.List.DropRight

namespace ScriptLint

/-- What stands after the last line feed of a text. -/
def lastLine (text : List Char) : List Char := text.rtakeWhile (· ≠ '\n')

/-- A text up to its last line feed. -/
def linesBefore (text : List Char) : List Char := text.rdropWhile (· ≠ '\n')

variable {before after text : List Char} {c : Char}

theorem linesBefore_append_lastLine (text : List Char) :
    linesBefore text ++ lastLine text = text :=
  List.rdropWhile_append_rtakeWhile

/-- A place is known by its offset, the line feeds before it and the characters since the last of
them. -/
theorem after_origin (text : List Char) : Position.origin.after text =
    ⟨byteLength text, 1 + text.count '\n', 1 + (lastLine text).length⟩ := by
  induction text using List.reverseRecOn with
  | nil => rfl
  | append_singleton text c ih =>
    have hstep : Position.origin.after (text ++ [c]) = (Position.origin.after text).step c := by
      simp
    rw [hstep, ih]
    by_cases hc : c = '\n'
    · subst hc
      have hlast : lastLine (text ++ ['\n']) = [] := List.rtakeWhile_concat_neg _ _ _ (by simp)
      simp [Position.step, hlast, Nat.add_assoc]
    · have hlast : lastLine (text ++ [c]) = lastLine text ++ [c] :=
        List.rtakeWhile_concat_pos _ _ _ (by simpa using hc)
      simp [Position.step, hlast, hc, Nat.add_assoc]

theorem lineStartsFrom_append (offset : Nat) (before after : List Char) :
    lineStartsFrom offset (before ++ after) =
      lineStartsFrom offset before ++ lineStartsFrom (offset + byteLength before) after := by
  induction before generalizing offset with
  | nil => simp [lineStartsFrom]
  | cons c before ih =>
    simp only [List.cons_append, lineStartsFrom, byteLength_cons, ih, Nat.add_assoc]
    split <;> simp

/-- Lines begin after characters of the text. -/
theorem lt_and_le_of_mem_lineStartsFrom {offset n : Nat} (h : n ∈ lineStartsFrom offset text) :
    offset < n ∧ n ≤ offset + byteLength text := by
  induction text generalizing offset with
  | nil => simp [lineStartsFrom] at h
  | cons c text ih =>
    have hpos := c.utf8Size_pos
    rw [byteLength_cons]
    have hrest : n ∈ lineStartsFrom (offset + c.utf8Size) text →
        offset < n ∧ n ≤ offset + (c.utf8Size + byteLength text) := by
      intro hn
      obtain ⟨hlt, hle⟩ := ih hn
      omega
    rw [lineStartsFrom] at h
    split at h
    · rcases List.mem_cons.mp h with rfl | h
      · omega
      · exact hrest h
    · exact hrest h

/-- Up to the end of a beginning of a text the lines of that beginning begin. -/
theorem filter_lineStarts (before after : List Char) :
    (lineStarts (before ++ after)).filter (· ≤ byteLength before) = lineStarts before := by
  rw [lineStarts, lineStartsFrom_append, Nat.zero_add, ← List.cons_append, List.filter_append,
    ← lineStarts]
  have hbefore : (lineStarts before).filter (· ≤ byteLength before) = lineStarts before := by
    refine List.filter_eq_self.mpr fun n hn => ?_
    rcases List.mem_cons.mp hn with rfl | hn
    · simp
    · have hle := (lt_and_le_of_mem_lineStartsFrom hn).2
      simpa using hle
  have hafter : (lineStartsFrom (byteLength before) after).filter (· ≤ byteLength before) = [] := by
    refine List.filter_eq_nil_iff.mpr fun n hn => ?_
    have hlt := (lt_and_le_of_mem_lineStartsFrom hn).1
    simpa using hlt
  rw [hbefore, hafter, List.append_nil]

theorem lineStarts_concat (text : List Char) (c : Char) : lineStarts (text ++ [c]) =
    if c = '\n' then lineStarts text ++ [byteLength (text ++ [c])] else lineStarts text := by
  rw [lineStarts, lineStartsFrom_append, lineStartsFrom]
  split <;> simp [lineStarts, lineStartsFrom]

theorem length_lineStarts (text : List Char) : (lineStarts text).length = 1 + text.count '\n' := by
  induction text using List.reverseRecOn with
  | nil => rfl
  | append_singleton text c ih =>
    rw [lineStarts_concat]
    split <;> simp_all [Nat.add_assoc]

/-- The last line begins after the last line feed. -/
theorem getLast?_lineStarts (text : List Char) :
    (lineStarts text).getLast? = some (byteLength (linesBefore text)) := by
  induction text using List.reverseRecOn with
  | nil => rfl
  | append_singleton text c ih =>
    rw [lineStarts_concat]
    split
    · next hc =>
      subst hc
      have hlines : linesBefore (text ++ ['\n']) = text ++ ['\n'] :=
        List.rdropWhile_concat_neg _ _ _ (by simp)
      simp [hlines]
    · next hc =>
      have hlines : linesBefore (text ++ [c]) = linesBefore text :=
        List.rdropWhile_concat_pos _ _ _ (by simpa using hc)
      rw [hlines, ih]

/-- Each line begins after the one before it. -/
theorem pairwise_lineStartsFrom (offset : Nat) (text : List Char) :
    (lineStartsFrom offset text).Pairwise (· < ·) := by
  induction text generalizing offset with
  | nil => exact .nil
  | cons c text ih =>
    rw [lineStartsFrom]
    split
    · exact .cons (fun n hn => (lt_and_le_of_mem_lineStartsFrom hn).1) (ih _)
    · exact ih _

theorem pairwise_lineStarts (text : List Char) : (lineStarts text).Pairwise (· < ·) :=
  .cons (fun _ hn => (lt_and_le_of_mem_lineStartsFrom hn).1) (pairwise_lineStartsFrom 0 text)

/-- Of growing numbers those up to the one at an index are that one and the ones before it. -/
theorem countP_le_of_getElem? {l : List Nat} (h : l.Pairwise (· < ·)) {i x : Nat}
    (hi : l[i]? = some x) : l.countP (· ≤ x) = i + 1 := by
  induction l generalizing i with
  | nil => cases hi
  | cons a l ih =>
    obtain ⟨ha, h⟩ := List.pairwise_cons.mp h
    cases i with
    | zero =>
      obtain rfl : a = x := by simpa using hi
      have hrest : l.countP (· ≤ a) = 0 := List.countP_eq_zero.mpr fun b hb => by
        simpa using ha b hb
      simp [hrest]
    | succ i =>
      rw [List.getElem?_cons_succ] at hi
      have hax := (ha x (List.mem_of_getElem? hi)).le
      rw [List.countP_cons_of_pos (by simpa using hax), ih h hi]

/-- The search tells how many lines begin up to an offset, whether or not one begins there. -/
theorem lineOf_eq_countP (text : List Char) (offset : Nat) :
    lineOf text offset = (lineStarts text).countP (· ≤ offset) := by
  unfold lineOf searchLine
  cases hfound : (lineStarts text).idxOf? offset with
  | some line =>
    have hline : (lineStarts text)[line]? = some offset := by
      obtain ⟨hlt, hget, -⟩ := List.idxOf?_eq_some_iff.mp hfound
      rw [List.getElem?_eq_getElem hlt, hget]
    exact (countP_le_of_getElem? (pairwise_lineStarts text) hline).symm
  | none =>
    have hnone := List.idxOf?_eq_none_iff.mp hfound
    refine List.countP_congr fun n hn => ?_
    have hne : n ≠ offset := fun h => hnone (h ▸ hn)
    simp only [decide_eq_true_eq]
    omega

/-- Both searches find the same line. -/
theorem lineIndex_eq (text : List Char) (offset : Nat) :
    lineIndex text offset = lineOf text offset - 1 := by
  unfold lineIndex lineOf
  split <;> rfl

theorem lineOf_byteLength (before after : List Char) :
    lineOf (before ++ after) (byteLength before) = 1 + before.count '\n' := by
  rw [lineOf_eq_countP, List.countP_eq_length_filter, filter_lineStarts, length_lineStarts]

/-- The line of a place is the last one that begins before it. -/
theorem lineStarts_getElem?_lineOf (before after : List Char) :
    (lineStarts (before ++ after))[lineOf (before ++ after) (byteLength before) - 1]? =
      some (byteLength (linesBefore before)) := by
  have hlines : lineStarts (before ++ after) =
      lineStarts before ++ lineStartsFrom (byteLength before) after := by
    rw [lineStarts, lineStartsFrom_append, Nat.zero_add, ← List.cons_append, ← lineStarts]
  have hlength := length_lineStarts before
  rw [lineOf_byteLength, ← hlength, hlines, List.getElem?_append_left (by omega),
    ← List.getLast?_eq_getElem?, getLast?_lineStarts]

theorem lineStart_byteLength (before after : List Char) :
    lineStart (before ++ after) (byteLength before) = byteLength (linesBefore before) := by
  rw [lineStart, lineStarts_getElem?_lineOf, Option.getD_some]

theorem slice?_linesBefore (before after : List Char) :
    slice? (before ++ after) (byteLength (linesBefore before)) (byteLength before) =
      some (lastLine before) := by
  refine slice?_eq_some_iff.mpr ⟨linesBefore before, after, ?_, rfl, ?_⟩
  · rw [linesBefore_append_lastLine]
  · rw [linesBefore_append_lastLine]

/-- The span from the end of a beginning of a text has the line and column of that place. -/
theorem spanAt_byteLength (before after : List Char) (stop : Nat) :
    spanAt (before ++ after) (byteLength before) stop =
      ⟨byteLength before, stop, 1 + before.count '\n', 1 + (lastLine before).length⟩ := by
  rw [spanAt, lineOf_byteLength, lineStart_byteLength, slice?_linesBefore, Option.getD_some,
    Nat.add_comm 1, Nat.add_comm 1]

/-- A token that begins at a place of the text has the span between its offsets. -/
theorem tokenSpan?_byteLength (before after : List Char) (stop : Nat) :
    tokenSpan? (before ++ after) (byteLength before) stop =
      some (spanAt (before ++ after) (byteLength before) stop) := by
  have hline : 1 + before.count '\n' - 1 + 1 = 1 + before.count '\n' := by omega
  simp only [tokenSpan?, lineIndex_eq, Option.bind_eq_bind]
  rw [lineStarts_getElem?_lineOf, Option.bind_some, slice?_linesBefore, spanAt_byteLength,
    lineOf_byteLength, hline, Nat.add_comm 1 (lastLine before).length]
  rfl

/-- A span that lies on a text is the one between its offsets. -/
theorem Span.On.spanAt_eq {span : Span} (h : span.On text) :
    spanAt text span.start span.stop = span := by
  obtain ⟨a, b, hab, hb, rfl⟩ := h
  obtain ⟨rest, rfl⟩ := hab.trans hb
  rw [Span.between, after_origin, after_origin]
  exact spanAt_byteLength a rest _

/-- So is the one that a token between these offsets is given. -/
theorem Span.On.tokenSpan?_eq {span : Span} (h : span.On text) :
    tokenSpan? text span.start span.stop = some span := by
  have hspan := h.spanAt_eq
  obtain ⟨a, b, hab, hb, rfl⟩ := h
  obtain ⟨rest, rfl⟩ := hab.trans hb
  rw [Span.between, after_origin, after_origin] at hspan ⊢
  rw [tokenSpan?_byteLength, hspan]

end ScriptLint
