import ScriptLint.Source.Slice
import Mathlib.Data.List.Infix

namespace ScriptLint

@[simp] theorem byteLength_nil : byteLength [] = 0 := rfl

@[simp] theorem byteLength_cons (c : Char) (text : List Char) :
    byteLength (c :: text) = c.utf8Size + byteLength text := rfl

@[simp] theorem byteLength_append (a b : List Char) :
    byteLength (a ++ b) = byteLength a + byteLength b := by
  induction a with
  | nil => simp
  | cons c a ih => rw [List.cons_append, byteLength_cons, byteLength_cons, ih, Nat.add_assoc]

theorem byteLength_pos {text : List Char} (hne : text ≠ []) : 0 < byteLength text := by
  cases text with
  | nil => contradiction
  | cons c text =>
    have hpos := c.utf8Size_pos
    rw [byteLength_cons]
    omega

theorem eq_nil_of_byteLength {text : List Char} (h : byteLength text = 0) : text = [] := by
  by_contra hne
  exact (byteLength_pos hne).ne' h

theorem byteLength_le_of_isPrefix {a b : List Char} (h : a <+: b) :
    byteLength a ≤ byteLength b := by
  obtain ⟨c, rfl⟩ := h
  simp

/-- Of two beginnings of one text the one with fewer bytes begins the other. -/
theorem isPrefix_of_byteLength_le {a b text : List Char} (ha : a <+: text) (hb : b <+: text)
    (hle : byteLength a ≤ byteLength b) : a <+: b := by
  rcases List.prefix_or_prefix_of_prefix ha hb with h | h
  · exact h
  · obtain ⟨c, rfl⟩ := h
    have hc : c = [] := by
      by_contra hne
      have hpos := byteLength_pos hne
      rw [byteLength_append] at hle
      omega
    simp [hc]

/-- Beginnings of a text that are as long are the same. -/
theorem eq_of_isPrefix {a b text : List Char} (ha : a <+: text) (hb : b <+: text)
    (hlength : byteLength a = byteLength b) : a = b := by
  obtain ⟨c, rfl⟩ := isPrefix_of_byteLength_le ha hb hlength.le
  rw [byteLength_append] at hlength
  obtain rfl : c = [] := eq_nil_of_byteLength (by omega)
  exact (List.append_nil a).symm

@[simp] theorem Position.offset_step (p : Position) (c : Char) :
    (p.step c).offset = p.offset + c.utf8Size := by
  unfold Position.step
  split <;> rfl

@[simp] theorem Position.offset_after (p : Position) (text : List Char) :
    (p.after text).offset = p.offset + byteLength text := by
  induction text generalizing p with
  | nil => rfl
  | cons c text ih =>
    rw [Position.after_cons, ih, Position.offset_step, byteLength_cons]
    omega

@[simp] theorem Position.offset_origin : Position.origin.offset = 0 := rfl

/-- Cutting after the bytes of a beginning gives that beginning back. -/
theorem takeBytes_byteLength (a b : List Char) : takeBytes (byteLength a) (a ++ b) = some a := by
  induction a with
  | nil => simp [takeBytes]
  | cons c a ih =>
    obtain ⟨n, hn⟩ : ∃ n, byteLength (c :: a) = n + 1 := ⟨byteLength (c :: a) - 1, by
      have hpos := byteLength_pos (List.cons_ne_nil c a)
      omega⟩
    have hrest : n + 1 - c.utf8Size = byteLength a := by
      rw [byteLength_cons] at hn
      omega
    have hfit : c.utf8Size ≤ n + 1 := by
      rw [byteLength_cons] at hn
      omega
    rw [hn, List.cons_append, takeBytes, if_pos hfit, hrest, ih]
    rfl

theorem dropBytes_byteLength (a b : List Char) : dropBytes (byteLength a) (a ++ b) = some b := by
  induction a with
  | nil => simp [dropBytes]
  | cons c a ih =>
    obtain ⟨n, hn⟩ : ∃ n, byteLength (c :: a) = n + 1 := ⟨byteLength (c :: a) - 1, by
      have hpos := byteLength_pos (List.cons_ne_nil c a)
      omega⟩
    have hrest : n + 1 - c.utf8Size = byteLength a := by
      rw [byteLength_cons] at hn
      omega
    have hfit : c.utf8Size ≤ n + 1 := by
      rw [byteLength_cons] at hn
      omega
    rw [hn, List.cons_append, dropBytes, if_pos hfit, hrest, ih]

namespace Span

/-- The span lies on the text: it reaches from the place after one beginning of the text to the
place after a longer one. -/
def On (span : Span) (text : List Char) : Prop :=
  ∃ a b, a <+: b ∧ b <+: text ∧
    span = .between (Position.origin.after a) (Position.origin.after b)

variable {text : List Char} {r q : Span}

theorem On.start_le_stop (h : r.On text) : r.start ≤ r.stop := by
  obtain ⟨a, b, hab, _, rfl⟩ := h
  simpa [between] using byteLength_le_of_isPrefix hab

theorem On.stop_le (h : r.On text) : r.stop ≤ byteLength text := by
  obtain ⟨a, b, _, hb, rfl⟩ := h
  simpa [between] using byteLength_le_of_isPrefix hb

theorem On.position_start (h : r.On text) :
    position? text r.start = some ⟨r.start, r.line, r.column⟩ := by
  obtain ⟨a, b, hab, hb, rfl⟩ := h
  obtain ⟨c, rfl⟩ := hab.trans hb
  have hstart : (Position.origin.after a).offset = byteLength a := by simp
  simp only [between, position?, hstart, takeBytes_byteLength, Option.map_some]
  rw [← hstart]

theorem On.position_stop_isSome (h : r.On text) : (position? text r.stop).isSome := by
  obtain ⟨a, b, _, ⟨c, rfl⟩, rfl⟩ := h
  simp [between, position?, takeBytes_byteLength]

/-- From the start of one span to the end of another that does not end before it. -/
theorem On.extendTo (hr : r.On text) (hq : q.On text) (hle : r.start ≤ q.stop) :
    (r.extendTo q.stop).On text := by
  obtain ⟨a, b, hab, hb, rfl⟩ := hr
  obtain ⟨c, d, _, hd, rfl⟩ := hq
  simp only [between, Position.offset_after, Position.offset_origin, Nat.zero_add] at hle
  refine ⟨a, d, isPrefix_of_byteLength_le (hab.trans hb) hd hle, hd, ?_⟩
  simp [Span.extendTo, between, max_eq_left hle]

theorem extendTo_of_le (h : r.start ≤ q.stop) : r.extendTo q.stop = { r with stop := q.stop } := by
  simp [Span.extendTo, max_eq_left h]

/-- The span of a stretch in the middle of a text. -/
theorem on_between (a b c : List Char) :
    (between (Position.origin.after a) (Position.origin.after (a ++ b))).On (a ++ b ++ c) :=
  ⟨a, a ++ b, List.prefix_append _ _, List.prefix_append _ _, rfl⟩

end Span
end ScriptLint
