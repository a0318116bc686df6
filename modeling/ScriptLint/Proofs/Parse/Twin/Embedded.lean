import Mathlib.Algebra.Ring.Int.Defs
import ScriptLint.Proofs.Parse.Twin.Grammar
import ScriptLint.Proofs.Token.Embedded

namespace ScriptLint

open Position (origin)

/-- A text and what stands around it. -/
structure Around where
  before : List Char
  text : List Char
  after : List Char

namespace Around

variable (a : Around)

def whole : List Char := a.before ++ a.text ++ a.after

/-- The place where the text begins. -/
def place : Position := origin.after a.before

/-- The text alone, and the whole. -/
def source : Parse.Side → List Char
  | .left => a.text
  | .right => a.whole

end Around

namespace Parse

section
variable (a : Around) {t : Token} {span next : Span} {tokens : List SpannedToken}

theorem slice?_whole {start stop : Nat} {mid : List Char} (h : slice? a.text start stop = some mid) :
    slice? a.whole (a.place.offset + start) (a.place.offset + stop) = slice? a.text start stop := by
  have hoffset : a.place.offset = byteLength a.before := by simp [Around.place]
  rw [h, hoffset]
  exact slice?_embedded h a.before a.after

theorem slice_movedTo (hspan : span.On a.text) :
    (span.movedTo a.place).slice a.whole = span.slice a.text := by
  obtain ⟨mid, hmid⟩ := hspan.exists_slice_extendTo hspan hspan.start_le_stop
  exact congrArg (fun found => String.ofList (found.getD [])) (slice?_whole a hmid)

theorem slice_extendTo_movedTo (hspan : span.On a.text) (hnext : next.On a.text)
    (hle : span.start ≤ next.stop) :
    ((span.movedTo a.place).extendTo (next.movedTo a.place).stop).slice a.whole =
      (span.extendTo next.stop).slice a.text := by
  obtain ⟨mid, hmid⟩ := hspan.exists_slice_extendTo hnext hle
  have hle' : (span.movedTo a.place).start ≤ (next.movedTo a.place).stop :=
    Nat.add_le_add_left hle _
  rw [Span.extendTo_of_le hle, Span.extendTo_of_le hle']
  exact congrArg (fun found => String.ofList (found.getD [])) (slice?_whole a hmid)

/-- There is a line break after a token where there is one in the text alone. -/
theorem newline_movedTo (hspan : span.On a.text) (hnext : next.On a.text)
    (hle : span.stop ≤ next.start) :
    ((slice? a.whole (span.movedTo a.place).stop (a.place.offset + next.start)).getD []).contains
        '\n' =
      ((slice? a.text span.stop next.start).getD []).contains '\n' := by
  obtain ⟨mid, hmid⟩ := hspan.exists_slice hnext hle
  exact congrArg (fun found => (found.getD []).contains '\n') (slice?_whole a hmid)

theorem beside_movedTo (verbatim : Bool) (t : Token) (hspan : span.On a.text)
    (hnext : next.On a.text) (hle : span.stop ≤ next.start) :
    Beside a.source verbatim t (Side.pick span (span.movedTo a.place))
      (Side.pick next (next.movedTo a.place)) where
  newline := newline_movedTo a hspan hnext hle
  one _ _ := slice_movedTo a hspan
  two _ _ := slice_extendTo_movedTo a hspan hnext
    (hspan.start_le_stop.trans (hle.trans hnext.start_le_stop))

/-- One more token in front of tokens that are moved. -/
theorem tokensTwin_movedTo_cons {verbatim : Bool} {hi : Nat}
    (htoken : TokenTwin a.source verbatim t (t.movedTo a.place)) (heof : t.isEof = false)
    (hspan : span.On a.text) (hplaced : TokensPlaced a.text span.stop hi tokens)
    (hrest : TokensTwin a.source verbatim tokens (tokensMovedTo a.place tokens)) :
    TokensTwin a.source verbatim ((t, span) :: tokens)
      (tokensMovedTo a.place ((t, span) :: tokens)) := by
  cases hplaced with
  | last hnext hle => exact .more htoken heof (beside_movedTo a verbatim t hspan hnext hle) hrest
  | more hgap hnext =>
    exact .more htoken heof (beside_movedTo a verbatim t hspan hnext.span_on hgap.le) hrest

mutual

/-- A token is the same one where the text is moved. -/
theorem tokenTwin_movedTo (verbatim : Bool) {t : Token} {span : Span} (h : Placed a.text t span) :
    TokenTwin a.source verbatim t (t.movedTo a.place) := by
  match h with
  | .mark m _ _ _ => exact .same _ nofun
  | .template _ _ hparts => exact .template (partsTwin_movedTo verbatim hparts)
  | .plain _ _ htemplate _ _ =>
    rw [Token.movedTo_of_not_template _ htemplate]
    exact .same _ htemplate

theorem partsTwin_movedTo (verbatim : Bool) {lo hi : Nat} {parts : List TemplatePart}
    (h : PartsPlaced a.text lo hi parts) :
    PartsTwin a.source verbatim parts (partsMovedTo a.place parts) := by
  match h with
  | .last _ _ _ => exact .quasi _ _ _ .nil
  | .more _ _ _ htokens hrest =>
    exact .quasi _ _ _ (.substitution (tokensTwin_movedTo verbatim htokens)
      (partsTwin_movedTo verbatim hrest))

theorem tokensTwin_movedTo (verbatim : Bool) {lo hi : Nat} {tokens : List SpannedToken}
    (h : TokensPlaced a.text lo hi tokens) :
    TokensTwin a.source verbatim tokens (tokensMovedTo a.place tokens) := by
  match h with
  | .last _ _ _ => exact .last _ _
  | .more _ htoken heof hrest =>
    exact tokensTwin_movedTo_cons a (tokenTwin_movedTo verbatim htoken) heof htoken.span_on hrest
      (tokensTwin_movedTo verbatim hrest)

end

end

theorem Side.apply_pick {α β : Type} (f : α → β) (a b : α) :
    (fun i => f (Side.pick a b i)) = Side.pick (f a) (f b) := by
  funext i
  cases i <;> rfl

/-- How many brackets are open before each of some tokens. -/
def openBefore (tokens : List SpannedToken) (p : Nat) : Int :=
  ((tokens.take p).map fun b => bracketStep b.1).sum

theorem openBefore_zero (tokens : List SpannedToken) : openBefore tokens 0 = 0 := rfl

theorem openBefore_succ {p : Nat} {b : SpannedToken} (hb : tokens[p]? = some b) :
    openBefore tokens (p + 1) = openBefore tokens p + bracketStep b.1 := by
  simp [openBefore, List.take_add_one, hb]

/-- A text in the middle of another one, with the tokens that it has alone, moved to where it
stands, and a mark after them, on the same line, before which a passage may end. -/
structure Embedded extends Around where
  /-- The tokens of the text but its end. -/
  inner : List SpannedToken
  front : List SpannedToken
  stop : SpannedToken
  rest : List SpannedToken
  alone : tokenize text = .ok (inner ++ [endToken text])
  plain : ∀ b ∈ inner, b.1.isEof = false
  amid : tokenize toAround.whole = .ok (front ++ (tokensMovedTo toAround.place inner ++ stop :: rest))
  stops : isStop stop.1 = true
  /-- What stands between the text and the mark. -/
  gap : List Char
  gap_prefix : gap <+: after
  line : gap.contains '\n' = false
  start : stop.2.start = toAround.place.offset + byteLength text + byteLength gap

namespace Embedded

variable (e : Embedded)

/-- The tokens of the text alone, and of the whole. -/
def tokens : Side → Array SpannedToken
  | .left => (e.inner ++ [endToken e.text]).toArray
  | .right => (e.front ++ (tokensMovedTo e.place e.inner ++ e.stop :: e.rest)).toArray

/-- The text alone and in the middle of the other one, after `base` other nodes. -/
def passage (ceiling base : Nat) : Passage :=
  { source := e.source, offset := e.front.length, count := e.inner.length, base, verbatim := true,
    goesOn := true, ceiling, level? := some (openBefore e.inner) }

/-- The mark after the text is looser than a level: an operator of a lower one, or that of an access
if the level is above all operators. -/
structure Looser (ceiling : Nat) : Prop where
  operator : ∀ operator, InfixOperator.ofToken? true e.stop.1 = some operator →
    operator.precedence.level < ceiling
  access : e.stop.1 = .punct .questionDot → Precedence.exponentiation.level < ceiling
  /-- In front of an access no class is extended, as what it extends could be accessed too. -/
  heritage : Precedence.exponentiation.level < ceiling →
    ∀ b ∈ e.inner, b.1.isKeyword .extendsWord = false

/-- No list in angle brackets that begins in the text ends anywhere. -/
def Angleless : Prop := ∀ b ∈ e.inner, b.1.isPunct .less = true →
  ∀ c ∈ e.inner ++ e.rest, beginsAngle c.1 = false

/-- The text closes the brackets that it opens. -/
def Balanced : Prop := openBefore e.inner e.inner.length = 0

variable {e} {p : Nat} {b : SpannedToken}

theorem tokens_left (hb : e.inner[p]? = some b) : (e.tokens .left)[p]? = some b := by
  have hlt := (List.getElem?_eq_some_iff.mp hb).1
  simp [tokens, List.getElem?_append_left hlt, hb]

theorem tokens_right (hb : e.inner[p]? = some b) :
    (e.tokens .right)[e.front.length + p]? = some (b.1.movedTo e.place, b.2.movedTo e.place) := by
  have hmoved : (tokensMovedTo e.place e.inner)[p]? =
      some (b.1.movedTo e.place, b.2.movedTo e.place) := by
    simp [tokensMovedTo_eq_map, hb]
  have hlt' := (List.getElem?_eq_some_iff.mp hmoved).1
  rw [tokens, List.getElem?_toArray, List.getElem?_append_right (Nat.le_add_right _ _),
    Nat.add_sub_cancel_left, List.getElem?_append_left hlt', hmoved]

theorem tokens_left_end : (e.tokens .left)[e.inner.length]? = some (endToken e.text) := by
  simp [tokens]

theorem tokens_right_end : (e.tokens .right)[e.front.length + e.inner.length]? = some e.stop := by
  simp [tokens, tokensMovedTo_eq_map]

/-- At a place of the passage stands a token of the text, where it is moved to on the right. -/
theorem pair_lt {ceiling base : Nat} (hb : e.inner[p]? = some b) (i : Side) :
    (e.tokens i)[(e.passage ceiling base).place i p]? =
      some (Side.pick b (b.1.movedTo e.place, b.2.movedTo e.place) i) := by
  cases i with
  | left => exact tokens_left hb
  | right => exact tokens_right hb

theorem pair_end {ceiling base : Nat} (i : Side) :
    (e.tokens i)[(e.passage ceiling base).place i e.inner.length]? =
      some (Side.pick (endToken e.text) e.stop i) := by
  cases i with
  | left => exact tokens_left_end
  | right => exact tokens_right_end

/-- A mark that is no access is looser than a level if it is no operator of at least the level. -/
theorem looser_of_mark {mark : Punct} {least : Precedence} (hmark : e.stop.1 = .punct mark)
    (haccess : mark ≠ .questionDot)
    (hlooser : ∀ operator, InfixOperator.ofToken? true (.punct mark) = some operator →
      operator.level < least.level) : e.Looser least.level where
  operator := hmark ▸ hlooser
  access h := absurd (Token.punct.inj (hmark.symm.trans h)) haccess
  heritage hceiling := absurd hceiling (Nat.not_lt_of_le (Mark.level_le_exponentiation least))

theorem placed : TokensPlaced e.text 0 (byteLength e.text) (e.inner ++ [endToken e.text]) :=
  tokenize_placed e.alone

theorem reads {ceiling : Nat} (hlooser : e.Looser ceiling) {base : Nat} (hp : p ≤ e.inner.length) : ∃ c : Side → SpannedToken,
    (∀ i, (e.tokens i)[(e.passage ceiling base).place i p]? = some (c i)) ∧
      (e.passage ceiling base).Reads p fun i => (c i).1 := by
  rcases hp.lt_or_eq with hlt | rfl
  · have hb := List.getElem?_eq_getElem hlt
    refine ⟨_, pair_lt hb, .token hlt ?_ (e.plain _ (List.getElem_mem hlt))⟩
    have hplaced := e.placed.token (i := p) (by rw [List.getElem?_append_left hlt, hb])
    exact tokenTwin_movedTo e.toAround true hplaced.1
  · exact ⟨_, pair_end, .ending rfl rfl e.stops hlooser.operator hlooser.access⟩

/-- The pairs of tokens at a place are the ones that stand there. -/
theorem eq_of_pair {ceiling base : Nat} {c d : Side → SpannedToken}
    (hc : ∀ i, (e.tokens i)[(e.passage ceiling base).place i p]? = some (c i))
    (hd : ∀ i, (e.tokens i)[(e.passage ceiling base).place i p]? = some (d i)) : c = d := by
  funext i
  have heq := (hc i).symm.trans (hd i)
  exact Option.some.inj heq

theorem on_text {q : Nat} (hb : (e.inner ++ [endToken e.text])[q]? = some b) : b.2.On e.text :=
  (e.placed.token hb).1.span_on

/-- The mark stands on another line than a token before it where the end of the text does. -/
theorem newline_stop {span : Span} (hspan : span.On e.text)
    (hle : span.stop ≤ (endToken e.text).2.start) :
    ((slice? e.whole (span.movedTo e.place).stop e.stop.2.start).getD []).contains '\n' =
      ((slice? e.text span.stop (endToken e.text).2.start).getD []).contains '\n' := by
  have hend : (endToken e.text).2.start = byteLength e.text := by simp [endToken, Span.between]
  have hon : (endToken e.text).2.On e.text := on_text (q := e.inner.length) (by simp)
  obtain ⟨mid, hmid⟩ := hspan.exists_slice hon hle
  rw [hend] at hmid
  obtain ⟨front, rest, htext, hstop, hlength⟩ := slice?_eq_some_iff.mp hmid
  obtain rfl : rest = [] := eq_nil_of_byteLength (by
    have hsum := congrArg byteLength htext
    simp only [byteLength_append] at hsum hlength
    omega)
  obtain ⟨more, hafter⟩ := e.gap_prefix
  have hplace : e.place.offset = byteLength e.before := by simp [Around.place]
  have hmoved : slice? e.whole (span.movedTo e.place).stop e.stop.2.start = some (mid ++ e.gap) := by
    refine slice?_eq_some_iff.mpr ⟨e.before ++ front, more, ?_, ?_, ?_⟩
    · rw [Around.whole, ← hafter, htext]
      simp
    · simp [Span.movedTo, hplace, hstop]
    · rw [e.start, hplace, htext]
      simp [Nat.add_assoc]
  have hgap : '\n' ∉ e.gap := by simpa using e.line
  rw [hmoved, hend, hmid]
  simp [hgap]

theorem beside {ceiling base : Nat} (hp : p < e.inner.length) {c d : Side → SpannedToken}
    (hc : ∀ i, (e.tokens i)[(e.passage ceiling base).place i p]? = some (c i))
    (hd : ∀ i, (e.tokens i)[(e.passage ceiling base).place i (p + 1)]? = some (d i)) :
    Beside e.source (decide (p + 1 < e.inner.length)) (c .left).1 (fun i => (c i).2)
      fun i => (d i).2 := by
  have hb := List.getElem?_eq_getElem hp
  obtain rfl := eq_of_pair hc (pair_lt hb)
  have hb' : (e.inner ++ [endToken e.text])[p]? = some e.inner[p] := by
    rw [List.getElem?_append_left hp, hb]
  rcases (Nat.succ_le_of_lt hp).lt_or_eq with hlt | heq
  · have hnext := List.getElem?_eq_getElem hlt
    obtain rfl := eq_of_pair hd (pair_lt hnext)
    have hnext' : (e.inner ++ [endToken e.text])[p + 1]? = some e.inner[p + 1] := by
      rw [List.getElem?_append_left hlt, hnext]
    have hbeside := beside_movedTo e.toAround (decide (p + 1 < e.inner.length)) e.inner[p].1
      (on_text hb') (on_text hnext') (e.placed.ordered hb' hnext')
    simp only [Side.apply_pick]
    exact hbeside
  · have hd' := hd
    rw [show p + 1 = e.inner.length from heq] at hd'
    obtain rfl := eq_of_pair hd' pair_end
    have hlast : (e.inner ++ [endToken e.text])[p + 1]? = some (endToken e.text) := by
      rw [show p + 1 = e.inner.length from heq]
      simp
    have hfalse : decide (p + 1 < e.inner.length) = false :=
      decide_eq_false (by omega)
    rw [hfalse]
    refine ⟨?_, nofun, nofun⟩
    exact newline_stop (on_text hb') (e.placed.ordered hb' hlast)

/-- The tokens hold the passage. -/
theorem holds (hbalanced : e.Balanced) (hangles : e.Angleless) {ceiling : Nat}
    (hlooser : e.Looser ceiling) (base : Nat) :
    (e.passage ceiling base).Tokens e.tokens where
  size := by simp [tokens, passage]
  size_le := by
    simp only [tokens, passage, tokensMovedTo_eq_map, List.size_toArray, List.length_append,
      List.length_map, List.length_cons]
    omega
  size_eq := nofun
  reads _ hp := reads hlooser hp
  beside _ hp _ _ hc hd := beside hp hc hd
  spelled p hp c hc _ _ := by
    have hb := List.getElem?_eq_getElem hp
    obtain rfl := eq_of_pair hc (pair_lt hb)
    have hb' : (e.inner ++ [endToken e.text])[p]? = some e.inner[p] := by
      rw [List.getElem?_append_left hp, hb]
    exact slice_movedTo e.toAround (on_text hb')
  level := by
    rintro f ⟨⟩ p hp b hb
    have hget := List.getElem?_eq_getElem hp
    rw [tokens_left hget, Option.some.injEq] at hb
    exact openBefore_succ (hb ▸ hget)
  angles := by
    rintro f ⟨⟩ p q b c hpq hq hb hc hopen hclose
    have hget := List.getElem?_eq_getElem (hpq.trans hq)
    have hget' := List.getElem?_eq_getElem hq
    rw [tokens_left hget, Option.some.injEq] at hb
    rw [tokens_left hget', Option.some.injEq] at hc
    have hnot := hangles b (hb ▸ List.getElem_mem _) hopen c
      (List.mem_append_left _ (hc ▸ List.getElem_mem _))
    rw [hnot] at hclose
    cases hclose
  beyond _ p b hb hopen q c hq hc := by
    have hmem : b ∈ e.inner := by
      have hmem := Array.mem_of_getElem? hb
      simp only [tokens, List.mem_toArray, List.mem_append, List.mem_singleton] at hmem
      rcases hmem with hmem | rfl
      · exact hmem
      · cases hopen
    refine hangles b hmem hopen c (List.mem_append_right _ ?_)
    have hlength : (tokensMovedTo e.place e.inner).length = e.inner.length := by
      simp [tokensMovedTo_eq_map]
    obtain ⟨k, rfl⟩ : ∃ k, q = e.front.length + (e.inner.length + (k + 1)) :=
      ⟨q - (e.front.length + e.inner.length) - 1, by
        simp only [passage] at hq
        omega⟩
    rw [tokens, List.getElem?_toArray, List.getElem?_append_right (Nat.le_add_right _ _),
      Nat.add_sub_cancel_left, ← hlength, List.getElem?_append_right (Nat.le_add_right _ _),
      Nat.add_sub_cancel_left, List.getElem?_cons_succ] at hc
    exact List.mem_of_getElem? hc
  level_end _ := ⟨_, rfl, hbalanced⟩
  heritage _ hceiling p b hb := by
    have hmem := Array.mem_of_getElem? hb
    simp only [tokens, List.mem_toArray, List.mem_append, List.mem_singleton] at hmem
    rcases hmem with hmem | rfl
    · exact hlooser.heritage hceiling b hmem
    · rfl

end Embedded

end Parse
end ScriptLint
