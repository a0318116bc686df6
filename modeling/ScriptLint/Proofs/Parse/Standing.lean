import ScriptLint.Proofs.Parse.Twin.Operand

namespace ScriptLint

open Position (origin)

namespace Parse

/-- The start of a text with these tokens. -/
def State.alone (text : List Char) (tokens : List SpannedToken) (depth : Nat) : State :=
  { source := text, tokens := tokens.toArray, depth }

/-- The start of a text that has no angles which a parser could take apart or take for the end of a
list. -/
structure Whole (s : State) : Prop where
  eq_alone : s = State.alone s.source s.tokens.toList s.depth
  scan : tokenize s.source = .ok s.tokens.toList
  unangled : Unangled s.tokens.toList

/-- From a place on, a text holds another one with these tokens, and then `tail`. -/
def Stands (s : State) (pos : Nat) (text : List Char) (inner : List SpannedToken)
    (tail : List Char) : Prop :=
  ∃ before front rest, s.source = before ++ (text ++ tail) ∧
    s.tokens.toList = front ++ (tokensMovedTo (origin.after before) inner ++ rest) ∧
    front.length = pos ∧ scanAt (origin.after (before ++ text)) tail = ⟨rest, []⟩

/-- The mark that a text begins with stands on its first line, after what holds no token. -/
def Meets (tail : List Char) (mark : Punct) : Prop :=
  ∃ gap, gap <+: tail ∧ gap.contains '\n' = false ∧ ∀ p : Position, ∃ span rest,
    (scanAt p tail).tokens = (.punct mark, span) :: rest ∧
      span.start = p.offset + byteLength gap

variable {s : State} {pos n : Nat} {text a b tail : List Char}
  {inner first second : List SpannedToken} {least : Precedence} {mark : Punct} {id : NodeId}
  {s' : State}

theorem stands_whole (text : List Char) (inner : List SpannedToken) (depth : Nat) :
    Stands (State.alone text (tokensMovedTo origin inner ++ [endToken text]) depth) 0 text inner
      [] :=
  ⟨[], [], [endToken text], by simp [State.alone], by simp [State.alone], rfl, rfl⟩

namespace Stands

theorem left (h : Stands s pos (a ++ b) (first ++ tokensMovedTo (origin.after a) second) tail)
    (hb : Spells b second tail) : Stands s pos a first (b ++ tail) := by
  obtain ⟨before, front, rest, hsource, htokens, hpos, hscan⟩ := h
  refine ⟨before, front, tokensMovedTo (origin.after (before ++ a)) second ++ rest, ?_, ?_, hpos, ?_⟩
  · simpa using hsource
  · rw [htokens, tokensMovedTo_append, hb.movedTo_movedTo, Position.after_append, List.append_assoc]
  · rw [hb.scan, ← Position.after_append, List.append_assoc, hscan]
    rfl

theorem right (h : Stands s pos (a ++ b) (first ++ tokensMovedTo (origin.after a) second) tail)
    (hb : Spells b second tail) : Stands s (pos + first.length) b second tail := by
  obtain ⟨before, front, rest, hsource, htokens, rfl, hscan⟩ := h
  refine ⟨before ++ a, front ++ tokensMovedTo (origin.after before) first, rest, ?_, ?_, ?_, ?_⟩
  · simpa using hsource
  · rw [htokens, tokensMovedTo_append, hb.movedTo_movedTo, Position.after_append]
    simp
  · simp [tokensMovedTo_eq_map]
  · rw [← hscan, List.append_assoc]

/-- Past what holds no token. -/
theorem skipped (h : Stands s pos (a ++ b) (tokensMovedTo (origin.after a) second) tail)
    (hb : Spells b second tail) : Stands s pos b second tail := by
  rw [← List.nil_append (tokensMovedTo _ second)] at h
  exact h.right hb

theorem tokenAt_add {k : Nat} {a : SpannedToken} (h : Stands s pos text inner tail)
    (hk : inner[k]? = some a) : ∃ p, s.tokenAt (pos + k) = a.1.movedTo p := by
  obtain ⟨before, front, rest, -, htokens, rfl, -⟩ := h
  obtain ⟨hlt, -⟩ := List.getElem?_eq_some_iff.mp hk
  refine ⟨origin.after before, ?_⟩
  rw [Branches.tokenAt_eq, htokens, tokensMovedTo_eq_map, List.getElem?_map,
    List.getElem?_append_right (Nat.le_add_right _ _), Nat.add_sub_cancel_left,
    List.getElem?_append_left (by simpa using hlt), List.getElem?_map, hk]
  rfl

/-- A token that stands alone. -/
theorem tokenAt_one {token : Token} {span : Span} (h : Stands s pos text [(token, span)] tail)
    (hplain : ∀ p, token.movedTo p = token) : s.tokenAt pos = token := by
  obtain ⟨p, htoken⟩ := h.tokenAt_add (k := 0) rfl
  exact htoken.trans (hplain p)

/-- A mark that stands somewhere is the token there. -/
theorem tokenAt {span : Span} (h : Stands s pos text [(.punct mark, span)] tail) :
    s.tokenAt pos = .punct mark := h.tokenAt_one fun _ => rfl

theorem tokenAt_of_meets (h : Stands s pos text inner tail) (hmeets : Meets tail mark) :
    s.tokenAt (pos + inner.length) = .punct mark := by
  obtain ⟨before, front, rest, -, htokens, rfl, hscan⟩ := h
  obtain ⟨gap, -, -, hmeets⟩ := hmeets
  obtain ⟨span, more, hmore, -⟩ := hmeets (origin.after (before ++ text))
  rw [hscan] at hmore
  rw [Branches.tokenAt_eq, htokens]
  simp [tokensMovedTo_eq_map, show rest = _ from hmore, ← Nat.add_assoc]

/-- A text that is read alone, where it stands in front of a mark at which it stops. -/
theorem exists_embedded (h : Stands s pos text inner tail) (hs : Whole s)
    (halone : tokenize text = .ok (inner ++ [endToken text])) (hplain : ∀ a ∈ inner, a.1.isEof = false)
    (hmeets : Meets tail mark) (hstop : isStop (.punct mark) = true) :
    ∃ e : Embedded, e.text = text ∧ e.inner = inner ∧ e.front.length = pos ∧
      e.stop.1 = .punct mark ∧ (∀ depth, e.stateAmid depth = { s with depth }) := by
  obtain ⟨before, front, rest, hsource, htokens, rfl, hscan⟩ := h
  obtain ⟨gap, hprefix, hline, hmeets⟩ := hmeets
  obtain ⟨span, more, hmore, hstart⟩ := hmeets (origin.after (before ++ text))
  rw [hscan] at hmore
  obtain rfl : rest = _ := hmore
  let around : Around := ⟨before, text, tail⟩
  have hwhole : around.whole = s.source := by
    rw [hsource]
    simp [around, Around.whole]
  let e : Embedded :=
    { around with
      inner
      front
      stop := (.punct mark, span)
      rest := more
      alone := halone
      plain := hplain
      amid := by
        rw [hwhole, hs.scan, htokens]
        rfl
      stops := hstop
      gap
      gap_prefix := hprefix
      line := hline
      start := by
        rw [hstart, Position.after_append]
        simp [around, Around.place] }
  refine ⟨e, rfl, rfl, rfl, rfl, fun depth => ?_⟩
  rw [hs.eq_alone, Embedded.stateAmid]
  change ({ source := around.whole, tokens := (front ++ (tokensMovedTo around.place inner ++
    (.punct mark, span) :: more)).toArray, depth } : State) = _
  rw [hwhole, show around.place = origin.after before from rfl, ← htokens]
  rfl

end Stands

/-- All of a text, whose last token no comment hides, is read, and all nodes of a tree are made. -/
structure ReadsAlone {α : Type} (p : Grammar → Parser α) (depth : Nat) (text : List Char)
    (inner : List SpannedToken) (part : Tree) (root : α) : Prop where
  closed : Closed text (inner ++ [endToken text])
  plain : ∀ a ∈ inner, a.1.isEof = false
  reads : ∃ s', withGrammar p (State.alone text (inner ++ [endToken text]) depth) = (.ok root, s') ∧
    s'.atEof = true ∧ s'.tree = part

/-- Alone, a text is read as what has a property, also where parsers are nested somewhat. -/
def ReadAs {α : Type} (room : Nat) (p : Grammar → Parser α) (text : List Char)
    (P : Tree → α → Prop) : Prop :=
  ∃ inner, ∀ depth ≤ room, ∃ part root, ReadsAlone p depth text inner part root ∧ P part root

theorem ReadAs.exists_spells {α : Type} {room : Nat} {p : Grammar → Parser α}
    {P : Tree → α → Prop} (h : ReadAs room p text P) : ∃ inner,
      (∀ tail, Lexeme.Clear text tail → Spells text inner tail) ∧
      tokenize text = .ok (inner ++ [endToken text]) ∧
      ∀ depth ≤ room, ∃ part root, ReadsAlone p depth text inner part root ∧ P part root := by
  obtain ⟨inner, h⟩ := h
  obtain ⟨part, root, hread, -⟩ := h 0 (Nat.zero_le _)
  obtain ⟨inner', heq, -, hspells⟩ := hread.closed.exists_spells
  obtain rfl := List.append_cancel_right heq
  exact ⟨inner, hspells, hread.closed.tokenize, h⟩

namespace Embedded

variable {e : Embedded}

theorem mem_right_of_inner {c : SpannedToken} (hc : c ∈ e.inner) :
    (c.1.movedTo e.place, c.2.movedTo e.place) ∈ (e.tokens .right).toList := by
  simp only [tokens, tokensMovedTo_eq_map, List.mem_append, List.mem_map]
  exact .inr (.inl ⟨c, hc, rfl⟩)

theorem unangled_inner (h : Unangled (e.tokens .right).toList) : Unangled e.inner where
  uncut c hc := by
    have hmoved := h.uncut _ (mem_right_of_inner hc)
    generalize c.1 = t at hmoved
    cases t <;> exact hmoved
  apart c hc hopen d hd := by
    have hopen' : (c.1.movedTo e.place).isPunct .less = true := by
      generalize c.1 = t at hopen
      cases t <;> exact hopen
    have hmoved := h.apart _ (mem_right_of_inner hc) hopen' _ (mem_right_of_inner hd)
    generalize d.1 = t at hmoved
    cases t <;> exact hmoved

theorem angleless_of_unangled (h : Unangled (e.tokens .right).toList) : e.Angleless := by
  intro c hc hopen d hd
  have hinner := unangled_inner h
  rcases List.mem_append.mp hd with hd | hd
  · exact hinner.beginsAngle hc hopen hd
  · have hmem : d ∈ (e.tokens .right).toList := by
      simp only [tokens, List.mem_append, List.mem_cons]
      exact .inr (.inr (.inr hd))
    refine h.beginsAngle (mem_right_of_inner hc) ?_ hmem
    generalize c.1 = t at hopen
    cases t <;> exact hopen

end Embedded

namespace Stands

variable {p : Grammar → Parser NodeId} {part : Tree} {root : NodeId}

/-- A text that is read alone, as such a text in the middle of another one. -/
theorem exists_readAlone {α : Type} {q : Grammar → Parser α} {a : α}
    (h : Stands s pos text inner tail) (hs : Whole s)
    (hdepth : s.depth ≤ maxDepth) (hread : ReadsAlone q s.depth text inner part a)
    (hmeets : Meets tail mark) (hstop : isStop (.punct mark) = true) :
    ∃ (e : Embedded) (s' : State), ReadAlone q (maxDepth + (e.stateAlone s.depth).weight + 2)
        (e.stateAlone s.depth) a s' ∧ s'.tree = part ∧ e.inner = inner ∧
      e.front.length = pos ∧ e.stop.1 = .punct mark ∧ e.stateAmid s.depth = s ∧ e.Angleless ∧
      ∀ b ∈ e.tokens .right, afterClosingAngle b.1 = none := by
  obtain ⟨e, rfl, rfl, hfront, hmark, hamid⟩ :=
    h.exists_embedded hs hread.closed.tokenize hread.plain hmeets hstop
  obtain ⟨s', hrun, hend, htree⟩ := hread.reads
  have hamid : e.stateAmid s.depth = s := hamid s.depth
  have hunangled : Unangled (e.tokens .right).toList := by
    have hsame : (e.tokens .right).toList = s.tokens.toList := congrArg (·.tokens.toList) hamid
    exact hsame ▸ hs.unangled
  exact ⟨e, s', readAlone_of_withGrammar hdepth (Embedded.unangled_inner hunangled) hrun hend,
    htree, rfl, hfront, hmark, hamid, Embedded.angleless_of_unangled hunangled,
    fun b hb => hunangled.uncut b (Array.mem_toList_iff.mpr hb)⟩

/-- A construct that is all of a text is read where the text stands in front of a mark at which it
stops. -/
theorem makes (h : Stands s pos text inner tail) (hs : Whole s) (hdepth : s.depth ≤ maxDepth)
    (hp : Paired least p) (hgrows : ∀ n, GrowsNode (p (Grammar.upTo n)))
    (hread : ReadsAlone p s.depth text inner part root) (hmeets : Meets tail mark)
    (hstop : isStop (.punct mark) = true)
    (haccess : mark ≠ .questionDot)
    (hlooser : ∀ operator, InfixOperator.ofToken? true (.punct mark) = some operator →
      operator.level < least.level) :
    Makes p s pos (pos + inner.length) fun t i => t.SameBelow i part root := by
  obtain ⟨e, s', halone, rfl, rfl, hfront, hmark, hamid, hangles, huncut⟩ :=
    h.exists_readAlone hs hdepth hread hmeets hstop
  have hmakes := Embedded.makes hp (hgrows _) halone hangles huncut
    (Embedded.looser_of_mark hmark haccess hlooser)
  rwa [hamid, hfront] at hmakes

/-- Operands that are all of a text are gathered where the text stands in front of a mark at which
they stop, also if that is an operator they could be joined with. -/
theorem gathers (h : Stands s pos text inner tail) (hs : Whole s) (hdepth : s.depth ≤ maxDepth)
    (hread : ReadsAlone (fun g => Parse.binary g least) s.depth text inner part root)
    (hmeets : Meets tail mark) (hstop : isStop (.punct mark) = true) {ceiling : Precedence}
    (haccess : mark ≠ .questionDot)
    (hlooser : ∀ operator, InfixOperator.ofToken? true (.punct mark) = some operator →
      operator.level < ceiling.level)
    (hceiling : ∀ operator : InfixOperator, least.level ≤ operator.level →
      ceiling.level ≤ operator.operandLevel.level) :
    Gathers s least pos (pos + inner.length) fun t i => t.SameBelow i part root := by
  obtain ⟨e, s', halone, rfl, rfl, hfront, hmark, hamid, hangles, huncut⟩ :=
    h.exists_readAlone hs hdepth hread hmeets hstop
  have hgathers := Embedded.gathers halone hangles huncut
    (Embedded.looser_of_mark hmark haccess hlooser) hceiling
  rwa [hamid, hfront] at hgathers

end Stands

end Parse
end ScriptLint
