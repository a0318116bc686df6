import ScriptLint.Proofs.Parse.Frame
import ScriptLint.Proofs.Tree.Forest

namespace ScriptLint
namespace Parse

namespace State

/-- Where the current token begins. -/
def here (s : State) : Nat := s.currentSpan.start

/-- Where the token before the cursor ends. -/
def passed (s : State) : Nat :=
  match s.pos with
  | 0 => 0
  | previous + 1 => (s.tokens[previous]?.map (·.2.stop)).getD 0

variable {s s' : State}

theorem Ready.token (h : s.Ready) :
    ∃ a, s.tokens[s.pos]? = some a ∧ s.currentSpan = a.2 ∧ s.current = a.1 := by
  have hlt := h.pos_lt
  have htoken := Array.getElem?_eq_getElem hlt
  refine ⟨s.tokens[s.pos], htoken, ?_, ?_⟩
  · simp [currentSpan, spanAt, htoken]
  · simp [current, tokenAt, htoken]

theorem Ready.span_on (h : s.Ready) {i : Nat} {a : SpannedToken} (ha : s.tokens[i]? = some a) :
    a.2.On s.source :=
  (h.placed i a ha).span_on

/-- Tokens that stand in place do not overlap. -/
theorem Ready.stop_le_start (h : s.Ready) {i j : Nat} (hij : i < j) {a b : SpannedToken}
    (ha : s.tokens[i]? = some a) (hb : s.tokens[j]? = some b) : a.2.stop ≤ b.2.start := by
  induction j generalizing b with
  | zero => exact absurd hij (Nat.not_lt_zero i)
  | succ j ih =>
    rcases (Nat.lt_succ_iff.mp hij).eq_or_lt with rfl | hlt
    · exact h.ordered i a b ha hb
    · have hj : j < s.tokens.size :=
        (Nat.lt_succ_self j).trans (Array.getElem?_eq_some_iff.mp hb).1
      have hmid := Array.getElem?_eq_getElem hj
      calc a.2.stop ≤ s.tokens[j].2.start := ih hlt hmid
        _ ≤ s.tokens[j].2.stop := (h.span_on hmid).start_le_stop
        _ ≤ b.2.start := h.ordered j _ b hmid hb

theorem Ready.stop_le_stop (h : s.Ready) {i j : Nat} (hij : i ≤ j) {a b : SpannedToken}
    (ha : s.tokens[i]? = some a) (hb : s.tokens[j]? = some b) : a.2.stop ≤ b.2.stop := by
  rcases hij.eq_or_lt with rfl | hlt
  · rw [ha] at hb
    cases hb
    exact le_rfl
  · exact (h.stop_le_start hlt ha hb).trans (h.span_on hb).start_le_stop

theorem passed_of_pos {previous : Nat} {a : SpannedToken} (hpos : s.pos = previous + 1)
    (ha : s.tokens[previous]? = some a) : s.passed = a.2.stop := by
  simp [passed, hpos, ha]

/-- The token before the cursor, if the cursor has moved. -/
theorem Ready.previous (h : s.Ready) (hpos : 0 < s.pos) :
    ∃ previous a, s.pos = previous + 1 ∧ s.tokens[previous]? = some a ∧ s.passed = a.2.stop := by
  obtain ⟨previous, hprevious⟩ := Nat.exists_eq_succ_of_ne_zero hpos.ne'
  have hlt : previous < s.tokens.size := by
    have hpos_lt := h.pos_lt
    omega
  exact ⟨previous, s.tokens[previous], hprevious, Array.getElem?_eq_getElem hlt,
    passed_of_pos hprevious (Array.getElem?_eq_getElem hlt)⟩

theorem Ready.passed_le_here (h : s.Ready) : s.passed ≤ s.here := by
  rcases s.pos.eq_zero_or_pos with hzero | hpos
  · simp [passed, hzero]
  · obtain ⟨previous, a, hprevious, ha, hpassed⟩ := h.previous hpos
    obtain ⟨b, hb, hspan, _⟩ := h.token
    rw [hprevious] at hb
    rw [hpassed, here, hspan]
    exact h.ordered previous a b ha hb

/-- A state at the first of tokens that stand in place between two offsets. -/
theorem ready_of_placed {tokens : List SpannedToken} {lo hi : Nat}
    (h : TokensPlaced s.source lo hi tokens) (htokens : s.tokens = tokens.toArray)
    (hpos : s.pos = 0) : s.Ready where
  pos_lt := by
    simpa [htokens, hpos] using h.length_pos
  placed i a ha := by
    rw [htokens, List.getElem?_toArray] at ha
    exact (h.token ha).1
  ordered i a b ha hb := by
    rw [htokens, List.getElem?_toArray] at ha hb
    exact h.ordered ha hb
  spaced i a b ha hb hlt _ := by
    rw [htokens, List.getElem?_toArray] at ha hb
    rw [htokens, List.size_toArray] at hlt
    exact h.gap ha hb hlt
  last i a ha hi := by
    rw [htokens, List.getElem?_toArray] at ha
    rw [htokens, List.size_toArray] at hi
    exact h.eof_of_last ha hi

theorem le_here_of_placed {tokens : List SpannedToken} {lo hi : Nat}
    (h : TokensPlaced s.source lo hi tokens) (htokens : s.tokens = tokens.toArray)
    (hpos : s.pos = 0) : lo ≤ s.here := by
  obtain ⟨a, ha, hspan, _⟩ := (ready_of_placed h htokens hpos).token
  rw [htokens, List.getElem?_toArray] at ha
  rw [here, hspan]
  exact (h.token ha).2.1

end State

namespace Frame

variable {s s' : State}

/-- What was passed since a state at the first of its tokens ends where these end. -/
theorem passed_le_of_placed (h : Frame s s') {tokens : List SpannedToken} {lo hi : Nat}
    (hplaced : TokensPlaced s.source lo hi tokens) (htokens : s.tokens = tokens.toArray)
    (hpos : s.pos = 0) : s'.passed ≤ hi := by
  rcases s'.pos.eq_zero_or_pos with hzero | hmoved
  · simp [State.passed, hzero]
  · have hready := h.ready (State.ready_of_placed hplaced htokens hpos)
    obtain ⟨previous, b, -, hb, hpassed⟩ := hready.previous hmoved
    obtain ⟨a, ha, hremains⟩ := h.tokens.before hb
    rw [htokens, List.getElem?_toArray] at ha
    rw [hpassed, hremains.stop_eq]
    exact (hplaced.token ha).2.2

theorem here_le (h : Frame s s') (hs : s.Ready) : s.here ≤ s'.here := by
  obtain ⟨a, ha, hspan, _⟩ := hs.token
  obtain ⟨b, hb, hspan', _⟩ := (h.ready hs).token
  obtain ⟨a', ha', hremains⟩ := h.tokens.remains _ a ha
  rw [State.here, State.here, hspan, hspan']
  rcases h.pos_le.eq_or_lt with heq | hlt
  · rw [heq, hb] at ha'
    cases ha'
    exact hremains.start_le
  · calc a.2.start ≤ a'.2.start := hremains.start_le
      _ ≤ a'.2.stop := ((h.ready hs).span_on ha').start_le_stop
      _ ≤ b.2.start := (h.ready hs).stop_le_start hlt ha' hb

theorem passed_le (h : Frame s s') (hs : s.Ready) : s.passed ≤ s'.passed := by
  rcases s.pos.eq_zero_or_pos with hzero | hpos
  · simp [State.passed, hzero]
  · obtain ⟨p, a, hp, ha, hpassed⟩ := hs.previous hpos
    obtain ⟨q, b, hq, hb, hpassed'⟩ := (h.ready hs).previous (hpos.trans_le h.pos_le)
    obtain ⟨a', ha', hremains⟩ := h.tokens.remains _ a ha
    have hle := h.pos_le
    rw [hpassed, hpassed', ← hremains.stop_eq]
    exact (h.ready hs).stop_le_stop (by omega) ha' hb

/-- The token before a cursor that has moved ends no earlier than the token where it began. -/
theorem stop_le_passed (h : Frame s s') (hs : s.Ready) (hlt : s.pos < s'.pos) :
    s.currentSpan.stop ≤ s'.passed := by
  obtain ⟨a, ha, hspan, _⟩ := hs.token
  obtain ⟨q, b, hq, hb, hpassed⟩ := (h.ready hs).previous (Nat.zero_lt_of_lt hlt)
  obtain ⟨a', ha', hremains⟩ := h.tokens.remains _ a ha
  rw [hspan, hpassed, ← hremains.stop_eq]
  exact (h.ready hs).stop_le_stop (by omega) ha' hb

/-- The token before a cursor that has moved ends after the token where it began starts. -/
theorem here_le_passed (h : Frame s s') (hs : s.Ready) (hlt : s.pos < s'.pos) :
    s.here ≤ s'.passed := by
  obtain ⟨a, ha, hspan, _⟩ := hs.token
  calc s.currentSpan.start ≤ s.currentSpan.stop := hspan ▸ (hs.span_on ha).start_le_stop
    _ ≤ s'.passed := h.stop_le_passed hs hlt

/-- The range of a construct whose parser has moved reaches from its first token to its last. -/
theorem spanFrom (h : Frame s s') (hs : s.Ready) (hlt : s.pos < s'.pos) :
    (s'.spanFrom s.currentSpan).On s.source ∧
      (s'.spanFrom s.currentSpan).start = s.here ∧ (s'.spanFrom s.currentSpan).stop = s'.passed := by
  obtain ⟨a, ha, hspan, _⟩ := hs.token
  obtain ⟨q, b, hq, hb, hpassed⟩ := (h.ready hs).previous (Nat.zero_lt_of_lt hlt)
  have hle := h.here_le_passed hs hlt
  have hextend : s'.spanFrom s.currentSpan = s.currentSpan.extendTo b.2.stop := by
    simp [State.spanFrom, hq, hb]
  rw [State.here, hpassed] at hle
  have hstart : s.currentSpan.On s.source := by
    rw [hspan]
    exact hs.span_on ha
  have hstop : b.2.On s.source := by
    rw [← h.source]
    exact (h.ready hs).span_on hb
  rw [hextend, hpassed]
  refine ⟨hstart.extendTo hstop hle, rfl, ?_⟩
  rw [Span.extendTo_of_le hle]

end Frame

/-- From `s` to `s'` a parser made a forest with the given roots; the nodes `held` are in it too.
The cursor has moved if a node was made or `m` tells so. -/
structure Growth (s s' : State) (m : Bool) (ids held : List NodeId) : Prop where
  frame : Frame s s'
  fresh : ∀ i ∈ ids, s.tree.size ≤ i
  moved : s.Ready → m = true ∨ ids ≠ [] → s.pos < s'.pos
  sown : s.Ready → ∃ f : Forest, f.roots = ids ∧ held ⊆ f.preorder ∧
    f.Sown s.tree s'.tree s.source s.here s'.passed

/-- From `s` to `s'` a parser made a forest with the given roots. -/
abbrev Grown (s s' : State) (m : Bool) (ids : List NodeId) : Prop := Growth s s' m ids []

namespace Growth

variable {s s' s'' : State} {m m' : Bool} {ids ids' held held' : List NodeId}

/-- A parser that makes no nodes. -/
theorem of_frame (h : Frame s s') : Grown s s' false [] where
  frame := h
  fresh := by simp
  moved := by simp
  sown _ := ⟨.nil, rfl, List.Subset.refl _, .nil⟩

theorem refl (s : State) : Grown s s false [] := of_frame (.refl s)

theorem of_moved (h : Frame s s') (hmoved : s.Ready → s.pos < s'.pos) : Grown s s' true [] :=
  { of_frame h with moved := fun hs _ => hmoved hs }

theorem weaken (h : Growth s s' m ids held) (hm : m' = true → m = true ∨ ids ≠ [])
    (hheld : held' ⊆ ids ++ held) : Growth s s' m' ids held' where
  frame := h.frame
  fresh := h.fresh
  moved hs hmoved := h.moved hs (hmoved.elim hm .inr)
  sown hs := by
    obtain ⟨f, rfl, hf, hsown⟩ := h.sown hs
    have hall : f.roots ++ held ⊆ f.preorder := List.append_subset.mpr ⟨f.roots_subset_preorder, hf⟩
    exact ⟨f, rfl, List.Subset.trans hheld hall, hsown⟩

/-- The forest alone, when its roots are known by another name. -/
theorem done (h : Growth s s' m ids held) (hids : ids = ids') : Grown s s' false ids' := by
  subst hids
  exact h.weaken (by simp) (List.nil_subset _)

theorem nodup (h : Growth s s' m ids held) (hs : s.Ready) : ids.Nodup := by
  obtain ⟨f, rfl, -, hf⟩ := h.sown hs
  exact hf.nodup.sublist f.roots_sublist_preorder

/-- Two nodes made one after the other are not the same. -/
theorem distinct {i j : NodeId} (h : Growth s s' m [i, j] held) :
    Growth s s' m (Node.distinct i j) held := by
  unfold Node.distinct
  split
  · next heq =>
    have hcontra : ¬s.Ready := fun hs => by simpa [heq] using h.nodup hs
    refine ⟨h.frame, fun k hk => h.fresh k ?_, fun hs => absurd hs hcontra, fun hs => absurd hs hcontra⟩
    exact List.mem_cons.mpr (.inl (List.mem_singleton.mp hk))
  · exact h

/-- What one parser made and what the next one made after it. -/
theorem append (h : Growth s s' m ids held) (h' : Growth s' s'' m' ids' held') :
    Growth s s'' (m || m') (ids ++ ids') (held ++ held') where
  frame := h.frame.trans h'.frame
  fresh i hi := by
    rcases List.mem_append.mp hi with hi | hi
    · exact h.fresh i hi
    · exact h.frame.tree.size_le.trans (h'.fresh i hi)
  moved hs hmoved := by
    have hs' := h.frame.ready hs
    by_cases hfirst : m = true ∨ ids ≠ []
    · exact (h.moved hs hfirst).trans_le h'.frame.pos_le
    · have hsecond : m' = true ∨ ids' ≠ [] := by
        simp only [not_or, Bool.not_eq_true, not_not] at hfirst
        simpa [hfirst] using hmoved
      exact h.frame.pos_le.trans_lt (h'.moved hs' hsecond)
  sown hs := by
    have hs' := h.frame.ready hs
    obtain ⟨f, rfl, hheld, hf⟩ := h.sown hs
    obtain ⟨g, rfl, hheld', hg⟩ := h'.sown hs'
    rw [h.frame.source] at hg
    refine ⟨f ++ g, Forest.roots_append f g, ?_, ?_⟩
    · rw [Forest.preorder_append]
      exact List.append_subset.mpr
        ⟨List.subset_append_of_subset_left _ hheld, List.subset_append_of_subset_right _ hheld'⟩
    · exact hf.append hg h.frame.tree h'.frame.tree (h.frame.here_le hs) hs'.passed_le_here
        (h'.frame.passed_le hs')

/-- A node made around all that was read since `s`. -/
theorem alloc (h : Growth s s' m ids held) (node : Node) {span : Span}
    (hspan : s.Ready → span = s'.spanFrom s.currentSpan) (hchildren : node.children = ids)
    (hids : node.ids ⊆ ids ++ held) (hmoved : m = true ∨ ids ≠ []) :
    Growth s { s' with tree := (s'.tree.alloc node (some span)).2 } true [s'.tree.size]
      (ids ++ held) where
  frame := by
    refine h.frame.withTree (h.frame.tree.alloc ?_)
    rw [hchildren]
    exact h.fresh
  fresh i hi := by
    rw [List.mem_singleton.mp hi]
    exact h.frame.tree.size_le
  moved hs _ := h.moved hs hmoved
  sown hs := by
    obtain ⟨hon, hstart, hstop⟩ := h.frame.spanFrom hs (h.moved hs hmoved)
    rw [← hspan hs] at hon hstart hstop
    obtain ⟨f, rfl, hheld, hf⟩ := h.sown hs
    have hall : f.roots ++ held ⊆ f.preorder :=
      List.append_subset.mpr ⟨f.roots_subset_preorder, hheld⟩
    rw [← hstart, ← hstop] at hf
    have hnode := hf.alloc h.frame.tree hchildren (List.Subset.trans hids hall) hon
    rw [hstart, hstop] at hnode
    exact ⟨.node s'.tree.size f .nil, rfl, List.Subset.trans hall (by simp [Forest.preorder]), hnode⟩

end Growth
end Parse
end ScriptLint
