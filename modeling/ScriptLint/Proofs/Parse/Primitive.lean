import ScriptLint.Proofs.Parse.Logic

namespace ScriptLint
namespace Parse

open ScriptLint.Parser

variable {α : Type} {b s s' : State} {m : Bool} {ids held : List NodeId} {p : Parser α}
  {out : α → List NodeId}

theorem pos_advance (hs : s.Ready) (heof : s.current.isEof = false) :
    s.advance.pos = s.pos + 1 := by
  obtain ⟨a, ha, _, hcurrent⟩ := hs.token
  have hlt : s.pos + 1 < s.tokens.size := by
    by_contra hge
    have hlast : s.pos + 1 = s.tokens.size := le_antisymm hs.pos_lt (not_lt.mp hge)
    rw [hcurrent, hs.last s.pos a ha hlast] at heof
    simp [Token.isEof] at heof
  simp [State.advance, hlt]

/-- Taking any token but the last one moves the cursor. -/
theorem grown_advance (heof : s.current.isEof = false) : Grown s s.advance true [] := by
  refine .of_moved (.advance s) fun hs => ?_
  rw [pos_advance hs heof]
  exact Nat.lt_succ_self _

theorem tokens_advance (s : State) : s.advance.tokens = s.tokens := by
  unfold State.advance
  split <;> rfl

/-- A construct of one token has the range of the token. -/
theorem spanFrom_advance (hs : s.Ready) (heof : s.current.isEof = false) :
    s.advance.spanFrom s.currentSpan = s.currentSpan := by
  obtain ⟨a, ha, hspan, _⟩ := hs.token
  have hon := (hs.span_on ha).start_le_stop
  simp [State.spanFrom, pos_advance hs heof, tokens_advance, ha, hspan, Span.extendTo,
    max_eq_left hon]

theorem grows_skip : GrowsNone skip false := fun s => Growth.of_frame (.advance s)

theorem grows_advance : GrowsNone Parser.advance false := fun s => Growth.of_frame (.advance s)

/-- Takes a token that is known not to be the last one. -/
theorem Growth.take (h : Growth b s m ids held) (heof : s.current.isEof = false) :
    Leads b s skip fun _ s' => Growth b s' true ids held := by
  have hgrowth := h.append (grown_advance heof)
  simp only [List.append_nil, Bool.or_true] at hgrowth
  exact hgrowth

theorem grows_eatIf (test : Token → Bool) : GrowsNone (eatIf test) false := by
  intro s
  by_cases htest : test s.current
  · simpa [Leads, eatIf, htest] using Growth.of_frame (.advance s)
  · simpa [Leads, eatIf, htest] using Growth.refl s

/-- A parser that takes the current token if a test holds of it that the end does not pass. -/
theorem grows_expecting {test : Token → Bool} (heof : test .eof = false) {value : State → α}
    {error : State → ParseError} :
    GrowsNone (fun s => if test s.current then (.ok (value s), s.advance) else (.error (error s), s))
      true := by
  intro s
  by_cases htest : test s.current
  · have hne : s.current.isEof = false := by
      cases hcurrent : s.current <;> simp_all [Token.isEof]
    simpa [Leads, htest] using grown_advance hne
  · simpa [Leads, htest] using Frame.refl s

theorem grows_expect (mark : Punct) : GrowsNone (expect mark) true :=
  grows_expecting rfl

theorem grows_expectKeyword (word : Keyword) : GrowsNone (expectKeyword word) true :=
  grows_expecting rfl

theorem grows_expectName (name : String) : GrowsNone (expectName name) true :=
  grows_expecting rfl

theorem grows_consumeSemicolon : GrowsNone consumeSemicolon false := by
  intro s
  unfold Leads consumeSemicolon
  split
  · next h =>
    split at h
    · cases h
      exact .of_frame (.advance s)
    · split at h
      · cases h
        exact .refl s
      · cases h
  · next h =>
    split at h
    · cases h
    · split at h
      · cases h
      · cases h
        exact .refl s

/-- Ends a construct whose children are the nodes read since it began; these are held by it. -/
theorem Growth.finish_held (h : Growth b s m ids held) {node : Node} (hchildren : node.children = ids)
    (hids : node.ids ⊆ ids ++ held) (hmoved : m = true ∨ ids ≠ []) :
    Leads b s (Parser.finish b.currentSpan node) fun id s' => Growth b s' true [id] (ids ++ held) :=
  h.alloc node (fun _ => rfl) hchildren hids hmoved

/-- Ends a construct whose children are the nodes read since it began. -/
theorem Growth.finish (h : Growth b s m ids held) {node : Node} (hchildren : node.children = ids)
    (hshares : node.sharesFields = false) (hmoved : m = true ∨ ids ≠ []) :
    Leads b s (Parser.finish b.currentSpan node) fun id s' => Grown b s' false [id] := by
  have hids : node.ids ⊆ ids ++ held := by
    intro i hi
    rw [← hchildren]
    exact List.mem_append_left _ (Node.mem_children_of_mem_ids hshares hi)
  exact (h.finish_held hchildren hids hmoved).mono fun _ _ h => h.done rfl

theorem leads_alloc_node (node : Node) (span : Span) :
    Leads b s (Parser.alloc node span) fun id s' => s'.tree.node id = node := by
  have hentry := Tree.entry?_alloc s.tree node (some span) s.tree.size
  rw [if_pos rfl] at hentry
  exact Tree.node_of_entry hentry

theorem leads_finish_node (start : Span) (node : Node) :
    Leads b s (Parser.finish start node) fun id s' => s'.tree.node id = node :=
  leads_alloc_node (b := b) node (s.spanFrom start)

/-- A node of one token. -/
theorem leads_leaf {node : Node} (heof : s.current.isEof = false) (hchildren : node.children = [])
    (hids : node.ids = []) :
    Leads s s.advance (Parser.alloc node s.currentSpan) fun id s' => Grown s s' false [id] := by
  have hgrowth := (grown_advance heof).alloc node (fun hs => (spanFrom_advance hs heof).symm)
    hchildren (by simp [hids]) (.inl rfl)
  exact hgrowth.weaken (by simp) (List.nil_subset _)

/-- The depth and the meaning of `in` inside a parser do not show outside of it. -/
theorem Frame.within {depth : Nat} {allowIn : Bool} (h : Frame { s with depth, allowIn } s') :
    Frame s { s' with depth := s.depth, allowIn := s.allowIn } where
  source := h.source
  tokens := h.tokens
  pos_le := h.pos_le
  pos_lt := h.pos_lt
  tree := h.tree
  errors := h.errors
  depth := rfl
  allowIn := rfl

theorem Growth.within {depth : Nat} {allowIn : Bool}
    (h : Growth { s with depth, allowIn } s' m ids held) :
    Growth s { s' with depth := s.depth, allowIn := s.allowIn } m ids held where
  frame := h.frame.within
  fresh := h.fresh
  moved hs := h.moved (hs.congr rfl rfl hs.pos_lt)
  sown hs := h.sown (hs.congr rfl rfl hs.pos_lt)

theorem grows_nested (hp : Grows p m out) : Grows (nested p) m out := by
  intro s
  by_cases hdeep : maxDepth ≤ s.depth
  · simpa [Leads, nested, enter, hdeep] using Frame.refl s
  · have hrun := hp { s with depth := s.depth + 1 }
    have hback : ∀ s', Frame { s with depth := s.depth + 1 } s' →
        { s' with depth := s'.depth - 1 } = { s' with depth := s.depth, allowIn := s.allowIn } := by
      intro s' h
      have hdepth : s'.depth - 1 = s.depth := by simp [h.depth]
      rw [hdepth, ← h.allowIn]
    simp only [Leads, nested, enter, if_neg hdeep] at hrun ⊢
    split at hrun
    · next a s' heq =>
      simp only [heq, hback s' hrun.frame]
      exact hrun.within
    · next e s' heq =>
      simp only [heq, hback s' hrun]
      exact hrun.within

theorem grows_withIn (hp : Grows p m out) (allowIn : Bool) : Grows (withIn allowIn p) m out := by
  intro s
  have hrun := hp { s with allowIn }
  have hback : ∀ s', Frame { s with allowIn } s' →
      { s' with allowIn := s.allowIn } = { s' with depth := s.depth, allowIn := s.allowIn } := by
    intro s' h
    rw [← h.depth]
  simp only [Leads, withIn] at hrun ⊢
  split at hrun
  · next a s' heq =>
    simp only [heq, hback s' hrun.frame]
    exact hrun.within
  · next e s' heq =>
    simp only [heq, hback s' hrun]
    exact hrun.within

/-- A parser that fails under `attempt` leaves nothing behind but what remains of the tokens. -/
theorem attempt_eq (hkept : Kept s s') {e : ParseError} (hp : p s = (.error e, s')) :
    attempt p s = (.ok none, { s with tokens := s'.tokens }) := by
  have herrors : s'.errors.take s.errors.size = s.errors := by
    rw [hkept.errors]
    simp
  simp only [attempt, hp, hkept.tree.truncate_eq, herrors]
  rw [← hkept.source, ← hkept.allowIn]

theorem Frame.withTokens (h : Frame s s') : Frame s { s with tokens := s'.tokens } where
  source := rfl
  tokens := h.tokens
  pos_le := le_rfl
  pos_lt hlt := hlt.trans_eq h.tokens.size.symm
  tree := .refl _
  errors := rfl
  depth := rfl
  allowIn := rfl

theorem grows_attempt (hp : Grows p false out) :
    Grows (attempt p) false fun found => (found.map out).getD [] := by
  intro s
  have hrun := hp s
  unfold Leads at hrun ⊢
  split at hrun
  · next a s' heq =>
    simp only [attempt, heq]
    exact hrun
  · next e s' heq =>
    rw [attempt_eq hrun.kept heq]
    exact .of_frame hrun.withTokens

theorem grows_itemsUntil (close : Punct) (hp : Grows p false out) :
    Grows (itemsUntil close p) false fun items => items.flatMap out := by
  refine .of_leads fun s h => ?_
  unfold itemsUntil
  refine .loop_bind (fun items s' => Grown s s' false (items.reverse.flatMap out)) h
    (fun _ _ h => h.frame) (fun items s' h => ?_) fun items s' h => .pure h
  refine .ask_bind (.ask_bind (.ite (fun _ => .pure h) fun _ => ?_))
  refine (h.run hp).bind fun item s' h => .pure ?_
  simpa [Leads.Turn] using h

theorem grows_commaSeparated (close : Punct) (hp : Grows p false out) :
    Grows (commaSeparated close p) false fun items => items.flatMap out := by
  refine grows_itemsUntil close (.of_leads fun s h => ?_)
  refine (h.run hp).bind fun item s' h => .ask_bind ?_
  refine .when_bind (P := fun s' => Grown s s' false (out item)) (fun _ => ?_) (fun _ => ?_)
    fun s' h => .pure h
  · exact (h.run (grows_expect .comma)).mono fun _ s' h => h.done (by simp)
  · simpa using h

theorem grows_separatedBy (mark : Punct) {p : Parser NodeId} (hp : GrowsNode p) :
    Grows (separatedBy mark p) true id := by
  refine .of_leads fun s h => ?_
  unfold separatedBy
  refine (h.run hp).bind fun first s' h => ?_
  refine .loop_bind (fun items s' => Grown s s' true items.reverse) (h.weaken (by simp) (by simp))
    (fun _ _ h => h.frame) (fun items s' h => ?_) fun items s' h => .pure h
  refine (h.run (grows_eatIf _)).bind fun eaten s' h => ?_
  simp only [Bool.or_false, List.append_nil] at h
  refine .ite (fun _ => ?_) fun _ => .pure h
  refine (h.run hp).bind fun item s' h => .pure ?_
  simpa [Leads.Turn] using h

theorem grows_optionally {test : Parser Bool} {p : Parser NodeId} (htest : GrowsNone test false)
    (hp : GrowsNode p) : Grows (optionally test p) false Option.toList := by
  refine .of_leads fun s h => ?_
  unfold optionally
  refine (h.run htest).bind fun found s' h => ?_
  refine .ite (fun _ => ?_) fun _ => .pure h
  exact (h.run hp).bind fun item s' h => .pure h

end Parse
end ScriptLint
