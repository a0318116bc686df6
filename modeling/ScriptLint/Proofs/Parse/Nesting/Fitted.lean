import ScriptLint.Proofs.Parse.Template
import ScriptLint.Proofs.Tree.Nesting

namespace ScriptLint

/-- A word that stands in place is what is written there. -/
theorem Placed.wordAt {text : List Char} {t : Token} {span : Span} (h : Placed text t span)
    {word : String} (hword : t.word? = some word) : WordAt text span word := by
  cases h with
  | mark => cases hword
  | template => cases hword
  | plain _ _ _ hplain => exact hplain word hword

/-- A token in quotes that stands in place is read there. -/
theorem Placed.tokenAt {text : List Char} {t : Token} {span : Span} (h : Placed text t span)
    {node : Node} (hquotes : node.Quotes t) : TokenAt text span t := by
  cases h with
  | mark => cases hquotes
  | template _ htoken => exact htoken
  | plain _ _ htemplate _ hstring =>
    cases hquotes with
    | string value => exact hstring value rfl
    | template _ _ parts => exact absurd rfl (htemplate parts)

/-- A node of which the text tells no more than what it holds: no name, no operator, no access or
call, and no string or template. -/
def Node.Plain (node : Node) : Prop :=
  (∀ ident, node ≠ .identifier ident) ∧ node.infix? = none ∧ node.applied? = none ∧
    node.isQuoted = false

/-- A plain construct that holds nodes at hand: what was read, or what was bound where it binds.
There is room for it when the nodes have room for `k` brackets and the construct for `k'`. -/
def Node.Encloses (node : Node) (k k' : Nat) (free bound : List NodeId) : Prop :=
  k + node.cost false ≤ k' ∧
    (∀ c ∈ node.children, c ∈ free ∨ c ∈ bound ∧ c ∈ node.bindings false) ∧ node.Plain

/-- What the nodes of names, operators, accesses and calls, strings and templates say of the text: a
name is spelled where it stands, an operator is written between its operands, an access or a call goes
on after what it is applied to, and a string or a template is read where it stands. -/
structure Tree.Written (t : Tree) (text : List Char) (node : Node) (span : Span) : Prop where
  name : ∀ ident, node = .identifier ident → WordAt text span ident.name
  operator : ∀ operator left right, node.infix? = some (operator, left, right) →
    operator.isAngled = false → t.Between text operator left right
  application : ∀ object, node.applied? = some object → ∃ q, t.range object = some q ∧
    q.start = span.start ∧ q.stop < span.stop
  quoted : node.isQuoted = true → ∃ token, node.Quotes token ∧ TokenAt text span token

theorem Tree.Written.plain {t : Tree} {text : List Char} {node : Node} {span : Span}
    (h : node.Plain) : t.Written text node span :=
  ⟨fun ident hident => absurd hident (h.1 ident), by simp [h.2.1], by simp [h.2.2.1],
    by simp [h.2.2.2]⟩

namespace Parse

open ScriptLint.Parser

variable {α β : Type} {b s s' : State} {k k' : Nat} {free bound free' bound' : List NodeId}

namespace State

/-- The tokens stand in place, and the state is no deeper than parsers go. -/
structure Steady (s : State) : Prop where
  ready : s.Ready
  depth_le : s.depth ≤ maxDepth

/-- The brackets that there is room for at this depth, and `k` more. -/
def room (s : State) (k : Nat) : Nat := maxDepth + k - s.depth

theorem room_mono (s : State) (h : k ≤ k') : s.room k ≤ s.room k' :=
  Nat.sub_le_sub_right (Nat.add_le_add_left h _) _

theorem Steady.room_add (h : s.Steady) (k n : Nat) : s.room (k + n) = s.room k + n := by
  have hdepth := h.depth_le
  unfold room
  omega

theorem Ready.tokenAt (hs : s.Ready) {node : Node} (h : node.Quotes s.current) :
    TokenAt s.source s.currentSpan s.current := by
  obtain ⟨a, ha, hspan, hcurrent⟩ := hs.token
  rw [hspan, hcurrent]
  exact (hs.placed s.pos a ha).tokenAt (hcurrent ▸ h)

theorem Ready.wordAt (hs : s.Ready) {word : String} (hword : s.current.word? = some word) :
    WordAt s.source s.currentSpan word := by
  obtain ⟨a, ha, hspan, hcurrent⟩ := hs.token
  rw [hspan]
  exact (hs.placed s.pos a ha).wordAt (hcurrent ▸ hword)

end State

theorem Frame.steady (h : Frame b s) (hb : b.Steady) : s.Steady :=
  ⟨h.ready hb.ready, h.depth.trans_le hb.depth_le⟩

theorem Frame.room (h : Frame b s) (k : Nat) : s.room k = b.room k := by
  rw [State.room, State.room, h.depth]

/-- From `b` to `s` a parser made the nodes `free`, which are read, and `bound`, which are bound,
and all of them fit into the room for `k` brackets more than the depth leaves. -/
structure Fitted (b s : State) (k : Nat) (free bound : List NodeId) : Prop where
  frame : Frame b s
  fresh : ∀ i ∈ free ++ bound, b.tree.size ≤ i
  free_fits : b.Steady → ∀ i ∈ free, s.tree.Fits b.source false (b.room k) i
  bound_fits : b.Steady → ∀ i ∈ bound, s.tree.Fits b.source true (b.room k) i

/-- The nodes that a parser makes fit: those that `free` finds in its value and those that `bound`
finds there. -/
def Nests (p : Parser α) (k : Nat) (free bound : α → List NodeId) : Prop :=
  ∀ s, Leads s s p fun a s' => Fitted s s' k (free a) (bound a)

/-- A parser that makes one node that is read. -/
abbrev NestsNode (p : Parser NodeId) (k : Nat) : Prop := Nests p k (fun id => [id]) fun _ => []

/-- A parser that makes one node that is bound. -/
abbrev NestsBinding (p : Parser NodeId) : Prop := Nests p 0 (fun _ => []) fun id => [id]

namespace Fitted

/-- A parser that makes no nodes. -/
theorem of_frame (h : Frame b s) : Fitted b s k [] [] := ⟨h, by simp, by simp, by simp⟩

theorem refl (s : State) : Fitted s s k [] [] := of_frame (.refl s)

/-- Some of the nodes, in more room. A node that is read can be taken as one that is bound. -/
theorem weaken (h : Fitted b s k free bound) (hk : k ≤ k') (hfree : free' ⊆ free)
    (hbound : bound' ⊆ free ++ bound) : Fitted b s k' free' bound' where
  frame := h.frame
  fresh i hi := by
    rcases List.mem_append.mp hi with hi | hi
    · exact h.fresh i (List.mem_append_left _ (hfree hi))
    · exact h.fresh i (hbound hi)
  free_fits hb i hi := (h.free_fits hb i (hfree hi)).more (b.room_mono hk)
  bound_fits hb i hi := by
    rcases List.mem_append.mp (hbound hi) with hi | hi
    · exact (h.free_fits hb i hi).bind.more (b.room_mono hk)
    · exact (h.bound_fits hb i hi).more (b.room_mono hk)

/-- Some of the nodes. -/
theorem sub (h : Fitted b s k free bound) (hfree : free' ⊆ free) (hbound : bound' ⊆ bound) :
    Fitted b s k free' bound' :=
  h.weaken le_rfl hfree (List.subset_append_of_subset_right _ hbound)

/-- Nodes of which it is known apart that they fit. -/
theorem merge (h : Fitted b s k free bound) (h' : Fitted b s k free' bound') :
    Fitted b s k (free ++ free') (bound ++ bound') where
  frame := h.frame
  fresh i hi := by
    simp only [List.mem_append] at hi
    rcases hi with (hi | hi) | (hi | hi)
    · exact h.fresh i (List.mem_append_left _ hi)
    · exact h'.fresh i (List.mem_append_left _ hi)
    · exact h.fresh i (List.mem_append_right _ hi)
    · exact h'.fresh i (List.mem_append_right _ hi)
  free_fits hb i hi := (List.mem_append.mp hi).elim (h.free_fits hb i) (h'.free_fits hb i)
  bound_fits hb i hi := (List.mem_append.mp hi).elim (h.bound_fits hb i) (h'.bound_fits hb i)

/-- The same nodes after other parsers. -/
theorem later (h : Fitted b s k free bound) (hframe : Frame s s') : Fitted b s' k free bound where
  frame := h.frame.trans hframe
  fresh := h.fresh
  free_fits hb i hi := (h.free_fits hb i hi).continues hframe.tree.toContinues
  bound_fits hb i hi := (h.bound_fits hb i hi).continues hframe.tree.toContinues

/-- The nodes of a parser that began after others. -/
theorem rebase (h : Fitted s s' k free bound) (hframe : Frame b s) : Fitted b s' k free bound where
  frame := hframe.trans h.frame
  fresh i hi := hframe.tree.size_le.trans (h.fresh i hi)
  free_fits hb i hi := by
    rw [← hframe.source, ← hframe.room]
    exact h.free_fits (hframe.steady hb) i hi
  bound_fits hb i hi := by
    rw [← hframe.source, ← hframe.room]
    exact h.bound_fits (hframe.steady hb) i hi

/-- What one parser made and what the next one made after it. -/
theorem append (h : Fitted b s k free bound) (h' : Fitted s s' k' free' bound') (hk : k' ≤ k) :
    Fitted b s' k (free ++ free') (bound ++ bound') := by
  have hnew := (h'.rebase h.frame).weaken hk (List.Subset.refl _) (List.subset_append_right _ _)
  exact (h.later h'.frame).merge hnew

/-- Runs a parser after what was read so far. -/
theorem run {p : Parser α} {out out' : α → List NodeId} (h : Fitted b s k free bound)
    (hp : Nests p k out out') :
    Leads b s p fun a s' => Fitted b s' k (free ++ out a) (bound ++ out' a) :=
  ((hp s).rebase h.frame).mono fun _ _ h' => h.append h' le_rfl

/-- Runs a parser that needs no room below the level that is counted. -/
theorem run_zero {p : Parser α} {out out' : α → List NodeId} (h : Fitted b s k free bound)
    (hp : Nests p 0 out out') :
    Leads b s p fun a s' => Fitted b s' k (free ++ out a) (bound ++ out' a) :=
  ((hp s).rebase h.frame).mono fun _ _ h' => h.append h' (Nat.zero_le k)

/-- Runs a parser and drops the nodes it makes. -/
theorem drop {p : Parser α} {out out' : α → List NodeId} (h : Fitted b s k free bound)
    (hp : Nests p k' out out') : Leads b s p fun _ s' => Fitted b s' k free bound :=
  ((hp s).rebase h.frame).mono fun _ _ h' => h.later h'.frame

/-- Runs a parser that makes no nodes. -/
theorem pass {p : Parser α} {m : Bool} {out : α → List NodeId} (h : Fitted b s k free bound)
    (hp : Grows p m out) : Leads b s p fun _ s' => Fitted b s' k free bound :=
  ((hp s).rebase h.frame).mono fun _ _ h' => h.later h'.frame

end Fitted

theorem Nests.of_leads {p : Parser α} {out out' : α → List NodeId}
    (h : ∀ s, Fitted s s k [] [] → Leads s s p fun a s' => Fitted s s' k (out a) (out' a)) :
    Nests p k out out' :=
  fun s => h s (.refl s)

theorem Nests.weaken {p : Parser α} {out out' : α → List NodeId} (hp : Nests p k out out')
    (hk : k ≤ k') : Nests p k' out out' :=
  fun s => (hp s).mono fun _ _ h => h.weaken hk (List.Subset.refl _) (List.subset_append_right _ _)

namespace Fitted

/-- A node around some of those made since `b`. The room for the new node is that for the others,
and for one bracket more if the node is one. -/
theorem alloc (h : Fitted b s k free bound) (node : Node) (span : Span)
    (hwritten : b.Steady → s.tree.Written b.source node span) (hk : k + node.cost false ≤ k')
    (hchildren : ∀ c ∈ node.children, c ∈ free ∨ c ∈ bound ∧ c ∈ node.bindings false) :
    Fitted b { s with tree := (s.tree.alloc node (some span)).2 } k' (s.tree.size :: free) bound := by
  have hmem : ∀ c ∈ node.children, c ∈ free ++ bound := fun c hc =>
    List.mem_append.mpr ((hchildren c hc).imp_right And.left)
  have hframe : Frame b { s with tree := (s.tree.alloc node (some span)).2 } :=
    h.frame.withTree (h.frame.tree.alloc fun c hc => h.fresh c (hmem c hc))
  have hcontinues := (Tree.Continues.refl s.tree).alloc node (some span)
  have hroom : b.room k ≤ b.room k' := b.room_mono (Nat.le_of_add_right_le hk)
  refine ⟨hframe, fun i hi => ?_, fun hb i hi => ?_, fun hb i hi =>
    ((h.bound_fits hb i hi).more hroom).continues hcontinues⟩
  · rcases List.mem_cons.mp hi with rfl | hi
    · exact h.frame.tree.size_le
    · exact h.fresh i hi
  · rcases List.mem_cons.mp hi with rfl | hi
    · have hadd := (hb.room_add k (node.cost false)).symm.trans_le (b.room_mono hk)
      refine .alloc (fun _ ident hident => ⟨span, rfl, (hwritten hb).name ident hident⟩)
        (fun hquoted => ⟨span, ?_⟩) (hwritten hb).operator (fun object hobject => ?_) (by omega) fun c hc => ?_
      · obtain ⟨token, hquotes, htoken⟩ := (hwritten hb).quoted hquoted
        exact ⟨token, rfl, hquotes, htoken⟩
      · obtain ⟨q, hq, hstart, hstop⟩ := (hwritten hb).application object hobject
        exact ⟨span, q, rfl, hq, hstart, hstop⟩
      rcases hchildren c hc with hc | ⟨hc, hbinds⟩
      · exact (h.free_fits hb c hc).mono (by simp) (by omega)
      · exact (h.bound_fits hb c hc).mono (fun _ => Node.binds_iff.mpr hbinds) (by omega)
    · exact ((h.free_fits hb i hi).more hroom).continues hcontinues

/-- A node that is bound takes up no room. -/
theorem alloc_bound (h : Fitted b s k free bound) {node : Node} {span : Span}
    (hcost : node.cost true = 0)
    (hplain : node.infix? = none ∧ node.applied? = none ∧ node.isQuoted = false)
    (hchildren : ∀ c ∈ node.children, c ∈ free ∨ c ∈ bound ∧ c ∈ node.bindings true) :
    Fitted b { s with tree := (s.tree.alloc node (some span)).2 } k free (s.tree.size :: bound) := by
  have hmem : ∀ c ∈ node.children, c ∈ free ++ bound := fun c hc =>
    List.mem_append.mpr ((hchildren c hc).imp_right And.left)
  have hframe : Frame b { s with tree := (s.tree.alloc node (some span)).2 } :=
    h.frame.withTree (h.frame.tree.alloc fun c hc => h.fresh c (hmem c hc))
  have hcontinues := (Tree.Continues.refl s.tree).alloc node (some span)
  refine ⟨hframe, fun i hi => ?_, fun hb i hi => (h.free_fits hb i hi).continues hcontinues,
    fun hb i hi => ?_⟩
  · simp only [List.mem_append, List.mem_cons] at hi
    rcases hi with hi | rfl | hi
    · exact h.fresh i (List.mem_append_left _ hi)
    · exact h.frame.tree.size_le
    · exact h.fresh i (List.mem_append_right _ hi)
  · rcases List.mem_cons.mp hi with rfl | hi
    · refine .alloc (by simp) (by simp [hplain.2.2]) (by simp [hplain.1]) (by simp [hplain.2.1])
        (by omega) fun c hc => ?_
      rcases hchildren c hc with hc | ⟨hc, hbinds⟩
      · exact (h.free_fits hb c hc).mono (by simp) (by omega)
      · exact (h.bound_fits hb c hc).mono (fun _ => Node.binds_iff.mpr hbinds) (by omega)
    · exact (h.bound_fits hb i hi).continues hcontinues

/-- Ends a construct around the nodes read since it began. -/
theorem finish (h : Fitted b s k free bound) {start : Span} {node : Node}
    (hnode : node.Encloses k k' free bound) :
    Leads b s (Parser.finish start node) fun id s' => Fitted b s' k' [id] [] := by
  have hall := h.alloc node (s.spanFrom start) (fun _ => .plain hnode.2.2) hnode.1
    hnode.2.1
  exact hall.sub (by simp) (by simp)

/-- Ends an operator around its operands, between which it is written. -/
theorem finish_infix (h : Fitted b s k free bound) {start : Span} {left right : NodeId}
    {operator : InfixOperator} (hleft : left ∈ free) (hright : right ∈ free)
    (hbetween : b.Steady → operator.isAngled = false → s.tree.Between b.source operator left right) :
    Leads b s (Parser.finish start (infixNode left right operator)) fun id s' =>
      Fitted b s' k [id] [] := by
  have hjoins : (infixNode left right operator).infix? = some (operator, left, right) := by
    cases operator <;> rfl
  have hcost : k + (infixNode left right operator).cost false ≤ k := by
    cases operator <;> exact le_rfl
  have hall := h.alloc (infixNode left right operator) (s.spanFrom start)
    (fun hb => ⟨by cases operator <;> simp [infixNode], ?_,
      by cases operator <;> simp [infixNode, Node.applied?],
      by cases operator <;> simp [infixNode, Node.isQuoted]⟩) hcost ?_
  · exact hall.sub (by simp) (by simp)
  · intro operator' left' right' hfound hangled
    cases hjoins.symm.trans hfound
    exact hbetween hb hangled
  · simp [Node.children_of_infix? hjoins, hleft, hright]

/-- Ends an access or a call after what it is applied to and what it holds besides. -/
theorem finish_applied (h : Fitted b s k free bound) {start : Span} {node : Node} {object : NodeId}
    (happlied : node.applied? = some object) (hchildren : ∀ c ∈ node.children, c ∈ free)
    (hprolongs : b.Steady → ∃ q, s.tree.range object = some q ∧ q.start = (s.spanFrom start).start ∧
      q.stop < (s.spanFrom start).stop) :
    Leads b s (Parser.finish start node) fun id s' => Fitted b s' k [id] [] := by
  have hplain : (∀ ident, node ≠ .identifier ident) ∧ node.infix? = none ∧
      node.isQuoted = false ∧ node.cost false = 0 := by
    unfold Node.applied? at happlied
    split at happlied <;> simp_all [Node.infix?, Node.isQuoted, Node.cost, Node.isBracket]
  obtain ⟨hname, hjoins, hquoted, hcost⟩ := hplain
  have hall := h.alloc node (s.spanFrom start)
    (fun hb => ⟨fun ident hident => ?_, ?_, ?_, by simp [hquoted]⟩)
    (show k + node.cost false ≤ k by omega) (fun c hc => .inl (hchildren c hc))
  · exact hall.sub (by simp) (by simp)
  · exact absurd hident (hname ident)
  · simp [hjoins]
  · intro object' hobject'
    cases happlied.symm.trans hobject'
    exact hprolongs hb

/-- Ends a construct around some of the nodes read since it began; the others stay. -/
theorem finish_beside (h : Fitted b s k free bound) {start : Span} {node : Node}
    (hnode : node.Encloses k k free bound) :
    Leads b s (Parser.finish start node) fun id s' => Fitted b s' k (id :: free) bound := by
  exact h.alloc node _ (fun _ => .plain hnode.2.2) hnode.1 hnode.2.1

/-- Ends a part of a pattern that is bound. -/
theorem finish_bound (h : Fitted b s k free bound) {start : Span} {node : Node}
    (hcost : node.cost true = 0)
    (hplain : node.infix? = none ∧ node.applied? = none ∧ node.isQuoted = false)
    (hchildren : ∀ c ∈ node.children, c ∈ free ∨ c ∈ bound ∧ c ∈ node.bindings true) :
    Leads b s (Parser.finish start node) fun id s' => Fitted b s' k [] [id] :=
  Leads.mono (P := fun id s' => Fitted b s' k free (id :: bound)) (h.alloc_bound hcost hplain hchildren)
    fun _ _ h => h.sub (by simp) (by simp)

end Fitted

/-- A node of one token. A name is the word that stands there, and a string is that token. -/
theorem leads_fitted_leaf {node : Node} (hchildren : node.children = [])
    (hcost : node.cost false = 0)
    (hname : ∀ ident, node = .identifier ident → s.current.word? = some ident.name)
    (hquotes : node.isQuoted = true → node.Quotes s.current) :
    Leads s s.advance (Parser.alloc node s.currentSpan) fun id s' => Fitted s s' k [id] [] := by
  have hadvance : Fitted s s.advance k [] [] := .of_frame (.advance s)
  refine hadvance.alloc node s.currentSpan (fun hs => ⟨fun ident hident => ?_, ?_, ?_, ?_⟩)
    (by omega) (by simp [hchildren])
  · exact hs.ready.wordAt (hname ident hident)
  · intro operator left right hjoins
    simp [Node.children_of_infix? hjoins] at hchildren
  · intro object hobject
    have hmem := Node.mem_children_of_applied? hobject
    simp [hchildren] at hmem
  · intro hquoted
    exact ⟨_, hquotes hquoted, hs.ready.tokenAt (hquotes hquoted)⟩

/-- The depth and the meaning of `in` inside a parser do not show outside of it. -/
theorem Fitted.within {depth : Nat} {allowIn : Bool}
    (h : Fitted { s with depth, allowIn } s' k' free bound)
    (hdepth : s.depth ≤ maxDepth → depth ≤ maxDepth)
    (hroom : maxDepth + k' - depth ≤ s.room k) :
    Fitted s { s' with depth := s.depth, allowIn := s.allowIn } k free bound := by
  have hsteady : s.Steady → State.Steady { s with depth, allowIn } := fun hs =>
    ⟨hs.ready.congr rfl rfl hs.ready.pos_lt, hdepth hs.depth_le⟩
  exact ⟨h.frame.within, h.fresh, fun hs i hi => (h.free_fits (hsteady hs) i hi).more hroom,
    fun hs i hi => (h.bound_fits (hsteady hs) i hi).more hroom⟩

section Control

variable {p : Parser α} {out out' : α → List NodeId}

/-- One level deeper there is room for one bracket less. -/
theorem nests_nested (hp : Nests p (k + 1) out out') : Nests (nested p) k out out' := by
  intro s
  by_cases hdeep : maxDepth ≤ s.depth
  · simpa [Leads, nested, enter, hdeep] using Frame.refl s
  · have hrun := hp { s with depth := s.depth + 1 }
    have hback : ∀ s', Frame { s with depth := s.depth + 1 } s' →
        { s' with depth := s'.depth - 1 } = { s' with depth := s.depth, allowIn := s.allowIn } := by
      intro s' h
      have hdepth : s'.depth - 1 = s.depth := by simp [h.depth]
      rw [hdepth, ← h.allowIn]
    simp only [Leads, nested, enter, if_neg hdeep] at hrun ⊢
    split at hrun
    · next a s' heq =>
      simp only [heq, hback s' hrun.frame]
      exact hrun.within (by omega) (by unfold State.room; omega)
    · next e s' heq =>
      simp only [heq, hback s' hrun]
      exact hrun.within

theorem nests_withIn (hp : Nests p k out out') (allowIn : Bool) :
    Nests (withIn allowIn p) k out out' := by
  intro s
  have hrun := hp { s with allowIn }
  have hback : ∀ s', Frame { s with allowIn } s' →
      { s' with allowIn := s.allowIn } = { s' with depth := s.depth, allowIn := s.allowIn } := by
    intro s' h
    rw [← h.depth]
  simp only [Leads, withIn] at hrun ⊢
  split at hrun
  · next a s' heq =>
    simp only [heq, hback s' hrun.frame]
    exact hrun.within id le_rfl
  · next e s' heq =>
    simp only [heq, hback s' hrun]
    exact hrun.within

theorem nests_attempt (hp : Nests p k out out') :
    Nests (attempt p) k (fun found => (found.map out).getD []) fun found =>
      (found.map out').getD [] := by
  intro s
  have hrun := hp s
  unfold Leads at hrun ⊢
  split at hrun
  · next a s' heq =>
    simp only [attempt, heq]
    exact hrun
  · next e s' heq =>
    rw [attempt_eq hrun.kept heq]
    exact .of_frame hrun.withTokens

/-- A parser over tokens of its own, which stand in place like those around it. -/
theorem leads_fitted_withTokens (hp : Nests p k out out') {tokens : List SpannedToken}
    (h : Fitted b s k free bound)
    (hplaced : b.Ready → ∃ lo hi, TokensPlaced b.source lo hi tokens) :
    Leads b s (withTokens tokens p) fun a s' =>
      Fitted b s' k (free ++ out a) (bound ++ out' a) := by
  have hrun := nests_withIn hp true { s with tokens := tokens.toArray, pos := 0 }
  have hback : ∀ s', Frame { s with tokens := tokens.toArray, pos := 0 } s' →
      Frame s { s' with tokens := s.tokens, pos := s.pos } :=
    fun s' h => ⟨h.source, .refl _, le_rfl, id, h.tree, h.errors, h.depth, h.allowIn⟩
  have hsteady : b.Steady → State.Steady { s with tokens := tokens.toArray, pos := 0 } := by
    intro hb
    obtain ⟨lo, hi, htokens⟩ := hplaced hb.ready
    rw [← h.frame.source] at htokens
    exact ⟨State.ready_of_placed htokens rfl rfl, (h.frame.steady hb).depth_le⟩
  simp only [Leads, withTokens] at hrun ⊢
  split at hrun
  · next a s' heq =>
    simp only [heq]
    have hframe := hback s' hrun.frame
    refine (h.later hframe).merge ⟨h.frame.trans hframe,
      fun i hi => h.frame.tree.size_le.trans (hrun.fresh i hi), ?_, ?_⟩
    · intro hb
      rw [← h.frame.source, ← h.frame.room]
      exact hrun.free_fits (hsteady hb)
    · intro hb
      rw [← h.frame.source, ← h.frame.room]
      exact hrun.bound_fits (hsteady hb)
  · next e s' heq =>
    simp only [heq]
    exact h.frame.trans (hback s' hrun)

theorem nests_itemsUntil (close : Punct) (hp : Nests p k out out') :
    Nests (itemsUntil close p) k (fun items => items.flatMap out) fun items =>
      items.flatMap out' := by
  refine .of_leads fun s h => ?_
  unfold itemsUntil
  refine .loop_bind (fun items s' => Fitted s s' k (items.reverse.flatMap out)
    (items.reverse.flatMap out')) h (fun _ _ h => h.frame) (fun items s' h => ?_)
    fun items s' h => .pure h
  refine .ask_bind (.ask_bind (.ite (fun _ => .pure h) fun _ => ?_))
  refine (h.run hp).bind fun item s' h => .pure ?_
  simpa [Leads.Turn] using h

theorem nests_commaSeparated (close : Punct) (hp : Nests p k out out') :
    Nests (commaSeparated close p) k (fun items => items.flatMap out) fun items =>
      items.flatMap out' := by
  refine nests_itemsUntil close (.of_leads fun s h => ?_)
  refine (h.run hp).bind fun item s' h => .ask_bind ?_
  exact .when_bind (P := fun s' => Fitted s s' k (out item) (out' item))
    (fun _ => h.pass (grows_expect .comma)) (fun _ => h) fun s' h => .pure h

theorem nests_separatedBy (mark : Punct) {p : Parser NodeId} (hp : NestsNode p k) :
    Nests (separatedBy mark p) k id fun _ => [] := by
  refine .of_leads fun s h => ?_
  unfold separatedBy
  refine (h.run hp).bind fun first s' h => ?_
  refine .loop_bind (fun items s' => Fitted s s' k items.reverse []) h (fun _ _ h => h.frame)
    (fun items s' h => ?_) fun items s' h => .pure h
  refine (h.pass (grows_eatIf _)).bind fun eaten s' h => .ite (fun _ => ?_) fun _ => .pure h
  refine (h.run hp).bind fun item s' h => .pure ?_
  simpa [Leads.Turn] using h

theorem nests_optionally {test : Parser Bool} {p : Parser NodeId} {m : Bool}
    {out : Bool → List NodeId} (htest : Grows test m out) (hp : NestsNode p k) :
    Nests (optionally test p) k Option.toList fun _ => [] := by
  refine .of_leads fun s h => ?_
  unfold optionally
  refine (h.pass htest).bind fun found s' h => .ite (fun _ => ?_) fun _ => .pure h
  exact (h.run hp).bind fun item s' h => .pure h

end Control
end Parse
end ScriptLint
