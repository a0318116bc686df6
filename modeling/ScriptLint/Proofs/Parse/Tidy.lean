import ScriptLint.Proofs.Parse.Climbing
import ScriptLint.Proofs.Tree.Nesting
import ScriptLint.Proofs.Parse.TypeEnd

namespace ScriptLint

open Parse (afterClosingAngle)

/-- The text of a span ends with a character. -/
def Span.EndsWith (span : Span) (text : List Char) (c : Char) : Prop :=
  ∃ w, slice? text span.start span.stop = some (w ++ [c])

/-- The next mark after an offset is longer than the closing angle that it begins with. -/
def CutAfter (text : List Char) (stop : Nat) : Prop :=
  ∃ mark span, Placed text (.punct mark) span ∧ GapAt text stop span.start ∧
    (afterClosingAngle (.punct mark)).isSome

/-- A span of a type with arguments ends with a closing angle, or one was taken from the mark after
it. -/
def Closes (text : List Char) (span : Span) : Prop :=
  span.EndsWith text '>' ∨ CutAfter text span.stop

section Spans

variable {text : List Char} {span range : Span} {c : Char}

theorem Placed.endsWith {mark : Punct} (h : Placed text (.punct mark) span)
    (hmark : mark.spelling.toList = [c]) : span.EndsWith text c := by
  cases h with
  | mark m a b htext =>
    refine ⟨[], slice?_eq_some_iff.mpr ⟨a, b, ?_, ?_, ?_⟩⟩
    · rw [← htext, hmark, List.nil_append]
    · simp [Span.between]
    · simp [Span.between, hmark]
  | plain _ hmark => exact absurd rfl (hmark mark)

/-- A longer span with the same end ends with the same character. -/
theorem Span.EndsWith.widen (h : span.EndsWith text c) (hspan : (position? text span.start).isSome)
    (hrange : (position? text range.start).isSome) (hstart : range.start ≤ span.start)
    (hstop : range.stop = span.stop) : range.EndsWith text c := by
  obtain ⟨w, hw⟩ := h
  have hbefore := slice?_isSome_of_position? hstart hrange hspan
  obtain ⟨x, hx⟩ := Option.isSome_iff_exists.mp hbefore
  refine ⟨x ++ w, ?_⟩
  rw [hstop, slice?_append hx hw, List.append_assoc]

theorem Span.On.isSome_position (h : span.On text) : (position? text span.start).isSome := by
  rw [h.position_start, Option.isSome_some]

/-- A mark at the end of a span ends it. -/
theorem Placed.endsWith_range {mark : Punct} (h : Placed text (.punct mark) span)
    (hmark : mark.spelling.toList = [c]) (hrange : range.On text)
    (hstart : range.start ≤ span.start)
    (hstop : range.stop = span.stop) : range.EndsWith text c :=
  (h.endsWith hmark).widen h.span_on.isSome_position hrange.isSome_position hstart hstop

end Spans

namespace Tree

variable {t t' : Tree} {text : List Char} {span : Span} {node : Node}

/-- The node is an annotation at the end of a range. -/
def Ascribes (t : Tree) (ascription : NodeId) (range : Span) : Prop :=
  ∃ type inner, (t.node ascription).ascribed? = some type ∧ t.range ascription = some inner ∧
    range.stop = max inner.stop range.start

/-- What of a tree ends where a type does ends in the right place. -/
structure Tidy (t : Tree) (text : List Char) : Prop where
  reference : ∀ i range, (t.node i).typeArguments ≠ [] → t.range i = some range → Closes text range
  ascription : ∀ i type, (t.node i).ascribed? = some type → type < t.size ∧
    ((t.node type).typeArguments ≠ [] → ∀ range inner, t.range i = some range →
      t.range type = some inner → range.stop = inner.stop ∨ range.EndsWith text ')')
  binding : ∀ i ascription range, (t.node i).ascription? = some ascription →
    t.range i = some range → t.Ascribes ascription range

theorem range_alloc (t : Tree) (node : Node) (span : Span) (i : NodeId) :
    (t.alloc node (some span)).2.range i = if i = t.size then some span else t.range i := by
  simp only [Tree.range, entry?_alloc]
  split <;> rfl

theorem Ascribes.alloc {ascription : NodeId} {range : Span} (h : t.Ascribes ascription range)
    (node : Node) (span : Span) : (t.alloc node (some span)).2.Ascribes ascription range := by
  obtain ⟨type, inner, hnode, hrange, hstop⟩ := h
  have hlt : ascription < t.size := by
    refine lt_size_of_node_ne fun hmissing => ?_
    rw [hmissing] at hnode
    cases hnode
  refine ⟨type, inner, ?_, ?_, hstop⟩
  · rw [node_alloc, if_neg hlt.ne, hnode]
  · rw [range_alloc, if_neg hlt.ne, hrange]

/-- A node is added that ends in the right place. -/
theorem Tidy.alloc (h : t.Tidy text) (hreference : node.typeArguments ≠ [] → Closes text span)
    (hascription : ∀ type, node.ascribed? = some type → type < t.size ∧
      ((t.node type).typeArguments ≠ [] → ∀ inner, t.range type = some inner →
        span.stop = inner.stop ∨ span.EndsWith text ')'))
    (hbinding : ∀ ascription, node.ascription? = some ascription → t.Ascribes ascription span) :
    (t.alloc node (some span)).2.Tidy text where
  reference i range harguments hrange := by
    rw [node_alloc] at harguments
    rw [range_alloc] at hrange
    split at hrange
    · next hi =>
      cases hrange
      exact hreference (by rwa [if_pos hi] at harguments)
    · next hi => exact h.reference i range (by rwa [if_neg hi] at harguments) hrange
  ascription i type hnode := by
    rw [node_alloc] at hnode
    split at hnode
    · next hi =>
      obtain ⟨hlt, hends⟩ := hascription type hnode
      refine ⟨size_alloc t node _ ▸ hlt.trans (Nat.lt_succ_self _),
        fun harguments range inner hrange hinner => ?_⟩
      rw [node_alloc, if_neg hlt.ne] at harguments
      rw [range_alloc, if_pos hi] at hrange
      rw [range_alloc, if_neg hlt.ne] at hinner
      cases hrange
      exact hends harguments inner hinner
    · next hi =>
      obtain ⟨hlt, hends⟩ := h.ascription i type hnode
      refine ⟨size_alloc t node _ ▸ hlt.trans (Nat.lt_succ_self _),
        fun harguments range inner hrange hinner => ?_⟩
      rw [node_alloc, if_neg hlt.ne] at harguments
      rw [range_alloc, if_neg hi] at hrange
      rw [range_alloc, if_neg hlt.ne] at hinner
      exact hends harguments range inner hrange hinner
  binding i ascription range hnode hrange := by
    rw [node_alloc] at hnode
    rw [range_alloc] at hrange
    split at hnode
    · next hi =>
      rw [if_pos hi] at hrange
      cases hrange
      exact (hbinding ascription hnode).alloc node span
    · next hi =>
      rw [if_neg hi] at hrange
      exact (h.binding i ascription range hnode hrange).alloc node span

theorem Tidy.alloc_untyped (h : t.Tidy text) (hnode : node.Untyped) (span : Span) :
    (t.alloc node (some span)).2.Tidy text := by
  refine h.alloc (fun hne => absurd hnode.typeArguments hne) (fun type hsome => ?_)
    fun ascription hsome => ?_
  · rw [hnode.ascribed?] at hsome
    cases hsome
  · rw [hnode.ascription?] at hsome
    cases hsome

/-- A change after which types with arguments and annotations are what they were, and all bindings
end with annotations that were there before. -/
theorem Tidy.congr (h : t.Tidy text) (hsize : t'.size = t.size)
    (harguments : ∀ i, (t'.node i).typeArguments = (t.node i).typeArguments)
    (hascribed : ∀ i, (t'.node i).ascribed? = (t.node i).ascribed?)
    (hrange : ∀ i, (t.node i).typeArguments ≠ [] ∨ (t.node i).ascribed? ≠ none →
      t'.range i = t.range i)
    (hbinding : ∀ i ascription range, (t'.node i).ascription? = some ascription →
      t'.range i = some range → t.Ascribes ascription range) : t'.Tidy text where
  reference i range hne hi := by
    rw [harguments] at hne
    rw [hrange i (.inl hne)] at hi
    exact h.reference i range hne hi
  ascription i type hnode := by
    rw [hascribed] at hnode
    obtain ⟨hlt, hends⟩ := h.ascription i type hnode
    refine ⟨hlt.trans_eq hsize.symm, fun hne range inner hi hinner => ?_⟩
    rw [harguments] at hne
    rw [hrange i (.inr (by simp [hnode]))] at hi
    rw [hrange type (.inl hne)] at hinner
    exact hends hne range inner hi hinner
  binding i ascription range hsome hi := by
    obtain ⟨type, inner, hnode, hinner, hstop⟩ := hbinding i ascription range hsome hi
    refine ⟨type, inner, (hascribed ascription).trans hnode, ?_, hstop⟩
    rw [hrange ascription (.inr (by simp [hnode])), hinner]

theorem Relinked.tidy (h : Relinked t t') (htidy : t.Tidy text) : t'.Tidy text := by
  refine htidy.congr h.size (fun i => by rw [h.node]) (fun i => by rw [h.node])
    (fun i _ => h.range i) fun i ascription range hsome hi => ?_
  rw [h.node] at hsome
  rw [h.range] at hi
  exact htidy.binding i ascription range hsome hi

theorem untyped_of_asTarget {target : Node} (h : node.asTarget = some target) :
    node.Untyped ∧ target.Untyped := by
  unfold Node.asTarget at h
  split at h <;> cases h <;> exact ⟨⟨rfl, rfl, rfl⟩, ⟨rfl, rfl, rfl⟩⟩

/-- A node that becomes a target is no type with arguments, no annotation and no binding with one,
and neither is the target. -/
theorem Retagged.untyped_or {changed : NodeId → Prop} (h : Retagged changed t t') (i : NodeId) :
    t'.node i = t.node i ∨ (t.node i).Untyped ∧ (t'.node i).Untyped := by
  rcases h.node i with heq | ⟨-, heq⟩
  · exact .inl heq
  · cases htarget : (t.node i).asTarget with
    | none => exact .inl (heq.trans (Node.retagged_of_asTarget_eq_none htarget))
    | some target =>
      rw [heq, Node.retagged_of_asTarget htarget]
      exact .inr (untyped_of_asTarget htarget)

theorem Retagged.tidy {changed : NodeId → Prop} (h : Retagged changed t t') (htidy : t.Tidy text) :
    t'.Tidy text := by
  refine htidy.congr h.size (fun i => ?_) (fun i => ?_) (fun i _ => h.range i)
    fun i ascription range hsome hi => ?_
  · rcases h.untyped_or i with heq | ⟨hold, hnew⟩
    · rw [heq]
    · rw [hold.typeArguments, hnew.typeArguments]
  · rcases h.untyped_or i with heq | ⟨hold, hnew⟩
    · rw [heq]
    · rw [hold.ascribed?, hnew.ascribed?]
  · rcases h.untyped_or i with heq | ⟨-, hnew⟩
    · rw [heq] at hsome
      rw [h.range] at hi
      exact htidy.binding i ascription range hsome hi
    · rw [hnew.ascription?] at hsome
      cases hsome

end Tree

theorem Node.Bare.ne_missing {node : Node} (h : node.Bare) : node ≠ .missing := by
  rintro rfl
  simpa [Node.missing, Parse.annotated, Node.children] using h.children false (some 0)

/-- A binding that has no annotation yet is given one, and is nothing else before and after that. -/
theorem Node.Bare.annotated {node : Node} (h : node.Bare) (optional : Bool)
    (ascription : Option NodeId) : node.typeArguments = [] ∧ node.ascribed? = none ∧
      (Parse.annotated optional ascription node).typeArguments = [] ∧
      (Parse.annotated optional ascription node).ascribed? = none ∧
      (Parse.annotated optional ascription node).ascription? = ascription := by
  have hchildren := h.children false (some 0)
  unfold Parse.annotated at hchildren ⊢
  split at hchildren
  · exact ⟨rfl, rfl, rfl, rfl, rfl⟩
  · exact ⟨rfl, rfl, rfl, rfl, rfl⟩
  · exact ⟨rfl, rfl, rfl, rfl, rfl⟩
  · simp at hchildren

end ScriptLint
