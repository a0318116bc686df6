import ScriptLint.Parse.TypeExpr
import ScriptLint.Proofs.Token.Placed
import ScriptLint.Proofs.Tree.Extend

namespace ScriptLint
namespace Parse

/-- Whether the token can be what is left of another one. -/
def IsRemainder (t : Token) : Prop := ∃ t', afterClosingAngle t' = some t

/-- What remains of a token when closing angles are taken from its front. -/
inductive Remains : SpannedToken → SpannedToken → Prop where
  | whole (a : SpannedToken) : Remains a a
  | cut {a : SpannedToken} {t t' : Token} {span : Span} (h : Remains a (t, span))
      (hcut : afterClosingAngle t = some t') : Remains a (t', span.dropFirst)

theorem Remains.trans {a b c : SpannedToken} (h : Remains a b) (h' : Remains b c) :
    Remains a c := by
  induction h' with
  | whole => exact h
  | cut _ hcut ih => exact .cut ih hcut

theorem Remains.start_le {a b : SpannedToken} (h : Remains a b) : a.2.start ≤ b.2.start := by
  induction h with
  | whole => exact le_rfl
  | cut _ _ ih => exact ih.trans (Nat.le_succ _)

theorem Remains.stop_eq {a b : SpannedToken} (h : Remains a b) : b.2.stop = a.2.stop := by
  induction h with
  | whole => rfl
  | cut _ _ ih => exact ih

theorem Remains.eq_eof {a b : SpannedToken} (h : Remains a b) (ha : a.1 = .eof) : b = a := by
  induction h with
  | whole => rfl
  | cut _ hcut ih =>
    subst ih
    simp only at ha
    simp [ha, afterClosingAngle] at hcut

theorem Remains.eq {a b : SpannedToken} (h : Remains a b) (hwhole : ¬ IsRemainder b.1) : b = a := by
  cases h with
  | whole => rfl
  | cut _ hcut => exact absurd ⟨_, hcut⟩ hwhole

/-- A mark that can be taken apart is spelled with a closing angle first. -/
theorem spelling_of_afterClosingAngle {m : Punct} {t : Token}
    (h : afterClosingAngle (.punct m) = some t) :
    ∃ m', t = .punct m' ∧ m.spelling.toList = '>' :: m'.spelling.toList := by
  cases m <;> simp only [afterClosingAngle, reduceCtorEq, Option.some.injEq] at h <;> subst h <;>
    exact ⟨_, rfl, rfl⟩

/-- What is left of a mark stands where its spelling stands. -/
theorem placed_dropFirst {text : List Char} {t t' : Token} {span : Span}
    (h : Placed text t span) (hcut : afterClosingAngle t = some t') :
    Placed text t' span.dropFirst := by
  cases h with
  | mark m a b htext =>
    obtain ⟨m', rfl, hspelling⟩ := spelling_of_afterClosingAngle hcut
    have htext' : (a ++ ['>']) ++ m'.spelling.toList ++ b = text := by
      rw [← htext, hspelling]
      simp
    have hspan : (Span.between (Position.origin.after a)
        (Position.origin.after (a ++ m.spelling.toList))).dropFirst =
        .between (Position.origin.after (a ++ ['>']))
          (Position.origin.after (a ++ ['>'] ++ m'.spelling.toList)) := by
      have hstep : ∀ p : Position, p.step '>' = ⟨p.offset + 1, p.line, p.column + 1⟩ :=
        fun _ => rfl
      simp [hspelling, Span.between, Span.dropFirst, hstep]
    rw [hspan]
    exact .mark m' _ b htext'
  | template => simp [afterClosingAngle] at hcut
  | plain hspan hmark =>
    unfold afterClosingAngle at hcut
    split at hcut <;> first | exact absurd rfl (hmark _) | simp at hcut

theorem Remains.placed {text : List Char} {a b : SpannedToken} (h : Remains a b)
    (ha : Placed text a.1 a.2) : Placed text b.1 b.2 := by
  induction h with
  | whole => exact ha
  | cut _ hcut ih => exact placed_dropFirst ih hcut

/-- Every token of one list remains in the same place of the other. -/
structure TokensRemain (ts ts' : Array SpannedToken) : Prop where
  size : ts'.size = ts.size
  remains : ∀ (i : Nat) (a : SpannedToken), ts[i]? = some a → ∃ b, ts'[i]? = some b ∧ Remains a b

theorem TokensRemain.refl (ts : Array SpannedToken) : TokensRemain ts ts :=
  ⟨rfl, fun _ a ha => ⟨a, ha, .whole a⟩⟩

theorem TokensRemain.trans {ts ts' ts'' : Array SpannedToken} (h : TokensRemain ts ts')
    (h' : TokensRemain ts' ts'') : TokensRemain ts ts'' := by
  refine ⟨h'.size.trans h.size, fun i a ha => ?_⟩
  obtain ⟨b, hb, hab⟩ := h.remains i a ha
  obtain ⟨c, hc, hbc⟩ := h'.remains i b hb
  exact ⟨c, hc, hab.trans hbc⟩

/-- Every token after the change is what remains of the token before it. -/
theorem TokensRemain.before {ts ts' : Array SpannedToken} (h : TokensRemain ts ts') {i : Nat}
    {b : SpannedToken} (hb : ts'[i]? = some b) : ∃ a, ts[i]? = some a ∧ Remains a b := by
  have hi : i < ts.size := by
    rw [← h.size]
    exact (Array.getElem?_eq_some_iff.mp hb).1
  obtain ⟨b', hb', hremains⟩ := h.remains i ts[i] (Array.getElem?_eq_getElem hi)
  rw [hb] at hb'
  cases hb'
  exact ⟨ts[i], Array.getElem?_eq_getElem hi, hremains⟩

/-- The tokens stand in place on the source, one after the other, with the end of the text last.
Only gaps stand before a token that is not left of another one, unless it is the last. -/
structure State.Ready (s : State) : Prop where
  pos_lt : s.pos < s.tokens.size
  placed : ∀ (i : Nat) (a : SpannedToken), s.tokens[i]? = some a → Placed s.source a.1 a.2
  ordered : ∀ (i : Nat) (a b : SpannedToken), s.tokens[i]? = some a → s.tokens[i + 1]? = some b →
    a.2.stop ≤ b.2.start
  spaced : ∀ (i : Nat) (a b : SpannedToken), s.tokens[i]? = some a → s.tokens[i + 1]? = some b →
    i + 2 < s.tokens.size → ¬ IsRemainder b.1 → GapAt s.source a.2.stop b.2.start
  last : ∀ (i : Nat) (a : SpannedToken), s.tokens[i]? = some a → i + 1 = s.tokens.size → a.1 = .eof

/-- Whether tokens stand in place does not depend on the rest of the state. -/
theorem State.Ready.congr {s s' : State} (hs : s.Ready) (hsource : s'.source = s.source)
    (htokens : s'.tokens = s.tokens) (hpos : s'.pos < s'.tokens.size) : s'.Ready where
  pos_lt := hpos
  placed := by
    rw [hsource, htokens]
    exact hs.placed
  ordered := by
    rw [htokens]
    exact hs.ordered
  spaced := by
    rw [hsource, htokens]
    exact hs.spaced
  last := by
    rw [htokens]
    exact hs.last

/-- What a parser leaves alone even when it builds on nodes that were there before it. -/
structure Kept (s s' : State) : Prop where
  source : s'.source = s.source
  tokens : TokensRemain s.tokens s'.tokens
  pos_le : s.pos ≤ s'.pos
  tree : s.tree.Continues s'.tree
  errors : s'.errors = s.errors
  depth : s'.depth = s.depth
  allowIn : s'.allowIn = s.allowIn

theorem Kept.refl (s : State) : Kept s s := ⟨rfl, .refl _, le_rfl, .refl _, rfl, rfl, rfl⟩

theorem Kept.trans {s s' s'' : State} (h : Kept s s') (h' : Kept s' s'') : Kept s s'' where
  source := h'.source.trans h.source
  tokens := h.tokens.trans h'.tokens
  pos_le := h.pos_le.trans h'.pos_le
  tree := h.tree.trans h'.tree
  errors := h'.errors.trans h.errors
  depth := h'.depth.trans h.depth
  allowIn := h'.allowIn.trans h.allowIn

/-- The changes that parsers make, whether they fail or not. -/
structure Frame (s s' : State) : Prop where
  source : s'.source = s.source
  tokens : TokensRemain s.tokens s'.tokens
  pos_le : s.pos ≤ s'.pos
  pos_lt : s.pos < s.tokens.size → s'.pos < s'.tokens.size
  tree : s.tree.Extends s'.tree
  errors : s'.errors = s.errors
  depth : s'.depth = s.depth
  allowIn : s'.allowIn = s.allowIn

namespace Frame

variable {s s' s'' : State}

theorem kept (h : Frame s s') : Kept s s' :=
  ⟨h.source, h.tokens, h.pos_le, h.tree.toContinues, h.errors, h.depth, h.allowIn⟩

theorem refl (s : State) : Frame s s :=
  ⟨rfl, .refl _, le_rfl, id, .refl _, rfl, rfl, rfl⟩

theorem trans (h : Frame s s') (h' : Frame s' s'') : Frame s s'' where
  source := h'.source.trans h.source
  tokens := h.tokens.trans h'.tokens
  pos_le := h.pos_le.trans h'.pos_le
  pos_lt hlt := h'.pos_lt (h.pos_lt hlt)
  tree := h.tree.trans h'.tree
  errors := h'.errors.trans h.errors
  depth := h'.depth.trans h.depth
  allowIn := h'.allowIn.trans h.allowIn

theorem advance (s : State) : Frame s s.advance := by
  unfold State.advance
  split
  · exact { refl s with pos_le := Nat.le_succ _, pos_lt := fun _ => ‹_› }
  · exact refl s

theorem splitCurrent (s : State) {rest : Token} (hcut : afterClosingAngle s.current = some rest) :
    Frame s (s.splitCurrent rest) := by
  have htokens : TokensRemain s.tokens (s.splitCurrent rest).tokens := by
    refine ⟨Array.size_modify, fun i a ha => ?_⟩
    simp only [State.splitCurrent, Array.getElem?_modify, ha]
    split
    · next hi =>
      subst hi
      obtain ⟨t, span⟩ := a
      have hcurrent : s.current = t := by simp [State.current, State.tokenAt, ha]
      rw [hcurrent] at hcut
      exact ⟨(rest, span.dropFirst), rfl, .cut (.whole _) hcut⟩
    · exact ⟨a, rfl, .whole a⟩
  exact { refl s with tokens := htokens, pos_lt := fun h => h.trans_eq htokens.size.symm }

/-- A change of the tree alone. -/
theorem withTree {tree : Tree} (h : Frame s s') (htree : s.tree.Extends tree) :
    Frame s { s' with tree } :=
  { h with tree := htree }

theorem alloc (s : State) {node : Node} {span : Span} (hchildren : node.children = []) :
    Frame s { s with tree := (s.tree.alloc node (some span)).2 } :=
  (refl s).withTree ((Tree.Extends.refl s.tree).alloc (by simp [hchildren]))

/-- Tokens that stand in place do so after any parser. -/
theorem ready (h : Frame s s') (hs : s.Ready) : s'.Ready where
  pos_lt := h.pos_lt hs.pos_lt
  placed i b hb := by
    obtain ⟨a, ha, hremains⟩ := h.tokens.before hb
    rw [h.source]
    exact hremains.placed (hs.placed i a ha)
  ordered i b d hb hd := by
    obtain ⟨a, ha, hab⟩ := h.tokens.before hb
    obtain ⟨c, hc, hcd⟩ := h.tokens.before hd
    have hle := hs.ordered i a c ha hc
    have hstart := hcd.start_le
    have hstop := hab.stop_eq
    omega
  spaced i b d hb hd hlt hwhole := by
    obtain ⟨a, ha, hab⟩ := h.tokens.before hb
    obtain ⟨c, hc, hcd⟩ := h.tokens.before hd
    obtain rfl := hcd.eq hwhole
    rw [h.source, hab.stop_eq]
    exact hs.spaced i a d ha hc (hlt.trans_eq h.tokens.size) hwhole
  last i b hb hi := by
    obtain ⟨a, ha, hremains⟩ := h.tokens.before hb
    have heof := hs.last i a ha (hi.trans h.tokens.size)
    rw [hremains.eq_eof heof]
    exact heof

end Frame
end Parse
end ScriptLint
