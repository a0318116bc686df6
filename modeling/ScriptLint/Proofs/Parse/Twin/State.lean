import ScriptLint.Proofs.Parse.Primitive
import ScriptLint.Proofs.Parse.Twin.Mark
import ScriptLint.Proofs.Source.Slice

namespace ScriptLint
namespace Parse

variable {w : Passage} {s : Side → State} {m : Mark}

theorem isPunct_of_isStop {t : Token} {mark : Punct} (h : isStop t = true)
    (hmark : isStop (.punct mark) = false) : t.isPunct mark = false := by
  cases t with
  | punct p =>
    refine beq_eq_false_iff_ne.mpr ?_
    rintro rfl
    rw [h] at hmark
    cases hmark
  | _ => rfl

theorem eq_punct_of_isStop {t : Token} (h : isStop t = true) : ∃ mark, t = .punct mark := by
  cases t with
  | punct mark => exact ⟨mark, rfl⟩
  | _ => cases h

namespace Passage.Reads

variable {p : Nat} {t : Side → Token}

/-- What is asked of a token is the same on both sides, if nothing is asked of what is inside it
and nothing tells the end of the text from the marks that end the passage. -/
theorem apply {β : Type} (h : w.Reads p t) (f : Token → β)
    (htemplate : ∀ parts parts', f (.template parts) = f (.template parts'))
    (hstop : w.goesOn = true → p = w.count → ∀ u, isStop u = true → f u = f .eof) :
    f (t .right) = f (t .left) := by
  cases h with
  | token hlt htwin heof =>
    generalize t .left = u, t .right = u' at *
    cases htwin with
    | same => rfl
    | template => exact htemplate _ _
  | ending heq hleft hright =>
    rw [hleft]
    split at hright
    · next hon => exact hstop hon heq _ hright
    · rw [hright]

/-- A token that is the same on both sides. -/
theorem right_eq (h : w.Reads p t) (heof : (t .left).isEof = false)
    (htemplate : ∀ parts, t .left ≠ .template parts) : t .right = t .left := by
  cases h with
  | token hlt htwin _ =>
    generalize t .left = u, t .right = u' at *
    cases htwin with
    | same => rfl
    | template => exact absurd rfl (htemplate _)
  | ending _ hleft =>
    rw [hleft] at heof
    cases heof

end Passage.Reads

/-- A mark that loses its first angle has no line break before it that it did not have. -/
theorem newline_dropFirst {text : List Char} {t t' : Token} {previous span : Span}
    (hprevious : previous.On text) (hplaced : Placed text t span)
    (hcut : afterClosingAngle t = some t') (hle : previous.stop ≤ span.start) :
    ((slice? text previous.stop span.dropFirst.start).getD []).contains '\n' =
      ((slice? text previous.stop span.start).getD []).contains '\n' := by
  cases hplaced with
  | mark mark a b htext =>
    obtain ⟨mark', -, hspelling⟩ := spelling_of_afterClosingAngle hcut
    obtain ⟨c, d, -, hd, rfl⟩ := hprevious
    have ha : a <+: text := ⟨mark.spelling.toList ++ b, by rw [← htext, List.append_assoc]⟩
    simp only [Span.between, Span.dropFirst, Position.offset_after, Position.offset_origin,
      Nat.zero_add] at hle ⊢
    obtain ⟨gap, rfl⟩ := isPrefix_of_byteLength_le hd ha hle
    have hgap : slice? text (byteLength d) (byteLength (d ++ gap)) = some gap :=
      slice?_eq_some_iff.mpr ⟨d, mark.spelling.toList ++ b, by rw [← htext]; simp, rfl, rfl⟩
    have hmore : slice? text (byteLength d) (byteLength (d ++ gap) + 1) = some (gap ++ ['>']) := by
      refine slice?_eq_some_iff.mpr ⟨d, mark'.spelling.toList ++ b, ?_, rfl, ?_⟩
      · rw [← htext, hspelling]
        simp
      · have hsize : ('>' : Char).utf8Size = 1 := rfl
        simp only [byteLength_append, byteLength_cons, byteLength_nil, hsize]
        omega
    rw [hgap, hmore]
    simp
  | template => simp [afterClosingAngle] at hcut
  | plain _ hmark =>
    unfold afterClosingAngle at hcut
    split at hcut <;> first | exact absurd rfl (hmark _) | simp at hcut

namespace Passage.Twin

theorem reads (h : w.Twin s) {p : Nat} (hp : p ≤ w.count) :
    w.Reads p fun i => (s i).tokenAt (w.place i p) := by
  obtain ⟨a, ha, hreads⟩ := h.tokens.reads p hp
  have heq : (fun i => (s i).tokenAt (w.place i p)) = fun i => (a i).1 := by
    funext i
    simp [State.tokenAt, ha i]
  rwa [heq]

theorem reads_current (h : w.Twin s) : w.Reads (s .left).pos fun i => (s i).current := by
  have hreads := h.reads h.pos_le
  have heq : (fun i => (s i).tokenAt (w.place i (s .left).pos)) = fun i => (s i).current := by
    funext i
    rw [← h.pos i]
    rfl
  rwa [heq] at hreads

theorem reads_next (h : w.Twin s) {n : Nat} (hlt : (s .left).pos + n ≤ w.count) :
    w.Reads ((s .left).pos + n) fun i => (s i).tokenAt ((s i).pos + n) := by
  have hreads := h.reads hlt
  have heq : (fun i => (s i).tokenAt (w.place i ((s .left).pos + n))) =
      fun i => (s i).tokenAt ((s i).pos + n) := by
    funext i
    rw [h.pos i]
    cases i <;> simp [Nat.add_assoc]
  rwa [heq] at hreads

theorem lt_count (h : w.Twin s) (heof : (s .left).current.isEof = false) :
    (s .left).pos < w.count := by
  cases h.reads_current with
  | token hlt => exact hlt
  | ending _ hleft =>
    rw [hleft] at heof
    cases heof

theorem current_eof (h : w.Twin s) (heq : (s .left).pos = w.count) : (s .left).current = .eof := by
  cases h.reads_current with
  | token hlt => omega
  | ending _ hleft => exact hleft

theorem pos_lt_size (h : w.Twin s) (i : Side) : (s i).pos < (s i).tokens.size := (h.ready i).pos_lt

/-- The line breaks before the tokens of the passage but the first one. -/
theorem newlineBeforeAt (h : w.Twin s) {p : Nat} (hp : p < w.count) :
    (s .right).newlineBeforeAt (w.place .right (p + 1)) = (s .left).newlineBeforeAt (p + 1) := by
  obtain ⟨a, ha, -⟩ := h.tokens.reads p hp.le
  obtain ⟨b, hb, -⟩ := h.tokens.reads (p + 1) hp
  have hright := hb .right
  rw [place_succ] at hright ⊢
  have hnewline := (h.tokens.beside p hp a b ha hb).newline
  rw [← h.source .left, ← h.source .right] at hnewline
  have hleft := hb .left
  simp only [place_left] at hleft
  have haleft := ha .left
  simp only [place_left] at haleft
  simp only [State.newlineBeforeAt, ha .right, hright, haleft, hleft]
  exact hnewline

theorem newlineBefore (h : w.Twin s) (hpos : 0 < (s .left).pos) :
    (s .right).newlineBefore = (s .left).newlineBefore := by
  obtain ⟨p, hp⟩ := Nat.exists_eq_add_one_of_ne_zero hpos.ne'
  have hle := h.pos_le
  have hnewline := h.newlineBeforeAt (p := p) (by omega)
  rw [← hp, ← h.pos .right] at hnewline
  exact hnewline

theorem newlineAfter (h : w.Twin s) (hlt : (s .left).pos < w.count) :
    (s .right).newlineBeforeAt ((s .right).pos + 1) =
      (s .left).newlineBeforeAt ((s .left).pos + 1) := by
  have hnewline := h.newlineBeforeAt hlt
  rwa [place_succ, ← h.pos .right] at hnewline

theorem advance_eq (h : w.Twin s) (hlt : (s .left).pos < w.count) (i : Side) :
    (s i).advance = { s i with pos := (s i).pos + 1 } := by
  obtain ⟨a, ha, -⟩ := h.tokens.reads ((s .left).pos + 1) hlt
  have hnext := ha i
  rw [place_succ, ← h.pos i] at hnext
  rw [State.advance, if_pos (Array.getElem?_eq_some_iff.mp hnext).1]

theorem advance (h : w.Twin s) (hlt : (s .left).pos < w.count) : w.Twin fun i => (s i).advance where
  ready i := (Frame.advance (s i)).ready (h.ready i)
  source i := by simpa [h.advance_eq hlt] using h.source i
  tokens := by simpa [h.advance_eq hlt] using h.tokens
  pos i := by
    simp only [h.advance_eq hlt, place_succ]
    rw [← h.pos i]
  pos_le := by simpa [h.advance_eq hlt] using hlt
  tree := by simpa [h.advance_eq hlt] using h.tree
  depth i := by simpa [h.advance_eq hlt] using h.depth i
  allowIn i := by simpa [h.advance_eq hlt] using h.allowIn i

end Passage.Twin

/-- A mark that can lose its first angle is neither the end of a text nor a template. -/
theorem plain_of_afterClosingAngle {t rest : Token} (h : afterClosingAngle t = some rest) :
    t.isEof = false ∧ ∀ parts, t ≠ .template parts := by
  cases t <;> simp_all [afterClosingAngle, Token.isEof]

/-- The rest of a mark that has lost its first angle is as plain as the mark. -/
structure IsRest (t rest : Token) : Prop where
  spelled : isSpelled rest = false
  step : bracketStep rest = bracketStep t
  angle : beginsAngle t = true
  template : ∀ parts, rest ≠ .template parts
  eof : rest.isEof = false
  less : rest.isPunct .less = false

theorem isRest_of_afterClosingAngle {t rest : Token} (h : afterClosingAngle t = some rest) :
    IsRest t rest := by
  unfold afterClosingAngle at h
  split at h <;> cases h <;> constructor <;>
    simp [isSpelled, bracketStep, State.opensBracket, State.closesBracket, beginsAngle,
      afterClosingAngle, Token.isEof, Token.isPunct]

/-- What stands at the place `p` before and after the token `t` at `cursor` is cut to `rest`. -/
inductive CutAt (t rest : Token) (cursor p : Nat) : SpannedToken → SpannedToken → Prop where
  | here (span : Span) (h : p = cursor) : CutAt t rest cursor p (t, span) (rest, span.dropFirst)
  | other (a : SpannedToken) (h : p ≠ cursor) : CutAt t rest cursor p a a

namespace CutAt

variable {t rest : Token} {cursor p : Nat} {a b : SpannedToken}

theorem stop (h : CutAt t rest cursor p a b) : b.2.stop = a.2.stop := by
  cases h <;> rfl

theorem eq_of_ne (h : CutAt t rest cursor p a b) (hne : p ≠ cursor) : b = a := by
  cases h with
  | here _ heq => exact absurd heq hne
  | other => rfl

theorem fst_of_eq (h : CutAt t rest cursor p a b) (heq : p = cursor) : b.1 = rest := by
  cases h with
  | here => rfl
  | other _ hne => exact absurd heq hne

theorem bracketStep (h : CutAt t rest cursor p a b) (hrest : IsRest t rest) :
    Parse.bracketStep b.1 = Parse.bracketStep a.1 := by
  cases h with
  | here => exact hrest.step
  | other => rfl

/-- An opening angle is never what is left of a mark. -/
theorem less (h : CutAt t rest cursor p a b) (hrest : IsRest t rest)
    (hless : b.1.isPunct .less = true) : a.1.isPunct .less = true := by
  cases h with
  | here =>
    rw [hrest.less] at hless
    cases hless
  | other => exact hless

theorem beginsAngle (h : CutAt t rest cursor p a b) (hrest : IsRest t rest)
    (hangle : Parse.beginsAngle b.1 = true) : Parse.beginsAngle a.1 = true := by
  cases h with
  | here => exact hrest.angle
  | other => exact hangle

theorem ne_of_isSpelled (h : CutAt t rest cursor p a b) (hrest : IsRest t rest)
    (hspelled : isSpelled b.1 = true) : p ≠ cursor := by
  rintro heq
  rw [h.fst_of_eq heq, hrest.spelled] at hspelled
  cases hspelled

end CutAt

namespace Passage.Twin

/-- At each place stands what stood there, but at the cursor the rest of it. -/
theorem exists_cutAt (h : w.Twin s) {rest : Token}
    (hcut : afterClosingAngle (s .left).current = some rest) {i : Side} {p : Nat} {b : SpannedToken}
    (hb : ((s i).splitCurrent rest).tokens[w.place i p]? = some b) :
    ∃ a, (s i).tokens[w.place i p]? = some a ∧
      CutAt (s .left).current rest (s .left).pos p a b := by
  obtain ⟨heof, htemplate⟩ := plain_of_afterClosingAngle hcut
  simp only [State.splitCurrent, Array.getElem?_modify] at hb
  split at hb
  · next hpos =>
    obtain ⟨⟨t, span⟩, ha, rfl⟩ := Option.map_eq_some_iff.mp hb
    have hp : p = (s .left).pos := by
      rw [h.pos i] at hpos
      cases i <;> simp only [place_left, place_right] at hpos <;> omega
    have hcurrent : (s i).current = t := by simp [State.current, State.tokenAt, hpos, ha]
    have hsame : (s i).current = (s .left).current := by
      cases i with
      | left => rfl
      | right => exact h.reads_current.right_eq heof htemplate
    rw [← hcurrent, hsame] at ha
    exact ⟨_, ha, .here span hp⟩
  · next hpos =>
    refine ⟨b, hb, .other b ?_⟩
    rintro rfl
    exact hpos (h.pos i)

theorem reads_splitCurrent (h : w.Twin s) {rest : Token}
    (hcut : afterClosingAngle (s .left).current = some rest) {p : Nat} (hp : p ≤ w.count) :
    ∃ b : Side → SpannedToken,
      (∀ i, ((s i).splitCurrent rest).tokens[w.place i p]? = some (b i)) ∧
        w.Reads p fun i => (b i).1 := by
  have hrest := isRest_of_afterClosingAngle hcut
  obtain ⟨a, ha, hreads⟩ := h.tokens.reads p hp
  have hsome : ∀ i, ∃ b, ((s i).splitCurrent rest).tokens[w.place i p]? = some b := fun i => by
    have hlt := (Array.getElem?_eq_some_iff.mp (ha i)).1
    exact ⟨_, Array.getElem?_eq_getElem (by simpa [State.splitCurrent] using hlt)⟩
  choose b hb using hsome
  choose a' ha' hba using fun i => h.exists_cutAt hcut (hb i)
  refine ⟨b, hb, ?_⟩
  by_cases hpos : p = (s .left).pos
  · have hlt := h.lt_count (plain_of_afterClosingAngle hcut).1
    have hfst : ∀ i, (b i).1 = rest := fun i => (hba i).fst_of_eq hpos
    refine .token (by omega) ?_ (by rw [hfst]; exact hrest.eof)
    rw [hfst, hfst]
    exact .same rest hrest.template
  · have hsame : b = a := by
      funext i
      have ha := ha i
      rw [ha' i, Option.some.injEq] at ha
      rw [(hba i).eq_of_ne hpos, ha]
    rwa [hsame]

/-- No line break comes before the rest of a mark that did not come before the mark. -/
theorem newline_cutAt (h : w.Twin s) {rest : Token}
    (hcut : afterClosingAngle (s .left).current = some rest) {i : Side} {p : Nat}
    {a c d : SpannedToken} (ha : (s i).tokens[w.place i p]? = some a)
    (hc : (s i).tokens[w.place i (p + 1)]? = some c)
    (hdc : CutAt (s .left).current rest (s .left).pos (p + 1) c d) :
    ((slice? (w.source i) a.2.stop d.2.start).getD []).contains '\n' =
      ((slice? (w.source i) a.2.stop c.2.start).getD []).contains '\n' := by
  cases hdc with
  | here =>
    rw [place_succ] at hc
    have hplaced := (h.ready i).placed _ _ hc
    have hprevious := ((h.ready i).placed _ _ ha).span_on
    rw [h.source i] at hplaced hprevious
    exact newline_dropFirst hprevious hplaced hcut ((h.ready i).ordered _ _ _ ha hc)
  | other => rfl

theorem beside_splitCurrent (h : w.Twin s) {rest : Token}
    (hcut : afterClosingAngle (s .left).current = some rest) {p : Nat} (hp : p < w.count)
    {b d : Side → SpannedToken}
    (hb : ∀ i, ((s i).splitCurrent rest).tokens[w.place i p]? = some (b i))
    (hd : ∀ i, ((s i).splitCurrent rest).tokens[w.place i (p + 1)]? = some (d i)) :
    Beside w.source (w.verbatim && decide (p + 1 < w.count)) (b .left).1 (fun i => (b i).2)
      fun i => (d i).2 := by
  have hrest := isRest_of_afterClosingAngle hcut
  choose a ha hba using fun i => h.exists_cutAt hcut (hb i)
  choose c hc hdc using fun i => h.exists_cutAt hcut (hd i)
  have hbeside := h.tokens.beside p hp a c ha hc
  -- a token whose text is kept is not the one that is cut
  have hwhole : isSpelled (b .left).1 = true → ∀ i, b i = a i := fun hspelled i =>
    (hba i).eq_of_ne ((hba .left).ne_of_isSpelled hrest hspelled)
  refine ⟨?_, fun hverbatim hspelled => ?_, fun hverbatim hspelled => ?_⟩
  · rw [(hba .right).stop, (hba .left).stop, h.newline_cutAt hcut (ha .right) (hc .right) (hdc .right),
      h.newline_cutAt hcut (ha .left) (hc .left) (hdc .left)]
    exact hbeside.newline
  · have hall := hwhole hspelled
    rw [hall .left] at hspelled
    rw [hall .left, hall .right]
    exact hbeside.one hverbatim hspelled
  · have hall := hwhole hspelled
    rw [hall .left] at hspelled
    rw [hall .left, hall .right, (hdc .right).stop, (hdc .left).stop]
    exact hbeside.two hverbatim hspelled

theorem spelled_splitCurrent (h : w.Twin s) {rest : Token}
    (hcut : afterClosingAngle (s .left).current = some rest) {p : Nat} (hp : p < w.count)
    {b : Side → SpannedToken}
    (hb : ∀ i, ((s i).splitCurrent rest).tokens[w.place i p]? = some (b i))
    (hverbatim : w.verbatim = true) (hspelled : isSpelled (b .left).1 = true) :
    (b .right).2.slice (w.source .right) = (b .left).2.slice (w.source .left) := by
  have hrest := isRest_of_afterClosingAngle hcut
  choose a ha hba using fun i => h.exists_cutAt hcut (hb i)
  have hwhole : ∀ i, b i = a i := fun i =>
    (hba i).eq_of_ne ((hba .left).ne_of_isSpelled hrest hspelled)
  rw [hwhole .left] at hspelled
  rw [hwhole .left, hwhole .right]
  exact h.tokens.spelled p hp a ha hverbatim hspelled

/-- A token of which the first angle is taken on both sides. -/
theorem splitCurrent_tokens (h : w.Twin s) {rest : Token}
    (hcut : afterClosingAngle (s .left).current = some rest) :
    w.Tokens fun i => ((s i).splitCurrent rest).tokens where
  size := by simpa [State.splitCurrent] using h.tokens.size
  size_le := by simpa [State.splitCurrent] using h.tokens.size_le
  size_eq := by simpa [State.splitCurrent] using h.tokens.size_eq
  reads _ hp := h.reads_splitCurrent hcut hp
  beside _ hp _ _ hb hd := h.beside_splitCurrent hcut hp hb hd
  spelled _ hp _ hb hverbatim hspelled := h.spelled_splitCurrent hcut hp hb hverbatim hspelled
  level f hf p hp b hb := by
    obtain ⟨a, ha, hba⟩ := h.exists_cutAt (i := .left) hcut hb
    rw [hba.bracketStep (isRest_of_afterClosingAngle hcut)]
    exact h.tokens.level f hf p hp a ha
  angles f hf p q b d hpq hq hb hd hopen hclose := by
    have hrest := isRest_of_afterClosingAngle hcut
    obtain ⟨a, ha, hba⟩ := h.exists_cutAt (i := .left) hcut hb
    obtain ⟨c, hc, hdc⟩ := h.exists_cutAt (i := .left) hcut hd
    exact h.tokens.angles f hf p q a c hpq hq ha hc (hba.less hrest hopen)
      (hdc.beginsAngle hrest hclose)
  beyond hon p b hb hopen q d hq hd := by
    obtain ⟨a, ha, hba⟩ := h.exists_cutAt (i := .left) hcut hb
    refine h.tokens.beyond hon p a ha (hba.less (isRest_of_afterClosingAngle hcut) hopen) q d hq ?_
    have hlt := h.lt_count (plain_of_afterClosingAngle hcut).1
    have hne : (s .right).pos ≠ q := by
      rw [h.pos .right, place_right]
      omega
    simpa [State.splitCurrent, Array.getElem?_modify, hne] using hd
  level_end := h.tokens.level_end
  heritage hon hceiling p b hb := by
    obtain ⟨a, ha, hba⟩ := h.exists_cutAt (i := .left) hcut hb
    by_contra hword
    have hspelled : isSpelled b.1 = true := by
      generalize b.1 = t at hword
      cases t with
      | keyword => rfl
      | _ => exact absurd rfl hword
    rw [hba.eq_of_ne (hba.ne_of_isSpelled (isRest_of_afterClosingAngle hcut) hspelled)] at hword
    exact hword (h.tokens.heritage hon hceiling p a ha)

theorem splitCurrent (h : w.Twin s) {rest : Token}
    (hcut : afterClosingAngle (s .left).current = some rest) :
    w.Twin fun i => (s i).splitCurrent rest where
  ready i := by
    refine (Frame.splitCurrent (s i) ?_).ready (h.ready i)
    cases i with
    | left => exact hcut
    | right =>
      obtain ⟨heof, htemplate⟩ := plain_of_afterClosingAngle hcut
      rw [h.reads_current.right_eq heof htemplate]
      exact hcut
  source := h.source
  tokens := h.splitCurrent_tokens hcut
  pos := h.pos
  pos_le := h.pos_le
  tree := h.tree
  depth := h.depth
  allowIn := h.allowIn

theorem withTree (h : w.Twin s) {tree : Side → Tree}
    (htree : Tree.Twin w.verbatim w.base (tree .left) (tree .right)) :
    w.Twin fun i => { s i with tree := tree i } where
  ready i := (h.ready i).congr rfl rfl (h.ready i).pos_lt
  source := h.source
  tokens := h.tokens
  pos := h.pos
  pos_le := h.pos_le
  tree := htree
  depth := h.depth
  allowIn := h.allowIn

theorem withDepth (h : w.Twin s) (f : Nat → Nat) :
    w.Twin fun i => { s i with depth := f (s i).depth } where
  ready i := (h.ready i).congr rfl rfl (h.ready i).pos_lt
  source := h.source
  tokens := h.tokens
  pos := h.pos
  pos_le := h.pos_le
  tree := h.tree
  depth i := congrArg f (h.depth i)
  allowIn := h.allowIn

theorem withAllowIn (h : w.Twin s) {allowIn : Side → Bool}
    (hallow : ∀ i, allowIn i = allowIn .left) :
    w.Twin fun i => { s i with allowIn := allowIn i } where
  ready i := (h.ready i).congr rfl rfl (h.ready i).pos_lt
  source := h.source
  tokens := h.tokens
  pos := h.pos
  pos_le := h.pos_le
  tree := h.tree
  depth := h.depth
  allowIn := hallow

/-- Other tokens that hold the passage. -/
theorem withTokens (h : w.Twin s) {tokens : Side → Array SpannedToken} (htokens : w.Tokens tokens)
    (hready : ∀ i, { s i with tokens := tokens i }.Ready) :
    w.Twin fun i => { s i with tokens := tokens i } where
  ready := hready
  source := h.source
  tokens := htokens
  pos := h.pos
  pos_le := h.pos_le
  tree := h.tree
  depth := h.depth
  allowIn := h.allowIn

end Passage.Twin

namespace Mark

theorem Holds.pos_budget (h : m.Holds w (s .left)) (htwin : w.Twin s) : 0 < m.budget :=
  (State.reach_pos (htwin.pos_lt_size .left)).trans_le h.budget

theorem Holds.pos_steps (h : m.Holds w (s .left)) (htwin : w.Twin s) : 0 < m.steps :=
  (State.steps_pos (htwin.pos_lt_size .left)).trans_le h.steps

/-- At the end of a passage that goes on no bracket is open. -/
theorem Holds.lt_count (h : m.Holds w (s .left)) (htwin : w.Twin s) (hin : m.Inside w)
    (hon : w.goesOn = true) : (s .left).pos < w.count := by
  refine lt_of_le_of_ne htwin.pos_le fun heq => ?_
  obtain ⟨f, hf, hend⟩ := htwin.tokens.level_end hon
  have hlevel := h.level f hf
  rw [heq, hend] at hlevel
  have hpos := hin hon
  omega

end Mark

namespace Passage.Twin

/-- Where the passage does not end, the sides ask the same of their tokens. -/
theorem apply (htwin : w.Twin s) (hm : m.Holds w (s .left)) (hin : m.Inside w) {β : Type}
    (f : Token → β) (htemplate : ∀ parts parts', f (.template parts) = f (.template parts')) :
    f (s .right).current = f (s .left).current := by
  refine htwin.reads_current.apply f htemplate fun hon heq _ _ => ?_
  exact absurd (hm.lt_count htwin hin hon) (by omega)

theorem isPunct (htwin : w.Twin s) (hm : m.Holds w (s .left)) (hin : m.Inside w) (mark : Punct) :
    (s .right).current.isPunct mark = (s .left).current.isPunct mark :=
  htwin.apply hm hin (·.isPunct mark) fun _ _ => rfl

theorem atEof (htwin : w.Twin s) (hm : m.Holds w (s .left)) (hin : m.Inside w) :
    (s .right).atEof = (s .left).atEof :=
  htwin.apply hm hin Token.isEof fun _ _ => rfl

end Passage.Twin

/-- Less can be taken from one state than from another. -/
structure State.Below (s r : State) : Prop where
  reach : s.reach + 1 ≤ r.reach
  steps : s.steps + 1 ≤ r.steps

namespace Passage.Twin

theorem below_advance (h : w.Twin s) (hlt : (s .left).pos < w.count) :
    (s .left).advance.Below (s .left) := by
  have hsize := h.pos_lt_size .left
  have hmass := mass_pos (s .left).current
  have hpieces := pieces_pos (s .left).current
  rw [h.advance_eq hlt .left]
  constructor
  · simp only [State.reach, State.total_eq_add mass hsize]
    omega
  · simp only [State.steps, State.total_eq_add pieces hsize]
    omega

theorem below_splitCurrent (h : w.Twin s) {rest : Token}
    (hcut : afterClosingAngle (s .left).current = some rest) :
    ((s .left).splitCurrent rest).Below (s .left) := by
  have hsize := h.pos_lt_size .left
  obtain ⟨hpieces, hmass⟩ := pieces_of_afterClosingAngle hcut
  have hdepth : ((s .left).splitCurrent rest).depth = (s .left).depth := rfl
  constructor
  · simp only [State.reach, State.total_eq_add mass hsize, State.total_splitCurrent mass hsize, hdepth]
    omega
  · simp only [State.steps, State.total_eq_add pieces hsize, State.total_splitCurrent pieces hsize]
    omega

/-- The brackets that are open after the current token. -/
theorem level_advance (h : w.Twin s) (hlt : (s .left).pos < w.count) {f : Nat → Int}
    (hf : f ∈ w.level?) :
    f (s .left).advance.pos = f (s .left).pos + bracketStep (s .left).current := by
  obtain ⟨a, ha, -⟩ := h.tokens.reads _ hlt.le
  have hget := ha .left
  simp only [place_left] at hget
  have hcurrent : (s .left).current = (a .left).1 := by
    simp [State.current, State.tokenAt, hget]
  rw [h.advance_eq hlt .left, hcurrent]
  exact h.tokens.level f hf _ hlt (a .left) hget

end Passage.Twin

namespace Mark

/-- The mark after the current token. -/
theorem Holds.advance (h : m.Holds w (s .left)) (htwin : w.Twin s)
    (hlt : (s .left).pos < w.count) {level : Nat}
    (hlevel : ∀ f ∈ w.level?, (level : Int) = m.level + bracketStep (s .left).current) :
    (m.after level).Holds w (s .left).advance := by
  have hbelow := htwin.below_advance hlt
  refine ⟨Nat.le_sub_one_of_lt (hbelow.reach.trans h.budget),
    Nat.le_sub_one_of_lt (hbelow.steps.trans h.steps), fun f hf => ?_, fun _ => ?_, trivial⟩
  · rw [htwin.level_advance hlt hf, h.level f hf]
    exact (hlevel f hf).symm
  · rw [htwin.advance_eq hlt .left]
    exact Nat.succ_pos _

/-- The mark after one angle of the current token. -/
theorem Holds.splitCurrent (h : m.Holds w (s .left)) (htwin : w.Twin s) {rest : Token}
    (hcut : afterClosingAngle (s .left).current = some rest) (hmoved : 0 < (s .left).pos) :
    m.step.Holds w ((s .left).splitCurrent rest) := by
  have hbelow := htwin.below_splitCurrent hcut
  exact ⟨Nat.le_sub_one_of_lt (hbelow.reach.trans h.budget),
    Nat.le_sub_one_of_lt (hbelow.steps.trans h.steps), h.level, fun _ => hmoved, trivial⟩

/-- Less of the same tokens. -/
theorem Holds.withTokens {s : State} (h : m.Holds w s) {tokens : Array SpannedToken}
    (hremain : TokensRemain s.tokens tokens) : m.forget.Holds w { s with tokens } where
  budget := (Nat.add_le_add_left
    (State.total_withTokens_le mass_le_of_afterClosingAngle s hremain) _).trans h.budget
  steps := (State.total_withTokens_le pieces_le_of_afterClosingAngle s hremain).trans h.steps
  level := h.level
  moved := h.moved
  known := trivial

end Mark
end Parse
end ScriptLint
