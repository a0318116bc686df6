import ScriptLint.Proofs.Parse.Twin.Lookahead

namespace ScriptLint
namespace Parse

open ScriptLint.Parser

variable {α : Type} [Renumber α] {w : Passage} {m n : Mark} {N : α → Mark} {s : Side → State}

theorem State.total_jump_le (s : State) (f : Token → Nat) {q : Nat} (hle : s.pos ≤ q) :
    { s with pos := q }.total f ≤ s.total f :=
  Finset.sum_le_sum_of_subset (Finset.Ico_subset_Ico_left hle)

theorem Passage.Twin.jump (h : w.Twin s) {q : Nat} (hq : q ≤ w.count) :
    w.Twin fun i => { s i with pos := w.place i q } where
  ready i := by
    refine (h.ready i).congr rfl rfl ?_
    obtain ⟨a, ha, -⟩ := h.tokens.reads q hq
    exact (Array.getElem?_eq_some_iff.mp (ha i)).1
  source := h.source
  tokens := h.tokens
  pos _ := rfl
  pos_le := hq
  tree := h.tree
  depth := h.depth
  allowIn := h.allowIn

theorem Mark.Holds.jump {s : State} (h : m.Holds w s) {q : Nat} (hle : s.pos ≤ q)
    (hlevel : ∀ f ∈ w.level?, f q = f s.pos) : m.forget.Holds w { s with pos := q } where
  budget := (Nat.add_le_add_left (s.total_jump_le mass hle) _).trans h.budget
  steps := (s.total_jump_le pieces hle).trans h.steps
  level f hf := (hlevel f hf).trans (h.level f hf)
  moved hmoved := (h.moved hmoved).trans_le hle
  known := trivial

theorem loopUpTo_skipThrough {close : Nat} (fuel : Nat) (s : State) (hle : s.pos ≤ close + 1)
    (hsize : close + 1 < s.tokens.size) (hfuel : close + 1 - s.pos < fuel) :
    loopUpTo (fun _ => do
        if (← Parser.ask State.pos) ≤ close then
          Parser.skip
          return .next ()
        else return .stop ()) fuel () s = (.ok (), { s with pos := close + 1 }) := by
  induction fuel generalizing s with
  | zero => omega
  | succ fuel ih =>
    by_cases hpos : s.pos ≤ close
    · have hadvance : s.advance = { s with pos := s.pos + 1 } := by
        rw [State.advance, if_pos (by omega)]
      have hstep := ih s.advance (by rw [hadvance]; exact Nat.succ_le_succ hpos)
        (by rw [hadvance]; exact hsize) (by rw [hadvance]; show close + 1 - (s.pos + 1) < fuel; omega)
      have hrun : ∀ p : Unit → Parser (Loop Unit), p () s = (.ok (.next ()), s.advance) →
          loopUpTo p (fuel + 1) () s = loopUpTo p fuel () s.advance := by
        intro p hp
        simp only [loopUpTo, bind, Parser.bind, hp]
      rw [hrun _ (by simp only [bind, Parser.bind, Parser.ask, if_pos hpos]; rfl), hstep, hadvance]
    · have hrun : ∀ p : Unit → Parser (Loop Unit), p () s = (.ok (.stop ()), s) →
          loopUpTo p (fuel + 1) () s = (.ok (), s) := by
        intro p hp
        simp only [loopUpTo, bind, Parser.bind, hp]
        rfl
      rw [hrun _ (by simp only [bind, Parser.bind, Parser.ask, if_neg hpos]; rfl)]
      have heq : close + 1 = s.pos := by omega
      rw [heq]

theorem skipThrough_eq {close : Nat} (s : State) (hle : s.pos ≤ close + 1)
    (hsize : close + 1 < s.tokens.size) :
    skipThrough close s = (.ok (), { s with pos := close + 1 }) :=
  loopUpTo_skipThrough _ s hle hsize (by omega)

theorem isEof_of_opensBracket {t : Token} (h : State.opensBracket t = true) : t.isEof = false := by
  cases t with
  | eof => cases h
  | _ => rfl

/-- Takes all from an opening bracket to the one that closes it. -/
theorem Agrees.skipToClose (expected : List Token)
    (h : ∀ s, m.known s → State.opensBracket s.current = true) :
    Agrees w m (fun _ => m.forget) fun _ => (do
      match ← Parser.ask fun s => s.matchingClose s.pos with
      | some close => skipThrough close
      | none => Parser.unexpected expected) := by
  intro s hs hm
  have hopens := h _ hm.known
  have hlt := hs.lt_count (isEof_of_opensBracket hopens)
  obtain ⟨hright, hinside⟩ := hs.matchingClose hlt hopens fun f hf => by
    rw [hm.level f hf]
    exact Int.natCast_nonneg _
  have hpos := hs.pos .right
  simp only [Passage.place_right] at hpos
  have hask : ∀ i, (Parser.ask (fun s => s.matchingClose s.pos) >>= fun close? =>
      match close? with
      | some close => skipThrough close
      | none => Parser.unexpected expected : Parser Unit) (s i) =
      (match (s i).matchingClose (s i).pos with
        | some close => skipThrough close
        | none => Parser.unexpected expected : Parser Unit) (s i) := fun _ => rfl
  cases hclose : (s .left).matchingClose (s .left).pos with
  | none =>
    have hnone : ∀ i, (s i).matchingClose (s i).pos = none := fun i => by
      cases i with
      | left => exact hclose
      | right => rw [hpos, hright, hclose]; rfl
    refine .error _ s (fun i => ?_) (Agrees.unexpected_alike hs expected)
    refine (hask i).trans ?_
    rw [hnone]
    rfl
  | some close =>
    obtain ⟨hle, hcount, hlevel⟩ := hinside close hclose
    have htwin := hs.jump (q := close + 1) hcount
    refine .value () _ (fun i => ?_) htwin (hm.jump (hle.le.trans (Nat.le_succ _)) hlevel)
    have hsize := (htwin.ready i).pos_lt
    refine (hask i).trans ?_
    cases i with
    | left =>
      rw [hclose]
      exact skipThrough_eq _ (hle.le.trans (Nat.le_succ _)) hsize
    | right =>
      rw [hpos, hright, hclose]
      refine skipThrough_eq _ ?_ (by simpa [Nat.add_assoc] using hsize)
      rw [hpos]
      exact Nat.add_le_add_left (hle.le.trans (Nat.le_succ _)) _

theorem closingAngle_eq (s : State) :
    closingAngle s =
      if s.current.isPunct .greater then (.ok (), s.advance)
      else match afterClosingAngle s.current with
        | some rest => (.ok (), s.splitCurrent rest)
        | none => (.error (s.unexpected [.punct .greater]), s) := by
  show (if s.current.isPunct .greater then Parser.skip
    else match afterClosingAngle s.current with
      | some rest => Parser.splitCurrent rest
      | none => Parser.unexpected [.punct .greater]) s = _
  split
  · rfl
  · cases afterClosingAngle s.current <;> rfl

/-- Takes one angle bracket. -/
theorem Agrees.closingAngle (hmoved : m.moved = true) :
    Agrees w m (fun _ => m.step) fun _ => Parse.closingAngle := by
  intro s hs hm
  simp only [closingAngle_eq]
  have htakes : Takes w m (·.isPunct .greater) m.level := takes_mark w m rfl rfl
  have hgreater := htakes.alike hs hm
  have hcuts : afterClosingAngle (s .right).current = afterClosingAngle (s .left).current :=
    hs.reads_current.apply afterClosingAngle (fun _ _ => rfl) fun _ _ t ht => by
      cases Ends.of_isStop ht <;> rfl
  by_cases htake : (s .left).current.isPunct .greater = true
  · obtain ⟨htwin, hmark⟩ := htakes.advance hs hm htake
    refine .value () _ (fun i => ?_) htwin hmark
    cases i with
    | left => rw [if_pos htake]
    | right => rw [hgreater, if_pos htake]
  cases hcut : afterClosingAngle (s .left).current with
  | none =>
    refine .error _ s (fun i => ?_) (unexpected_alike hs [.punct .greater])
    cases i with
    | left => rw [if_neg htake, hcut]
    | right => rw [hgreater, if_neg htake, hcuts, hcut]
  | some rest =>
    refine .value () _ (fun i => ?_) (hs.splitCurrent hcut)
      (hm.splitCurrent hs hcut (hm.moved hmoved))
    cases i with
    | left => rw [if_neg htake, hcut]
    | right => rw [hgreater, if_neg htake, hcuts, hcut]

/-- Takes a token of a list in angle brackets, of which `depth` are open. -/
def angleTurn (depth : Nat) : Parser (Loop Nat) := do
  if depth = 0 then return .stop depth
  let t ← Parser.current
  if t.isEof then Parser.unexpected [.punct .greater]
  else if t.isPunct .less then
    Parser.skip
    return .next (depth + 1)
  else if t.isPunct .greater || (afterClosingAngle t).isSome then
    closingAngle
    return .next (depth - 1)
  else
    Parser.skip
    return .next depth

theorem angleTurn_eq (s : State) {depth : Nat} (h : 0 < depth) :
    angleTurn depth s =
      if s.current.isEof then (.error (s.unexpected [.punct .greater]), s)
      else if s.current.isPunct .less then (.ok (.next (depth + 1)), s.advance)
      else if s.current.isPunct .greater then (.ok (.next (depth - 1)), s.advance)
      else match afterClosingAngle s.current with
        | some rest => (.ok (.next (depth - 1)), s.splitCurrent rest)
        | none => (.ok (.next depth), s.advance) := by
  have hne : ¬depth = 0 := by omega
  have hclose := closingAngle_eq s
  show (if depth = 0 then (return .stop depth : Parser (Loop Nat)) else _) s = _
  rw [if_neg hne]
  show (if s.current.isEof then Parser.unexpected [.punct .greater]
    else if s.current.isPunct .less then _
    else if s.current.isPunct .greater || (afterClosingAngle s.current).isSome then
      (do closingAngle; return .next (depth - 1))
    else _ : Parser (Loop Nat)) s = _
  split
  · rfl
  split
  · rfl
  by_cases hgreater : s.current.isPunct .greater = true
  · rw [if_pos hgreater] at hclose
    rw [if_pos hgreater, if_pos (by simp [hgreater])]
    simp only [bind, Parser.bind, hclose]
    rfl
  rw [if_neg hgreater] at hclose ⊢
  cases hcut : afterClosingAngle s.current with
  | none =>
    rw [if_neg (by simp [hgreater])]
    rfl
  | some rest =>
    rw [hcut] at hclose
    rw [if_pos (by simp)]
    simp only [bind, Parser.bind, hclose]
    rfl

theorem loopUpTo_angleTurn_next {s s' : State} {depth depth' : Nat}
    (h : angleTurn depth s = (.ok (.next depth'), s')) (fuel : Nat) :
    loopUpTo angleTurn (fuel + 1) depth s = loopUpTo angleTurn fuel depth' s' := by
  simp only [loopUpTo, bind, Parser.bind, h]

theorem loopUpTo_angleTurn_error {s s' : State} {depth : Nat} {e : ParseError}
    (h : angleTurn depth s = (.error e, s')) (fuel : Nat) :
    loopUpTo angleTurn (fuel + 1) depth s = (.error e, s') := by
  simp only [loopUpTo, bind, Parser.bind, h]

/-- Angle brackets that are open are not closed where no angle bracket follows. -/
theorem loopUpTo_angleTurn_open (fuel : Nat) (s : State) {depth : Nat} (hdepth : 0 < depth)
    (h : ∀ p, s.pos ≤ p → beginsAngle (s.tokenAt p) = false) :
    ∃ e s', loopUpTo angleTurn fuel depth s = (.error e, s') ∧ s'.tokens = s.tokens := by
  induction fuel generalizing s depth with
  | zero => exact ⟨_, s, rfl, rfl⟩
  | succ fuel ih =>
    have hcurrent := h s.pos le_rfl
    simp only [beginsAngle, Bool.or_eq_false_iff, Option.isSome_eq_false_iff,
      Option.isNone_iff_eq_none] at hcurrent
    have hturn := angleTurn_eq s hdepth
    simp only [State.current, hcurrent.1, hcurrent.2, Bool.false_eq_true, if_false] at hturn
    have hnext : ∀ d, 0 < d → ∃ e s', loopUpTo angleTurn fuel d s.advance = (.error e, s') ∧
        s'.tokens = s.tokens := by
      intro d hd
      have htokens : s.advance.tokens = s.tokens := tokens_advance s
      obtain ⟨e, s', hrun, hsame⟩ := ih s.advance hd fun p hp => by
        have hle : s.pos ≤ p := (Frame.advance s).pos_le.trans hp
        simpa [State.tokenAt, htokens] using h p hle
      exact ⟨e, s', hrun, hsame.trans htokens⟩
    split at hturn
    · exact ⟨_, s, loopUpTo_angleTurn_error hturn fuel, rfl⟩
    split at hturn
    · rw [loopUpTo_angleTurn_next hturn]
      exact hnext _ (by omega)
    · rw [loopUpTo_angleTurn_next hturn]
      exact hnext _ hdepth

/-- What one turn does on both sides: less is left, what was passed stays, and if it closes the
last angle bracket, then no other bracket was opened or closed by it. -/
structure AngleStep (w : Passage) (s s' : Side → State) (depth : Nat) : Prop where
  twin : w.Twin s'
  below : (s' .left).Below (s .left)
  pos_le : (s .left).pos ≤ (s' .left).pos
  passed : ∀ p < (s .left).pos, (s' .left).tokens[p]? = (s .left).tokens[p]?
  closes : depth = 0 → beginsAngle (s .left).current = true ∧
    ∀ f ∈ w.level?, f (s' .left).pos = f (s .left).pos

theorem Passage.Twin.angleStep_advance (hs : w.Twin s) (hlt : (s .left).pos < w.count) {depth : Nat}
    (hcloses : depth = 0 → (s .left).current.isPunct .greater = true) :
    AngleStep w s (fun i => (s i).advance) depth where
  twin := hs.advance hlt
  below := hs.below_advance hlt
  pos_le := (Frame.advance _).pos_le
  passed p _ := by rw [tokens_advance]
  closes hdepth := by
    have hgreater := hcloses hdepth
    refine ⟨by simp [beginsAngle, hgreater], fun f hf => ?_⟩
    rw [hs.level_advance hlt hf, eq_of_isPunct hgreater]
    exact Int.add_zero _

theorem Passage.Twin.angleStep_splitCurrent (hs : w.Twin s) {rest : Token} (depth : Nat)
    (hcut : afterClosingAngle (s .left).current = some rest) :
    AngleStep w s (fun i => (s i).splitCurrent rest) depth where
  twin := hs.splitCurrent hcut
  below := hs.below_splitCurrent hcut
  pos_le := le_rfl
  passed p hp := by simp [State.splitCurrent, Array.getElem?_modify, hp.ne']
  closes _ := ⟨by simp [beginsAngle, hcut], fun _ _ => rfl⟩

theorem Passage.Twin.angleTurn (hs : w.Twin s) (hlt : (s .left).pos < w.count) {depth : Nat}
    (hdepth : 0 < depth) :
    ∃ depth' s', (∀ i, Parse.angleTurn depth (s i) = (.ok (.next depth'), s' i)) ∧
      AngleStep w s s' depth' := by
  have heof : (s .left).current.isEof = false := by
    cases hs.reads_current with
    | token _ _ heof => exact heof
    | ending heq => exact absurd heq hlt.ne
  have halike : ∀ (β : Type) (f : Token → β),
      (∀ parts parts', f (.template parts) = f (.template parts')) →
      ∀ i, f (s i).current = f (s .left).current := fun β f htemplate i => by
    cases i with
    | left => rfl
    | right => exact hs.reads_current.apply f htemplate fun _ heq => absurd heq hlt.ne
  have heofs := halike _ Token.isEof fun _ _ => rfl
  have hlesses := halike _ (·.isPunct .less) fun _ _ => rfl
  have hgreaters := halike _ (·.isPunct .greater) fun _ _ => rfl
  have hcuts := halike _ afterClosingAngle fun _ _ => rfl
  have hturn := fun i => angleTurn_eq (s i) hdepth
  simp only [heofs, hlesses, hgreaters, hcuts, heof, Bool.false_eq_true, if_false] at hturn
  by_cases hless : (s .left).current.isPunct .less = true
  · simp only [if_pos hless] at hturn
    exact ⟨depth + 1, _, hturn, hs.angleStep_advance hlt (by omega)⟩
  simp only [if_neg hless] at hturn
  by_cases hgreater : (s .left).current.isPunct .greater = true
  · simp only [if_pos hgreater] at hturn
    exact ⟨depth - 1, _, hturn, hs.angleStep_advance hlt fun _ => hgreater⟩
  simp only [if_neg hgreater] at hturn
  cases hcut : afterClosingAngle (s .left).current with
  | none =>
    simp only [hcut] at hturn
    exact ⟨depth, _, hturn, hs.angleStep_advance hlt (by omega)⟩
  | some rest =>
    simp only [hcut] at hturn
    exact ⟨depth - 1, _, hturn, hs.angleStep_splitCurrent _ hcut⟩

theorem beginsAngle_of_ends {t : Token} (h : Ends t) : beginsAngle t = false := by
  cases h <;> rfl

/-- No angle bracket stands on the right after a passage that leaves one open. -/
theorem Passage.Twin.beginsAngle_beyond (hs : w.Twin s) (hon : w.goesOn = true)
    {p : Nat} {a : SpannedToken} (ha : (s .left).tokens[p]? = some a)
    (hopen : a.1.isPunct .less = true) {q : Nat} (hq : w.offset + w.count ≤ q) :
    beginsAngle ((s .right).tokenAt q) = false := by
  rcases hq.eq_or_lt with rfl | hlt
  · have hstop : isStop ((s .right).tokenAt (w.offset + w.count)) = true := by
      cases hs.reads le_rfl with
      | token hlt => exact absurd hlt (lt_irrefl _)
      | ending _ _ hright => simpa [hon] using hright
    exact beginsAngle_of_ends (.of_isStop hstop)
  · cases hb : (s .right).tokens[q]? with
    | none => simp [State.tokenAt, hb, beginsAngle, Token.isPunct, afterClosingAngle]
    | some b =>
      simp only [State.tokenAt, hb, Option.map_some, Option.getD_some]
      exact hs.tokens.beyond hon p a ha hopen q b hlt hb

/-- How a list in angle brackets, the first of which stands at `p`, ends on both sides. -/
inductive AnglesEnd (w : Passage) (s : Side → State) (p : Nat)
    (run : Side → Except ParseError Nat × State) : Prop where
  | closed (r : Side → State) (hrun : ∀ i, run i = (.ok 0, r i)) (htwin : w.Twin r)
      (hreach : (r .left).reach ≤ (s .left).reach) (hsteps : (r .left).steps ≤ (s .left).steps)
      (hpos : 0 < (r .left).pos) (hlevel : ∀ f ∈ w.level?, f (r .left).pos = f p)
  | failed (e : Side → ParseError) (r : Side → State) (hrun : ∀ i, run i = (.error (e i), r i))
      (hfailed : Failed w e r)

/-- At the end of the passage an open list fails on both sides: the right one goes on if it can, but
finds no angle bracket. -/
theorem Passage.Twin.angles_end (hs : w.Twin s) (heq : (s .left).pos = w.count) {p : Nat}
    {a : SpannedToken} (ha : (s .left).tokens[p]? = some a) (hopen : a.1.isPunct .less = true)
    {depth : Nat} (hdepth : 0 < depth) (n : Side → Nat) :
    AnglesEnd w s p fun i => loopUpTo Parse.angleTurn (n i + 1) depth (s i) := by
  have hends : ∀ i, (s i).current = .eof → Parse.angleTurn depth (s i) =
      (.error ((s i).unexpected [.punct .greater]), s i) := fun i heof => by
    rw [angleTurn_eq _ hdepth, heof]
    rfl
  have hleft := hends .left (hs.current_eof heq)
  cases hon : w.goesOn with
  | false =>
    have hright := hends .right (by
      cases hs.reads_current with
      | token hlt => exact absurd heq hlt.ne
      | ending _ _ hright => simpa [hon] using hright)
    refine .failed _ s (fun i => ?_) (Agrees.unexpected_alike hs [.punct .greater])
    cases i with
    | left => exact loopUpTo_angleTurn_error hleft _
    | right => exact loopUpTo_angleTurn_error hright _
  | true =>
    obtain ⟨e, r, hrun, htokens⟩ := loopUpTo_angleTurn_open (n .right + 1) (s .right) hdepth
      fun q hq => hs.beginsAngle_beyond hon ha hopen (by
        have hpos := hs.pos .right
        rw [place_right, heq] at hpos
        omega)
    refine .failed (fun | .left => (s .left).unexpected [.punct .greater] | .right => e)
      (fun | .left => s .left | .right => r) (fun i => ?_) ⟨?_, fun hclosed => ?_⟩
    · cases i with
      | left => exact loopUpTo_angleTurn_error hleft _
      | right => exact hrun
    · have hsame : (fun i : Side => (match i with | .left => s .left | .right => r : State).tokens) =
          fun i => (s i).tokens := by
        funext i
        cases i with
        | left => rfl
        | right => exact htokens
      rw [hsame]
      exact hs.tokens
    · rw [hon] at hclosed
      cases hclosed

theorem Passage.Twin.angles {s : Side → State} (hs : w.Twin s) {k : Nat} (hk : (s .left).steps ≤ k)
    {fuel : Side → Nat} (hfuel : ∀ i, k < fuel i) {p : Nat} (hp : p < (s .left).pos)
    {a : SpannedToken} (ha : (s .left).tokens[p]? = some a) (hopen : a.1.isPunct .less = true)
    (depth : Nat) (hlevel : depth = 0 → ∀ f ∈ w.level?, f (s .left).pos = f p) :
    AnglesEnd w s p fun i => loopUpTo Parse.angleTurn (fuel i) depth (s i) := by
  have hsucc : ∀ i, ∃ n, fuel i = n + 1 := fun i =>
    Nat.exists_eq_add_one_of_ne_zero (Nat.ne_zero_of_lt (hfuel i))
  choose n hn using hsucc
  simp only [hn]
  rcases depth.eq_zero_or_pos with rfl | hdepth
  · exact .closed s (fun _ => rfl) hs le_rfl le_rfl (by omega) (hlevel rfl)
  rcases hs.pos_le.lt_or_eq with hlt | heq
  · obtain ⟨depth', s', hturn, hstep⟩ := hs.angleTurn hlt hdepth
    simp only [loopUpTo_angleTurn_next (hturn _)]
    have hsteps := hstep.below.steps
    have hreach := hstep.below.reach
    have hless : ∀ i, k - 1 < n i := fun i => by
      have hlt := hfuel i
      rw [hn i] at hlt
      omega
    have hnext := hstep.twin.angles (k := k - 1) (by omega) hless (hp.trans_le hstep.pos_le)
      ((hstep.passed p hp).trans ha) hopen depth' fun hzero f hf => by
        obtain ⟨hangle, hsame⟩ := hstep.closes hzero
        obtain ⟨b, hb, -⟩ := hs.tokens.reads _ hlt.le
        have hget := hb .left
        simp only [place_left] at hget
        have hcurrent : (b .left).1 = (s .left).current := by
          simp [State.current, State.tokenAt, hget]
        rw [hsame f hf]
        exact hs.tokens.angles f hf p _ a (b .left) hp hlt ha hget hopen (hcurrent ▸ hangle)
    cases hnext with
    | closed r hrun htwin hreach' hsteps' hpos hlevel =>
      exact .closed r hrun htwin (by omega) (by omega) hpos hlevel
    | failed e r hrun hfailed => exact .failed e r hrun hfailed
  · exact hs.angles_end heq ha hopen hdepth n
termination_by k

theorem skipTypeParameters_eq (s : State) :
    skipTypeParameters s =
      if s.current.isPunct .less then
        match loopUpTo angleTurn (4 * s.advance.tokens.size + 1) 1 s.advance with
        | (.ok _, r) => (.ok (), r)
        | (.error e, r) => (.error e, r)
      else (.ok (), s) := by
  have heq : skipTypeParameters = (do
      if ← Parser.eat .less then
        let _ ← Parser.loop 1 angleTurn) := rfl
  rw [heq]
  simp only [bind, Parser.bind, Parser.eat, Parser.eatIf]
  by_cases hless : s.current.isPunct .less = true
  · simp only [if_pos hless]
    rw [if_pos trivial]
    simp only [Parser.bind, Parser.loop]
    obtain ⟨result, r⟩ := loopUpTo angleTurn (4 * s.advance.tokens.size + 1) 1 s.advance
    cases result <;> rfl
  · simp only [if_neg hless]
    rfl

/-- Skips a list of type parameters. -/
theorem Agrees.skipTypeParameters :
    Agrees w m (fun _ => m.forget) fun _ => Parse.skipTypeParameters := by
  intro s hs hm
  have htakes : Takes w m (·.isPunct .less) m.level := takes_mark w m rfl rfl
  have hless : ∀ i, (s i).current.isPunct .less = (s .left).current.isPunct .less := fun i => by
    cases i with
    | left => rfl
    | right => exact htakes.alike hs hm
  simp only [skipTypeParameters_eq, hless]
  by_cases htake : (s .left).current.isPunct .less = true
  · simp only [if_pos htake]
    have hlt := hs.lt_count (htakes.isEof htake)
    obtain ⟨htwin, hmark⟩ := htakes.advance hs hm htake
    obtain ⟨a, ha, -⟩ := hs.tokens.reads _ hlt.le
    have hget := ha .left
    simp only [Passage.place_left] at hget
    have hcurrent : (a .left).1 = (s .left).current := by
      simp [State.current, State.tokenAt, hget]
    have hpos : (s .left).pos < (s .left).advance.pos := by
      rw [hs.advance_eq hlt .left]
      exact Nat.lt_succ_self _
    have hfuel : ∀ i, (s .left).advance.steps < 4 * (s i).advance.tokens.size + 1 := fun i => by
      have hle := (s .left).advance.steps_le
      have hsize := hs.tokens.size
      have hright := hs.tokens.size_le
      rw [tokens_advance] at hle ⊢
      cases i <;> omega
    have hend := htwin.angles le_rfl hfuel hpos (by rw [tokens_advance, hget]) (hcurrent ▸ htake) 1
      (by omega)
    cases hend with
    | closed r hrun htwin hreach hsteps hmoved hlevel =>
      refine .value () r (fun i => ?_) htwin ⟨?_, ?_, fun f hf => ?_, fun _ => hmoved, trivial⟩
      · simp only [hrun]
      · exact hreach.trans (hmark.budget.trans (Nat.sub_le _ _))
      · exact hsteps.trans (hmark.steps.trans (Nat.sub_le _ _))
      · exact (hlevel f hf).trans (hm.level f hf)
    | failed e r hrun hfailed =>
      refine .error e r (fun i => ?_) hfailed
      simp only [hrun]
  · simp only [if_neg htake]
    exact .value () s (fun _ => rfl) hs (m.implies_forget _ hm)

end Parse
end ScriptLint
