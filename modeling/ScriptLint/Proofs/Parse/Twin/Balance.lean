import ScriptLint.Proofs.Parse.Twin.Embedded

namespace ScriptLint
namespace Parse

variable {s : State} {k p : Nat}

/-- The state in which the tokens end at a place. -/
def State.ending (s : State) (k : Nat) : State :=
  { s with tokens := (s.tokens.toList.take k ++ [(Token.eof, s.spanAt k)]).toArray }

namespace State

theorem size_ending (hk : k < s.tokens.size) : (s.ending k).tokens.size = k + 1 := by
  simp [ending]
  omega

theorem ending_lt (hp : p < k) (hk : k < s.tokens.size) :
    (s.ending k).tokens[p]? = s.tokens[p]? := by
  have hlength : p < (s.tokens.toList.take k).length := by
    simp
    omega
  simp [ending, List.getElem?_append_left hlength, hp]

theorem ending_at (hk : k < s.tokens.size) :
    (s.ending k).tokens[k]? = some (.eof, s.spanAt k) := by
  have hlength : (s.tokens.toList.take k).length = k := by
    simp
    omega
  rw [ending, List.getElem?_toArray, List.getElem?_append_right hlength.le, hlength,
    Nat.sub_self, List.getElem?_cons_zero]

/-- At each place stands what stood there, with the same span. -/
theorem exists_of_ending (hk : k < s.tokens.size) {b : SpannedToken}
    (hb : (s.ending k).tokens[p]? = some b) :
    ∃ a, s.tokens[p]? = some a ∧ b.2 = a.2 ∧ (p < k ∧ b = a ∨ p = k ∧ b.1 = .eof) := by
  have hlt := (Array.getElem?_eq_some_iff.mp hb).1
  rw [size_ending hk] at hlt
  rcases (Nat.le_of_lt_succ hlt).lt_or_eq with hp | rfl
  · rw [ending_lt hp hk] at hb
    exact ⟨b, hb, rfl, .inl ⟨hp, rfl⟩⟩
  · rw [ending_at hk, Option.some.injEq] at hb
    have ha := Array.getElem?_eq_getElem hk
    refine ⟨_, ha, ?_, .inr ⟨rfl, ?_⟩⟩
    · rw [← hb, spanAt, ha]
    · rw [← hb]

theorem Ready.ending (hs : s.Ready) (hk : k < s.tokens.size) (hpos : s.pos ≤ k) :
    (s.ending k).Ready where
  pos_lt := by
    rw [size_ending hk]
    exact Nat.lt_succ_of_le hpos
  placed i b hb := by
    obtain ⟨a, ha, hspan, ⟨-, rfl⟩ | ⟨-, heof⟩⟩ := exists_of_ending hk hb
    · exact hs.placed i b ha
    · rw [heof, hspan]
      exact .plain (hs.span_on ha) nofun nofun nofun nofun
  ordered i b d hb hd := by
    obtain ⟨a, ha, hspan, -⟩ := exists_of_ending hk hb
    obtain ⟨c, hc, hspan', -⟩ := exists_of_ending hk hd
    rw [hspan, hspan']
    exact hs.ordered i a c ha hc
  spaced i b d hb hd hlt hwhole := by
    rw [size_ending hk] at hlt
    rw [ending_lt (by omega) hk] at hb hd
    exact hs.spaced i b d hb hd (by omega) hwhole
  last i b hb hi := by
    rw [size_ending hk, Nat.succ.injEq] at hi
    rw [hi, ending_at hk, Option.some.injEq] at hb
    rw [← hb]

end State

/-- A token of a text is the same one in the same text. -/
theorem tokenTwin_self {text : List Char} {tokens : List SpannedToken}
    (h : tokenize text = .ok tokens) (verbatim : Bool) {b : SpannedToken} (hb : b ∈ tokens) :
    TokenTwin (fun _ => text) verbatim b.1 b.1 := by
  let a : Around := ⟨[], text, []⟩
  have hsource : a.source = fun _ => text := by
    funext i
    cases i with
    | left => rfl
    | right => exact List.append_nil text
  have hsame : tokensMovedTo a.place tokens = tokens := by
    obtain ⟨-, rfl⟩ := tokenize_eq_ok_iff.mp h
    exact congrArg Scan.tokens (scanAt_eq_movedTo .origin text).symm
  obtain ⟨i, hi⟩ := List.mem_iff_getElem?.mp hb
  have hmoved := congrArg (·[i]?) hsame
  simp only [tokensMovedTo_eq_map, List.getElem?_map, hi, Option.map_some,
    Option.some.injEq] at hmoved
  have hfst : b.1.movedTo a.place = b.1 := congrArg Prod.fst hmoved
  have htwin := tokenTwin_movedTo a verbatim ((tokenize_placed h).token hi).1
  rwa [hsource, hfst] at htwin

/-- A bracket that closes one is a mark at which expressions stop, no operator and no access. -/
theorem isStop_of_bracketStep {t : Token} (h : bracketStep t = -1) :
    isStop t = true ∧ InfixOperator.ofToken? true t = none ∧ t ≠ .punct .questionDot := by
  unfold bracketStep at h
  split_ifs at h with hopens hcloses
  unfold State.closesBracket at hcloses
  split at hcloses
  all_goals first | exact ⟨rfl, rfl, by simp⟩ | cases hcloses

/-- A stretch of the tokens of a state, up to a place where an expression may end. -/
structure Stretch (s : State) (k : Nat) (level : Nat → Int) : Prop where
  scan : tokenize s.source = .ok s.tokens.toList
  pos_le : s.pos ≤ k
  lt_size : k < s.tokens.size
  /-- The stretch ends where the tokens do, or at a closing bracket at the outermost level. -/
  ends : k + 1 = s.tokens.size ∨ k + 1 < s.tokens.size ∧ bracketStep (s.tokenAt k) = -1 ∧ level k = 0
  level_pos : level s.pos = 0
  level_succ : ∀ p a, s.tokens[p]? = some a → level (p + 1) = level p + bracketStep a.1
  angleless : ∀ a ∈ s.tokens, a.1.isPunct .less = true → ∀ b ∈ s.tokens, beginsAngle b.1 = false

namespace Stretch

variable {level : Nat → Int}

/-- The stretch on both sides, where on the left nothing comes after it. -/
def passage (s : State) (k : Nat) (level : Nat → Int) : Passage :=
  { source := fun _ => s.source, offset := 0, count := k, base := 0, verbatim := false,
    goesOn := decide (k + 1 < s.tokens.size), ceiling := 0, level? := some level }

theorem placed (h : Stretch s k level) :
    TokensPlaced s.source 0 (byteLength s.source) s.tokens.toList := tokenize_placed h.scan

theorem ready (h : Stretch s k level) : s.Ready := by
  have hstart : State.Ready { s with pos := 0 } := State.ready_of_placed h.placed rfl rfl
  exact hstart.congr rfl rfl (h.pos_le.trans_lt h.lt_size)

/-- The tokens of both sides. -/
theorem exists_pair (h : Stretch s k level) (hp : p ≤ k) : ∃ a : SpannedToken,
    s.tokens[p]? = some a ∧ ∀ i, (Side.pick (s.ending k) s i).tokens[(passage s k level).place i p]? =
      some (Side.pick (if p < k then a.1 else .eof) a.1 i, a.2) := by
  have ha := Array.getElem?_eq_getElem (hp.trans_lt h.lt_size)
  refine ⟨_, ha, fun i => ?_⟩
  cases i with
  | right => exact (congrArg (s.tokens[·]?) (Nat.zero_add p)).trans ha
  | left =>
    rcases hp.lt_or_eq with hlt | rfl
    · rw [if_pos hlt]
      exact (State.ending_lt hlt h.lt_size).trans ha
    · rw [if_neg (lt_irrefl p)]
      refine (State.ending_at h.lt_size).trans ?_
      rw [State.spanAt, ha]
      rfl

theorem reads (h : Stretch s k level) (hp : p ≤ k) : ∃ c : Side → SpannedToken,
    (∀ i, (Side.pick (s.ending k) s i).tokens[(passage s k level).place i p]? = some (c i)) ∧
      (passage s k level).Reads p fun i => (c i).1 := by
  obtain ⟨a, ha, hpair⟩ := h.exists_pair hp
  refine ⟨_, hpair, ?_⟩
  rcases hp.lt_or_eq with hlt | rfl
  · have hmem : a ∈ s.tokens.toList := by
      simpa using Array.mem_of_getElem? ha
    have heof := h.placed.isEof_of_lt (i := p) (by simpa using ha) (by
      have hsize := h.lt_size
      simp only [Array.length_toList]
      omega)
    simp only [if_pos hlt]
    exact .token hlt (tokenTwin_self h.scan false hmem) heof
  · simp only [if_neg (lt_irrefl p)]
    have htoken : s.tokenAt p = a.1 := by simp [State.tokenAt, ha]
    rcases h.ends with hlast | ⟨hlt, hclose, -⟩
    · have hend : (passage s p level).goesOn = false := decide_eq_false (by omega)
      have heof : a.1 = .eof :=
        h.placed.eof_of_last (i := p) (by simpa using ha) (by simpa using hlast)
      refine .ending rfl rfl ?_ (fun operator hoperator => ?_) fun hmark => ?_
      · rw [hend]
        exact heof
      · have hoperator : InfixOperator.ofToken? true a.1 = some operator := hoperator
        rw [heof] at hoperator
        cases hoperator
      · cases heof.symm.trans hmark
    · have hon : (passage s p level).goesOn = true := decide_eq_true hlt
      obtain ⟨hstop, hnone, hmark⟩ := isStop_of_bracketStep hclose
      refine .ending rfl rfl ?_ (fun operator hoperator => ?_) fun haccess => ?_
      · rw [hon]
        exact htoken ▸ hstop
      · have hoperator : InfixOperator.ofToken? true a.1 = some operator := hoperator
        rw [← htoken, hnone] at hoperator
        cases hoperator
      · exact absurd (htoken.trans haccess) hmark

theorem holds (h : Stretch s k level) :
    (passage s k level).Tokens fun i => (Side.pick (s.ending k) s i).tokens where
  size := State.size_ending h.lt_size
  size_le := h.lt_size
  size_eq hclosed := by
    have hnot := of_decide_eq_false hclosed
    have hlt := h.lt_size
    exact (show s.tokens.size = 0 + (k + 1) by omega)
  reads _ hp := h.reads hp
  beside p hp c d hc hd := by
    obtain ⟨a, -, hpair⟩ := h.exists_pair hp.le
    obtain ⟨b, -, hpair'⟩ := h.exists_pair (p := p + 1) hp
    have hspan : ∀ i, (c i).2 = a.2 := fun i => by
      rw [Option.some.inj ((hc i).symm.trans (hpair i) :)]
    have hspan' : ∀ i, (d i).2 = b.2 := fun i => by
      rw [Option.some.inj ((hd i).symm.trans (hpair' i) :)]
    refine ⟨?_, nofun, nofun⟩
    simp only [hspan, hspan']
    rfl
  spelled _ _ _ _ := nofun
  level := by
    rintro f ⟨⟩ p hp a ha
    have hget := State.ending_lt (show p < k from hp) h.lt_size
    exact h.level_succ p a (hget.symm.trans ha)
  angles := by
    rintro f ⟨⟩ p q a b hpq hq ha hb hopen hclose
    have hget := State.ending_lt (show p < k from hpq.trans hq) h.lt_size
    have hget' := State.ending_lt (show q < k from hq) h.lt_size
    rw [h.angleless a (Array.mem_of_getElem? (hget.symm.trans ha)) hopen b
      (Array.mem_of_getElem? (hget'.symm.trans hb))] at hclose
    cases hclose
  beyond _ p a ha hopen q b _ hb := by
    obtain ⟨a', ha', -, ⟨-, rfl⟩ | ⟨-, heof⟩⟩ := State.exists_of_ending h.lt_size ha
    · exact h.angleless a (Array.mem_of_getElem? ha') hopen b (Array.mem_of_getElem? hb)
    · rw [heof] at hopen
      cases hopen
  level_end hon := by
    rcases h.ends with hlast | ⟨-, -, hlevel⟩
    · have hlt := of_decide_eq_true hon
      omega
    · exact ⟨level, rfl, hlevel⟩
  heritage _ hceiling := absurd hceiling (Nat.not_lt_of_le (Nat.zero_le _))

theorem twin (h : Stretch s k level) :
    (passage s k level).Twin (Side.pick (s.ending k) s) where
  ready i := by
    cases i with
    | left => exact h.ready.ending h.lt_size h.pos_le
    | right => exact h.ready
  source i := by cases i <;> rfl
  tokens := h.holds
  pos i := by
    cases i with
    | left => rfl
    | right => exact (Nat.zero_add _).symm
  pos_le := h.pos_le
  tree := by
    have hid : ((passage s k level).base + ·) = id := funext Nat.zero_add
    refine ⟨(Nat.zero_add _).symm, fun id => .inl ?_⟩
    rw [hid, Node.renumber_id]
    exact congrArg s.tree.node (Nat.zero_add id)
  depth i := by cases i <;> rfl
  allowIn i := by cases i <;> rfl

/-- Parsers cannot be nested deeper before tokens that end early. -/
theorem reach_ending_le (h : Stretch s k level) : (s.ending k).reach ≤ s.reach := by
  have htoken : ∀ i ∈ Finset.Ico s.pos (k + 1),
      mass ((s.ending k).tokenAt i) ≤ mass (s.tokenAt i) := by
    intro i hi
    rcases (Nat.le_of_lt_succ (Finset.mem_Ico.mp hi).2).lt_or_eq with hlt | rfl
    · rw [State.tokenAt, State.ending_lt hlt h.lt_size]
      exact le_rfl
    · have heof : (s.ending i).tokenAt i = .eof := by
        simp [State.tokenAt, State.ending_at h.lt_size]
      rw [heof]
      exact mass_pos _
  have hsubset : Finset.Ico s.pos (k + 1) ⊆ Finset.Ico s.pos s.tokens.size :=
    Finset.Ico_subset_Ico_right h.lt_size
  have htotal : (s.ending k).total mass ≤ s.total mass := by
    rw [State.total, State.size_ending h.lt_size]
    exact (Finset.sum_le_sum htoken).trans
      (Finset.sum_le_sum_of_subset hsubset)
  exact Nat.add_le_add_left htotal _

end Stretch

/-- A parser that does the same on both sides of a passage, if no operator of at least a level comes
after it, and closes the brackets it opens. -/
structure Paired {α : Type} [Renumber α] (least : Precedence) (p : Grammar → Parser α) : Prop where
  agrees : ∀ {k : Nat} {g : Side → Grammar} {w : Passage} {m : Mark}, Grammars k g → m.Within k →
    m.Clears w least → Agrees w m (fun _ => m.forget) fun i => p (g i)
  frame : ∀ {g : Grammar}, g.Sound → ∀ s, Frame s (p g s).2

theorem Grows.frame {α : Type} {p : Parser α} {moved : Bool} {out : α → List NodeId}
    (h : Grows p moved out) (s : State) : Frame s (p s).2 := by
  have hleads := h s
  unfold Leads at hleads
  split at hleads
  · next heq =>
    rw [heq]
    exact hleads.frame
  · next heq =>
    rw [heq]
    exact hleads

theorem paired_expression : Paired .nullCoalescing expression where
  agrees hg hm hclear := (agrees_expression hg hm hclear).relax
  frame hg := (grows_expression hg).frame

theorem paired_assignment : Paired .nullCoalescing assignment where
  agrees hg hm hclear := (agrees_assignment hg (Nat.le_succ_of_le hm) hclear).relax
  frame hg := (grows_assignment hg).frame

theorem paired_formalParameters : Paired .nullCoalescing formalParameters where
  agrees hg hm _ := (agrees_formalParameters hg hm).relax
  frame hg := (grows_formalParameters hg).frame

variable {α : Type} {p : Grammar → Parser α} {least : Precedence} {n : Nat} {a : α} {s' : State}
  {level : Nat → Int}

/-- What is read of a stretch ends inside it, at the outermost level. -/
theorem Stretch.run [Renumber α] (h : Stretch s k level) (hp : Paired least p) (hn : s.reach ≤ n)
    (hrun : p (Grammar.upTo n) s = (.ok a, s')) : s'.pos ≤ k ∧ level s'.pos = 0 := by
  obtain ⟨levels, hlevels⟩ := Nat.exists_eq_add_one_of_ne_zero (State.reach_pos h.ready.pos_lt).ne'
  have hg := grammars_upTo levels (n := fun _ => n) fun _ => hlevels ▸ hn
  let m : Mark := ⟨levels + 1, (s.ending k).steps, 0, false, fun _ => True⟩
  have hm : m.Holds (passage s k level) (s.ending k) := by
    refine ⟨h.reach_ending_le.trans hlevels.le, le_rfl, ?_, nofun, trivial⟩
    rintro f ⟨⟩
    exact h.level_pos
  cases hp.agrees hg (m := m) le_rfl (fun _ => .inr (Nat.zero_le _)) _ h.twin hm with
  | error e r hrun' _ => cases (hrun' .right).symm.trans hrun
  | value b r hrun' htwin hmark =>
    obtain ⟨-, rfl⟩ : _ ∧ r .right = s' := by
      simpa using (hrun' .right).symm.trans hrun
    have hpos : (r .right).pos = (r .left).pos := by
      rw [htwin.pos .right]
      exact Nat.zero_add _
    rw [hpos]
    exact ⟨htwin.pos_le, hmark.level level rfl⟩

/-- A parser takes all tokens of a text. -/
structure ReadAlone {α : Type} (p : Grammar → Parser α) (n : Nat) (s : State) (a : α) (s' : State) :
    Prop where
  scan : tokenize s.source = .ok s.tokens.toList
  pos_eq : s.pos = 0
  reach_le : s.reach ≤ n
  angleless : ∀ a ∈ s.tokens, a.1.isPunct .less = true → ∀ b ∈ s.tokens, beginsAngle b.1 = false
  run : p (Grammar.upTo n) s = (.ok a, s')
  atEof : s'.atEof = true

namespace ReadAlone

theorem lt_size (h : ReadAlone p n s a s') : 0 < s.tokens.size := by
  simpa using (tokenize_placed h.scan).length_pos

theorem stretch (h : ReadAlone p n s a s') (hk : k < s.tokens.size)
    (hends : k + 1 = s.tokens.size ∨ k + 1 < s.tokens.size ∧ bracketStep (s.tokenAt k) = -1 ∧
      openBefore s.tokens.toList k = 0) :
    Stretch s k (openBefore s.tokens.toList) where
  scan := h.scan
  pos_le := h.pos_eq.trans_le (Nat.zero_le k)
  lt_size := hk
  ends := hends
  level_pos := by rw [h.pos_eq, openBefore_zero]
  level_succ p a ha := openBefore_succ (by simpa using ha)
  angleless := h.angleless

variable [Renumber α]

theorem frame (h : ReadAlone p n s a s') (hp : Paired least p) : Frame s s' := by
  have hframe := hp.frame (Grammar.sound_upTo n) s
  rwa [h.run] at hframe

/-- The parser ends at the last token. -/
theorem pos_succ (h : ReadAlone p n s a s') (hp : Paired least p) : s'.pos + 1 = s.tokens.size := by
  have hlast : s.tokens.size - 1 < s.tokens.size := Nat.sub_lt h.lt_size Nat.one_pos
  have hstretch := h.stretch hlast (.inl (Nat.sub_add_cancel h.lt_size))
  have hle := (hstretch.run hp h.reach_le h.run).1
  have hlt : s'.pos < s.tokens.size := hle.trans_lt hlast
  have hremain := (h.frame hp).tokens
  obtain ⟨b, hb⟩ : ∃ b, s'.tokens[s'.pos]? = some b :=
    ⟨_, Array.getElem?_eq_getElem (hremain.size ▸ hlt)⟩
  have heof : b.1.isEof = true := by
    have hend : s'.current.isEof = true := h.atEof
    rwa [State.current, State.tokenAt, hb] at hend
  obtain ⟨a, ha, hremains⟩ := hremain.before hb
  have hwhole : ¬IsRemainder b.1 := by
    rintro ⟨t, ht⟩
    rw [(isRest_of_afterClosingAngle ht).eof] at heof
    cases heof
  rw [hremains.eq hwhole] at heof
  by_contra hne
  have hnot := (tokenize_placed h.scan).isEof_of_lt (i := s'.pos) (by simpa using ha)
    (by simp only [Array.length_toList]; omega)
  rw [hnot] at heof
  cases heof

/-- At no place are more brackets closed than were opened. -/
theorem nonneg (h : ReadAlone p n s a s') (hp : Paired least p) {q : Nat} (hq : q < s.tokens.size) :
    0 ≤ openBefore s.tokens.toList q := by
  induction q with
  | zero => exact le_rfl
  | succ q ih =>
    have hlt := Nat.lt_of_succ_lt hq
    have hget : s.tokens.toList[q]? = some s.tokens[q] := by simp [hlt]
    have hstep := openBefore_succ hget
    by_contra hneg
    have hclose : bracketStep s.tokens[q].1 = -1 ∧ openBefore s.tokens.toList q = 0 := by
      have hnonneg := ih hlt
      have hge : -1 ≤ bracketStep s.tokens[q].1 := by
        unfold bracketStep
        split_ifs <;> decide
      omega
    -- the text would be read no further than to the bracket
    have hstep : bracketStep (s.tokenAt q) = -1 := by
      rw [State.tokenAt, Array.getElem?_eq_getElem hlt]
      exact hclose.1
    have hle := ((h.stretch hlt (.inr ⟨hq, hstep, hclose.2⟩)).run hp h.reach_le h.run).1
    have hend := h.pos_succ hp
    omega

/-- All brackets that were opened are closed. -/
theorem balanced (h : ReadAlone p n s a s') (hp : Paired least p) :
    openBefore s.tokens.toList (s.tokens.size - 1) = 0 := by
  have hlast : s.tokens.size - 1 < s.tokens.size := Nat.sub_lt h.lt_size Nat.one_pos
  have hstretch := h.stretch hlast (.inl (Nat.sub_add_cancel h.lt_size))
  rw [← (hstretch.run hp h.reach_le h.run).2, ← h.pos_succ hp, Nat.add_sub_cancel]

end ReadAlone

end Parse
end ScriptLint
