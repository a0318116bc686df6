import ScriptLint.Proofs.Parse.Template
import ScriptLint.Proofs.Parse.Twin.Function

namespace ScriptLint

namespace Parse

open ScriptLint.Parser

variable {w : Passage} {m : Mark} {k : Nat} {g : Side → Grammar} {s : Side → State}

theorem agrees_expression (hg : Grammars k g) (hm : m.Within k) (hclear : m.Clears w .nullCoalescing) :
    Agrees w m (fun _ => m.step) fun i => expression (g i) := by
  unfold expression
  have hitems := Agrees.separatedBy .comma rfl rfl (hg.assignment hm hclear)
    fun j => hg.assignment (m := (m.step.turn j).step) hm.step.step hclear
  refine .span fun start => hitems.bind fun expressions => ?_
  have hfinish : ∀ expressions : List NodeId, Agrees w m.step (fun _ => m.step) fun i =>
      finish (start i) (.sequenceExpression (expressions.map (w.id i))) :=
    fun expressions => .finish (.sequenceExpression expressions) fun _ => rfl
  cases expressions with
  | nil => exact hfinish []
  | cons single expressions =>
    cases expressions with
    | nil => exact .pure single (fun _ => rfl) (.refl _)
    | cons next expressions => exact hfinish (single :: next :: expressions)

/-- The passage of a substitution's tokens. -/
def Passage.inner (w : Passage) (count : Nat) : Passage :=
  { w with offset := 0, count, goesOn := false, level? := none }

theorem TokensTwin.length {source : Side → List Char} {verbatim : Bool} {ts ts' : List SpannedToken}
    (h : TokensTwin source verbatim ts ts') : 0 < ts.length ∧ ts'.length = ts.length := by
  induction ts generalizing ts' with
  | nil => cases h
  | cons a ts ih =>
    cases h with
    | last => exact ⟨Nat.one_pos, rfl⟩
    | more htoken heof hbeside hrest =>
      have hlength := (ih hrest).2
      simp only [List.length_cons] at hlength ⊢
      omega

/-- What stands at one place of both. -/
theorem TokensTwin.reads {source : Side → List Char} {verbatim : Bool} {ts ts' : List SpannedToken}
    (h : TokensTwin source verbatim ts ts') {p : Nat} {a a' : SpannedToken} (ha : ts[p]? = some a)
    (ha' : ts'[p]? = some a') :
    (p + 1 = ts.length ∧ a.1 = .eof ∧ a'.1 = .eof) ∨
      (p + 1 < ts.length ∧ TokenTwin source verbatim a.1 a'.1 ∧ a.1.isEof = false) := by
  induction ts generalizing ts' p with
  | nil => cases h
  | cons b ts ih =>
    cases h with
    | last =>
      cases p with
      | zero =>
        cases ha
        cases ha'
        exact .inl ⟨rfl, rfl, rfl⟩
      | succ p => simp at ha
    | more htoken heof hbeside hrest =>
      cases p with
      | zero =>
        cases ha
        cases ha'
        exact .inr ⟨by simp, htoken, heof⟩
      | succ p =>
        have hnext := ih hrest ha ha'
        simp only [List.length_cons] at hnext ⊢
        refine hnext.imp (fun h => ⟨by omega, h.2⟩) fun h => ⟨by omega, h.2⟩

theorem TokensTwin.beside {source : Side → List Char} {verbatim : Bool} {ts ts' : List SpannedToken}
    (h : TokensTwin source verbatim ts ts') {p : Nat} {a b : Side → SpannedToken}
    (ha : ts[p]? = some (a .left)) (ha' : ts'[p]? = some (a .right))
    (hb : ts[p + 1]? = some (b .left)) (hb' : ts'[p + 1]? = some (b .right)) :
    Beside source verbatim (a .left).1 (fun i => (a i).2) fun i => (b i).2 := by
  induction ts generalizing ts' p with
  | nil => cases h
  | cons c ts ih =>
    cases h with
    | last => simp at hb
    | more htoken heof hbeside hrest =>
      cases p with
      | zero =>
        simp only [List.getElem?_cons_zero, List.getElem?_cons_succ, Option.some.injEq] at ha ha' hb hb'
        rename_i span after rest rest'
        have hspan : (fun i => (a i).2) = span := by
          funext i
          cases i <;> simp [← ha, ← ha']
        have hafter : (fun i => (b i).2) = after := by
          funext i
          cases i <;> simp [← hb, ← hb']
        rw [hspan, hafter, ← ha]
        exact hbeside
      | succ p => exact ih hrest ha ha' hb hb'

/-- Where less counts of the texts, tokens still stand beside each other in the same way. -/
theorem Beside.weaken {source : Side → List Char} {verbatim verbatim' : Bool} {t : Token}
    {span next : Side → Span} (h : Beside source verbatim t span next)
    (hverbatim : verbatim' = true → verbatim = true) : Beside source verbatim' t span next :=
  ⟨h.newline, fun hv => h.one (hverbatim hv), fun hv => h.two (hverbatim hv)⟩

theorem TokensTwin.tokens {ts : Side → List SpannedToken}
    (h : TokensTwin w.source w.verbatim (ts .left) (ts .right)) :
    (w.inner ((ts .left).length - 1)).Tokens fun i => (ts i).toArray := by
  obtain ⟨hpos, hlength⟩ := h.length
  have hplace : ∀ i p, (w.inner ((ts .left).length - 1)).place i p = p := fun i p => by
    cases i with
    | left => rfl
    | right => exact Nat.zero_add p
  have hsize : (w.inner ((ts .left).length - 1)).count + 1 = (ts .left).length := by
    show (ts .left).length - 1 + 1 = _
    omega
  refine ⟨?_, ?_, fun _ => ?_, fun p hp => ?_, fun p hp a b ha hb => ?_,
    fun p hp a ha hverbatim hspelled => ?_, nofun, nofun, nofun, nofun, nofun⟩
  · simpa using hsize.symm
  · simp [hsize, hlength]
  · simp only [hsize, List.size_toArray, hlength]
    exact (Nat.zero_add _).symm
  · have hget : ∀ i, ∃ a, (ts i)[p]? = some a := fun i => by
      have hlt : p < (ts i).length := by cases i <;> omega
      exact ⟨_, List.getElem?_eq_getElem hlt⟩
    choose a ha using hget
    refine ⟨a, fun i => by simp [hplace, ha i], ?_⟩
    rcases h.reads (ha .left) (ha .right) with ⟨heq, hleft, hright⟩ | ⟨hlt, htwin, heof⟩
    · refine .ending (by omega) hleft hright (fun _ hoperator => ?_) fun hmark => ?_
      · rw [hright] at hoperator
        cases hoperator
      · cases hright.symm.trans hmark
    · exact .token (by omega) htwin heof
  · simp only [hplace, List.getElem?_toArray] at ha hb
    refine (h.beside (ha .left) (ha .right) (hb .left) (hb .right)).weaken fun hverbatim => ?_
    exact (Bool.and_eq_true_iff.mp hverbatim).1
  · simp only [hplace, List.getElem?_toArray] at ha
    have hnext : ∀ i, ∃ b, (ts i)[p + 1]? = some b := fun i => by
      have hlt : p + 1 < (ts i).length := by cases i <;> omega
      exact ⟨_, List.getElem?_eq_getElem hlt⟩
    choose b hb using hnext
    exact (h.beside (ha .left) (ha .right) (hb .left) (hb .right)).one hverbatim hspelled

theorem sum_mass (ts : List SpannedToken) :
    ∑ i ∈ Finset.range ts.length, mass ((ts[i]?.map (·.1)).getD .eof) = tokensMass ts := by
  induction ts with
  | nil => simp [tokensMass]
  | cons a ts ih =>
    rw [List.length_cons, Finset.sum_range_succ']
    simp only [List.getElem?_cons_succ, List.getElem?_cons_zero, ih, Option.map_some,
      Option.getD_some]
    rw [tokensMass, Nat.add_comm]

theorem State.total_mass_start (s : State) (ts : List SpannedToken) :
    { s with tokens := ts.toArray, pos := 0 }.total mass = tokensMass ts := by
  rw [← sum_mass]
  simp only [State.total, Nat.Ico_zero_eq_range, List.size_toArray, State.tokenAt,
    List.getElem?_toArray]

/-- Both sides at the first token of a substitution. -/
theorem Passage.Twin.inner (hs : w.Twin s) {ts : Side → List SpannedToken}
    (h : TokensTwin w.source w.verbatim (ts .left) (ts .right))
    (hplaced : ∀ i, ∃ lo hi, TokensPlaced (w.source i) lo hi (ts i)) :
    (w.inner ((ts .left).length - 1)).Twin
      fun i => { s i with tokens := (ts i).toArray, pos := 0 } where
  ready i := by
    obtain ⟨lo, hi, hplaced⟩ := hplaced i
    rw [← hs.source i] at hplaced
    exact State.ready_of_placed hplaced rfl rfl
  source := hs.source
  tokens := h.tokens
  pos i := by cases i <;> rfl
  pos_le := Nat.zero_le _
  tree := hs.tree
  depth := hs.depth
  allowIn := hs.allowIn

/-- Both sides back at the template. -/
theorem Passage.Twin.outer (hs : w.Twin s) {count : Nat} {r : Side → State}
    (hr : (w.inner count).Twin r) :
    w.Twin fun i => { r i with tokens := (s i).tokens, pos := (s i).pos } where
  ready i := (hs.ready i).congr ((hr.source i).trans (hs.source i).symm) rfl (hs.ready i).pos_lt
  source := hr.source
  tokens := hs.tokens
  pos := hs.pos
  pos_le := hs.pos_le
  tree := hr.tree
  depth := hr.depth
  allowIn := hr.allowIn

/-- The mark at which tokens of the mass `mass` can be read at the same depth. -/
def Mark.holding (m : Mark) (mass : Nat) : Mark :=
  { m with known := fun s => (maxDepth - s.depth) + mass ≤ m.budget }

theorem agrees_substitution (hg : Grammars k g) (hm : m.Within k) {ts : Side → List SpannedToken}
    (h : TokensTwin w.source w.verbatim (ts .left) (ts .right))
    (hplaced : ∀ i, ∃ lo hi, TokensPlaced (w.source i) lo hi (ts i)) {mass : Nat}
    (hmass : tokensMass (ts .left) ≤ mass) :
    Agrees w (m.holding mass) (fun _ => m.holding mass) fun i => substitution (g i) (ts i) := by
  intro s hs hmark
  let n : Mark := ⟨m.budget, State.steps { s .left with tokens := (ts .left).toArray, pos := 0 }, 0,
    false, fun _ => True⟩
  have hinner := hs.inner h hplaced
  have hbody : Agrees (w.inner ((ts .left).length - 1)) n (fun _ => n.step) fun i => (do
      let e ← expression (g i)
      if ← atEof then return e else unexpected [.punct .rightBrace]) := by
    have hin : n.step.Inside (w.inner ((ts .left).length - 1)) := nofun
    refine (agrees_expression hg (m := n) hm (hin.clears _)).bind fun e => ?_
    refine (Agrees.atEof hin).seq fun ends => .ite (fun _ => ?_) fun _ => .unexpected _
    exact .pure e (fun _ => rfl) (Mark.knowing_implies _)
  have hstart : n.Holds (w.inner ((ts .left).length - 1))
      { s .left with tokens := (ts .left).toArray, pos := 0 } := by
    refine ⟨?_, le_rfl, nofun, nofun, trivial⟩
    have hknown : (maxDepth - (s .left).depth) + mass ≤ m.budget := hmark.known
    show (maxDepth - (s .left).depth) + State.total _ Parse.mass ≤ m.budget
    rw [State.total_mass_start]
    omega
  have hframe := leads_substitution (s := s .left) (hg.sound .left) (ts .left)
  have hback : ∀ (i : Side) (result : Except ParseError NodeId) (r : State),
      withIn true (do
        let e ← expression (g i)
        if ← atEof then return e else unexpected [.punct .rightBrace])
        { s i with tokens := (ts i).toArray, pos := 0 } = (result, r) →
      substitution (g i) (ts i) (s i) = (result, { r with tokens := (s i).tokens, pos := (s i).pos }) := by
    intro i result r heq
    simp only [substitution, withTokens, heq]
  cases Agrees.withIn (m := n) true hbody _ hinner hstart with
  | value a r hrun htwin _ =>
    have hleft := hback .left _ _ (hrun .left)
    rw [Leads, hleft] at hframe
    have hdepth : (r .left).depth = (s .left).depth := hframe.frame.depth
    refine .value a _ (fun i => hback i _ _ (hrun i)) (hs.outer htwin) ⟨?_, ?_, ?_, ?_, ?_⟩
    · show (maxDepth - (r .left).depth) + (s .left).total Parse.mass ≤ m.budget
      rw [hdepth]
      exact hmark.budget
    · exact hmark.steps
    · exact hmark.level
    · exact hmark.moved
    · show (maxDepth - (r .left).depth) + mass ≤ m.budget
      rw [hdepth]
      exact hmark.known
  | error e r hrun hfailed =>
    refine .error e _ (fun i => hback i _ _ (hrun i)) ⟨hs.tokens, fun _ => ?_⟩
    obtain ⟨htwin, herror⟩ := hfailed.alike rfl
    exact ⟨hs.outer htwin, herror⟩

theorem PartsTwin.countP_isQuasi {source : Side → List Char} {verbatim : Bool}
    {parts parts' : List TemplatePart} (h : PartsTwin source verbatim parts parts') :
    parts'.countP isQuasi = parts.countP isQuasi := by
  induction parts generalizing parts' with
  | nil => cases h; rfl
  | cons part parts ih =>
    cases h with
    | quasi raw span span' h => rw [List.countP_cons, List.countP_cons, ih h, isQuasi, isQuasi]
    | substitution htokens h => rw [List.countP_cons, List.countP_cons, ih h, isQuasi, isQuasi]

theorem Agrees.alloc_holding {mass : Nat} (node : Node) {v : Side → Node} {a : Side → Span}
    (hv : ∀ i, v i = node.renumber (w.id i)) :
    Agrees w (m.holding mass) (fun _ => m.holding mass) fun i => Parser.alloc (v i) (a i) := by
  intro s hs hm
  cases Agrees.alloc (a := a) node hv s hs hm with
  | error e r hrun => cases hrun .left
  | value id r hrun htwin hmark =>
    refine .value id r hrun htwin { hmark with known := ?_ }
    have hdepth : (r .left).depth = (s .left).depth :=
      (congrArg (fun result => result.2.depth) (hrun .left)).symm
    show (maxDepth - (r .left).depth) + mass ≤ m.budget
    rw [hdepth]
    exact hm.known

/-- One value for each side. -/
def Side.pick {α : Type} (a b : α) : Side → α
  | .left => a
  | .right => b

theorem agrees_templateParts (hg : Grammars k g) (hm : m.Within k) (quasiCount : Nat)
    {left right : List TemplatePart} (h : PartsTwin w.source w.verbatim left right)
    (hplaced : ∀ i ts, .substitution ts ∈ Side.pick left right i →
      ∃ lo hi, TokensPlaced (w.source i) lo hi ts)
    {mass : Nat} (hmass : partsMass left ≤ mass) (quasis expressions : List NodeId) :
    Agrees w (m.holding mass) (fun _ => m.forget) fun i =>
      templateParts (g i) quasiCount (Side.pick left right i) (quasis.map (w.id i))
        (expressions.map (w.id i)) := by
  induction left generalizing right quasis expressions with
  | nil =>
    cases h
    refine Agrees.congr (q := fun i => pure
      ((quasis.map (w.id i)).reverse, (expressions.map (w.id i)).reverse)) ?_ fun i => by
        cases i <;> rfl
    refine .pure (quasis.reverse, expressions.reverse) (fun i => ?_) (Mark.implies_forget _)
    exact Prod.ext List.map_reverse.symm List.map_reverse.symm
  | cons part left ih =>
    cases h with
    | quasi raw span span' h =>
      rename_i right
      have hrest : ∀ i ts, .substitution ts ∈ Side.pick left right i →
          ∃ lo hi, TokensPlaced (w.source i) lo hi ts := fun i ts hts =>
        hplaced i ts (by cases i <;> exact List.mem_cons_of_mem _ hts)
      refine Agrees.congr (q := fun i => do
        let quasi ← alloc (.templateElement raw (quasis.length + 1 == quasiCount)) (Side.pick span span' i)
        templateParts (g i) quasiCount (Side.pick left right i) (quasi :: quasis.map (w.id i))
          (expressions.map (w.id i))) ?_ fun i => ?_
      · refine (Agrees.alloc_holding (.templateElement raw _) fun _ => rfl).bind fun quasi => ?_
        exact ih h hrest (by simpa [partsMass, partMass] using hmass) (quasi :: quasis) expressions
      · cases i <;> simp only [Side.pick, templateParts, List.length_map]
    | substitution htokens h =>
      rename_i tokens tokens' right
      simp only [partsMass, partMass] at hmass
      have hrest : ∀ i ts, .substitution ts ∈ Side.pick left right i →
          ∃ lo hi, TokensPlaced (w.source i) lo hi ts := fun i ts hts =>
        hplaced i ts (by cases i <;> exact List.mem_cons_of_mem _ hts)
      refine Agrees.congr (q := fun i => do
        let e ← substitution (g i) (Side.pick tokens tokens' i)
        templateParts (g i) quasiCount (Side.pick left right i) (quasis.map (w.id i))
          (e :: expressions.map (w.id i))) ?_ fun i => ?_
      · have hplaced' : ∀ i, ∃ lo hi, TokensPlaced (w.source i) lo hi (Side.pick tokens tokens' i) :=
          fun i => hplaced i _ (by cases i <;> exact List.mem_cons_self)
        refine (agrees_substitution hg hm htokens hplaced'
          ((Nat.le_add_right _ _).trans hmass)).bind fun e => ?_
        exact ih h hrest ((Nat.le_add_left _ _).trans hmass) quasis (e :: expressions)
      · cases i <;> rfl

/-- A template where one stands, put together from its parts. -/
theorem template_of_current {g : Grammar} {s : State} {parts : List TemplatePart}
    (h : s.current = .template parts) : template g s =
      (templateParts g (parts.countP isQuasi) parts [] [] >>= fun nodes =>
        alloc (.templateLiteral nodes.1 nodes.2) s.currentSpan) s.advance := by
  have hspan : currentSpan s = (.ok s.currentSpan, s) := rfl
  have htaken : advance s = (.ok (.template parts), s.advance) := by rw [advance, h]
  rw [template, bind_of_ok hspan, bind_of_ok htaken]

theorem agrees_template (hg : Grammars k g) (hm : m.Within k)
    (hknown : ∀ s, m.known s → ∃ parts, s.current = .template parts) :
    Agrees w m (fun _ => m.step) fun i => template (g i) := by
  intro s hs hmark
  obtain ⟨left, hleft⟩ := hknown _ hmark.known
  have hlt := hs.lt_count (by rw [hleft]; rfl)
  obtain ⟨right, hright, hparts⟩ : ∃ right, (s .right).current = .template right ∧
      PartsTwin w.source w.verbatim left right := by
    cases hs.reads_current with
    | ending heq => exact absurd heq hlt.ne
    | token _ htwin _ =>
      rw [hleft] at htwin
      generalize (s .right).current = t at htwin
      cases htwin with
      | same _ hplain => exact absurd rfl (hplain left)
      | template h => exact ⟨_, rfl, h⟩
  have hcurrent : ∀ i, (s i).current = .template (Side.pick left right i) := fun i => by
    cases i with
    | left => exact hleft
    | right => exact hright
  have hplaced : ∀ i ts, .substitution ts ∈ Side.pick left right i →
      ∃ lo hi, TokensPlaced (w.source i) lo hi ts := fun i ts hts => by
    have hplaced := (hs.ready i).partsPlaced (hcurrent i)
    rw [hs.source i] at hplaced
    exact hplaced.tokens hts
  have hcount : ∀ i, (Side.pick left right i).countP isQuasi = left.countP isQuasi := fun i => by
    cases i with
    | left => rfl
    | right => exact hparts.countP_isQuasi
  have hrun : Agrees w (m.step.holding (partsMass left)) (fun _ => m.step) fun i =>
      templateParts (g i) (left.countP isQuasi) (Side.pick left right i) [] [] >>= fun nodes =>
        alloc (.templateLiteral nodes.1 nodes.2) (s i).currentSpan := by
    refine (agrees_templateParts hg hm.step _ hparts hplaced le_rfl [] []).bind fun nodes => ?_
    exact .alloc (.templateLiteral nodes.1 nodes.2) fun _ => rfl
  simp only [template_of_current (hcurrent _), hcount]
  have hafter : m.step.Holds w (s .left).advance := hmark.advance hs hlt fun _ _ => by
    rw [hleft]
    rfl
  refine hrun _ (hs.advance hlt) { hafter with known := ?_ }
  have hbudget := hmark.budget
  rw [State.reach, State.total_eq_add mass (hs.pos_lt_size .left), hleft, mass] at hbudget
  show (maxDepth - (s .left).advance.depth) + partsMass left ≤ m.budget - 1
  rw [hs.advance_eq hlt .left]
  show (maxDepth - (s .left).depth) + partsMass left ≤ m.budget - 1
  omega

end Parse
end ScriptLint
