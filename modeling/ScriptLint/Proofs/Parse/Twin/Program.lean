import ScriptLint.Proofs.Parse.Program
import ScriptLint.Proofs.Parse.Twin.Grammar
import ScriptLint.Proofs.Tree.Outline

namespace ScriptLint
namespace Parse

open ScriptLint.Parser

variable {w : Passage} {s : Side → State} {k : Nat} {g : Side → Grammar}

/-- No parser can be nested deeper after another one than before it. -/
theorem Frame.reach_le {s s' : State} (h : Frame s s') : s'.reach ≤ s.reach := by
  have hremains := s.total_withTokens_le mass_le_of_afterClosingAngle h.tokens
  have hjump : s'.total mass ≤ { s with tokens := s'.tokens }.total mass :=
    State.total_jump_le { s with tokens := s'.tokens } mass h.pos_le
  rw [State.reach, State.reach, h.depth]
  exact Nat.add_le_add_left (hjump.trans hremains) _

namespace Passage.Twin

theorem withErrors (h : w.Twin s) (errors : Side → Array ParseError) :
    w.Twin fun i => { s i with errors := errors i } where
  ready i := (h.ready i).congr rfl rfl (h.ready i).pos_lt
  source := h.source
  tokens := h.tokens
  pos := h.pos
  pos_le := h.pos_le
  tree := h.tree
  depth := h.depth
  allowIn := h.allowIn

theorem here (h : w.Twin s) (i : Side) : { s i with pos := w.place i (s .left).pos } = s i := by
  rw [← h.pos i]

/-- Where the passage is all there is, the sides ask the same of their tokens. -/
theorem test_current (h : w.Twin s) (hclosed : w.goesOn = false) (test : Token → Bool)
    (htemplate : ∀ parts parts', test (.template parts) = test (.template parts')) (i : Side) :
    test (s i).current = test (s .left).current := by
  cases i with
  | left => rfl
  | right =>
    refine h.reads_current.apply test htemplate fun hon => ?_
    rw [hclosed] at hon
    cases hon

/-- Both sides skip to the same place. -/
theorem syncFrom (hs : w.Twin s) (hclosed : w.goesOn = false) (hpos : 0 < (s .left).pos)
    (fuel : Side → Nat) (hfuel : ∀ i, w.count - (s .left).pos < fuel i) :
    ∃ q, (s .left).pos ≤ q ∧ q ≤ w.count ∧
      ∀ i, Parse.syncFrom (fuel i) (s i) = { s i with pos := w.place i q } := by
  induction hn : w.count - (s .left).pos using Nat.strong_induction_on generalizing s fuel with
  | _ n ih =>
    subst hn
    have heof : ∀ i, (s i).atEof = (s .left).atEof := hs.test_current hclosed Token.isEof fun _ _ => rfl
    have hsemicolon := hs.test_current hclosed (·.isPunct .semicolon) fun _ _ => rfl
    have hbrace := hs.test_current hclosed (·.isPunct .rightBrace) fun _ _ => rfl
    have hstarts := hs.test_current hclosed startsStatement fun _ _ => rfl
    have hnewline : ∀ i, (s i).newlineBefore = (s .left).newlineBefore := fun i => by
      cases i with
      | left => rfl
      | right => exact hs.newlineBefore hpos
    have hturn : ∀ i, Parse.syncFrom (fuel i) (s i) =
        if (s .left).atEof then s i
        else if (s .left).current.isPunct .semicolon then (s i).advance
        else if (s .left).current.isPunct .rightBrace then s i
        else if startsStatement (s .left).current && (s .left).newlineBefore then s i
        else Parse.syncFrom (fuel i - 1) (s i).advance := fun i => by
      obtain ⟨n, hn⟩ := Nat.exists_eq_add_one_of_ne_zero (Nat.ne_zero_of_lt (hfuel i))
      rw [hn, Parse.syncFrom, heof i, hsemicolon i, hbrace i, hstarts i, hnewline i]
      rfl
    simp only [hturn]
    split_ifs with hend hskip hclose hstart
    · exact ⟨_, le_rfl, hs.pos_le, fun i => (hs.here i).symm⟩
    · have hlt := hs.lt_count (Bool.eq_false_iff.mpr hend)
      refine ⟨(s .left).pos + 1, Nat.le_succ _, hlt, fun i => ?_⟩
      rw [hs.advance_eq hlt i, place_succ, ← hs.pos i]
    · exact ⟨_, le_rfl, hs.pos_le, fun i => (hs.here i).symm⟩
    · exact ⟨_, le_rfl, hs.pos_le, fun i => (hs.here i).symm⟩
    · have hlt := hs.lt_count (Bool.eq_false_iff.mpr hend)
      have hmoved : (s .left).advance.pos = (s .left).pos + 1 := by rw [hs.advance_eq hlt .left]
      obtain ⟨q, hq, hqcount, hrun⟩ := ih (w.count - (s .left).advance.pos) (by omega)
        (hs.advance hlt) (by omega) (fun i => fuel i - 1)
        (fun i => by have := hfuel i; omega) rfl
      refine ⟨q, by omega, hqcount, fun i => ?_⟩
      rw [hrun, hs.advance_eq hlt i]

theorem sync (hs : w.Twin s) (hclosed : w.goesOn = false) :
    ∃ q, (s .left).pos ≤ q ∧ q ≤ w.count ∧
      ∀ i, Parse.sync (s i) = { s i with pos := w.place i q } := by
  have heof : ∀ i, (s i).atEof = (s .left).atEof := hs.test_current hclosed Token.isEof fun _ _ => rfl
  have hsemicolon := hs.test_current hclosed (·.isPunct .semicolon) fun _ _ => rfl
  have hbrace := hs.test_current hclosed (·.isPunct .rightBrace) fun _ _ => rfl
  have hturn : ∀ i, Parse.sync (s i) =
      if (s .left).atEof then s i
      else if (s .left).current.isPunct .semicolon || (s .left).current.isPunct .rightBrace then
        (s i).advance
      else Parse.syncFrom (s i).tokens.size (s i).advance := fun i => by
    rw [Parse.sync, heof i, hsemicolon i, hbrace i]
  simp only [hturn]
  split_ifs with hend hskip
  · exact ⟨_, le_rfl, hs.pos_le, fun i => (hs.here i).symm⟩
  · have hlt := hs.lt_count (Bool.eq_false_iff.mpr hend)
    refine ⟨(s .left).pos + 1, Nat.le_succ _, hlt, fun i => ?_⟩
    rw [hs.advance_eq hlt i, place_succ, ← hs.pos i]
  · have hlt := hs.lt_count (Bool.eq_false_iff.mpr hend)
    have hmoved : (s .left).advance.pos = (s .left).pos + 1 := by rw [hs.advance_eq hlt .left]
    have hsize : ∀ i, w.count < (s i).tokens.size := fun i => by
      cases i with
      | left => exact Nat.lt_of_succ_le hs.tokens.size.ge
      | right => exact Nat.lt_of_succ_le hs.tokens.size_le
    obtain ⟨q, hq, hqcount, hrun⟩ := (hs.advance hlt).syncFrom hclosed (by omega)
      (fun i => (s i).tokens.size) fun i => by have := hsize i; omega
    refine ⟨q, by omega, hqcount, fun i => ?_⟩
    rw [hrun, hs.advance_eq hlt i]

end Passage.Twin

/-- The same errors in the same order, up to spans. -/
def ErrorsTwin (source : Side → List Char) (verbatim : Bool) : List ParseError → List ParseError → Prop :=
  List.Forall₂ (ErrorTwin source verbatim)

/-- What two runs of the statements have in common. -/
structure Passage.Abreast (w : Passage) (s : Side → State) : Prop where
  twin : w.Twin s
  errors : ErrorsTwin w.source w.verbatim (s .left).errors.toList (s .right).errors.toList

/-- A broken statement is reported on both sides, and both go on at the same token. -/
theorem Passage.Abreast.sync (hs : w.Abreast s) (hclosed : w.goesOn = false) {r : Side → State}
    {e : Side → ParseError} (hframe : ∀ i, Frame (s i) (r i)) (hr : w.Twin r)
    (he : ErrorTwin w.source w.verbatim (e .left) (e .right)) :
    w.Abreast (fun i => Parse.sync { r i with errors := (r i).errors.push (e i) }) ∧
      (Parse.sync { r .left with errors := (r .left).errors.push (e .left) }).reach ≤
        (s .left).reach := by
  have hpushed := hr.withErrors fun i => (r i).errors.push (e i)
  obtain ⟨q, hle, hq, hsync⟩ := hpushed.sync hclosed
  refine ⟨⟨?_, ?_⟩, ?_⟩
  · simp only [hsync]
    exact hpushed.jump hq
  · simp only [errors_sync, Array.toList_push]
    rw [(hframe .left).errors, (hframe .right).errors]
    exact List.rel_append hs.errors (.cons he .nil)
  · have hjump := State.total_jump_le (r .left) mass hle
    have hreach := (hframe .left).reach_le
    rw [hsync]
    simp only [State.reach] at hreach ⊢
    exact (Nat.add_le_add_left hjump _).trans hreach

theorem agree_statements (hg : Grammars k g) (hclosed : w.goesOn = false) (hlevel : w.level? = none)
    (fuel : Nat) (body : List NodeId) (hs : w.Abreast s) (hreach : (s .left).reach ≤ k + 1) :
    ∃ (body' : List NodeId) (r : Side → State),
      (∀ i, statements (g i) fuel (body.map (w.id i)) (s i) = (body'.map (w.id i), r i)) ∧
      w.Abreast r := by
  induction fuel generalizing body s with
  | zero => exact ⟨body.reverse, s, fun i => by simp [statements], hs⟩
  | succ fuel ih =>
    have heof : ∀ i, (s i).atEof = (s .left).atEof :=
      hs.twin.test_current hclosed Token.isEof fun _ _ => rfl
    by_cases hend : (s .left).atEof = true
    · refine ⟨body.reverse, s, fun i => ?_, hs⟩
      simp [statements, heof i, hend]
    let m : Mark := ⟨k + 1, (s .left).steps, 0, false, fun _ => True⟩
    have hmark : m.Holds w (s .left) := by
      refine ⟨hreach, le_rfl, fun f hf => ?_, nofun, trivial⟩
      rw [hlevel] at hf
      cases hf
    have hin : m.Inside w := fun hon => by
      rw [hclosed] at hon
      cases hon
    have hgrows : ∀ i, Leads (s i) (s i) (statement (g i)) fun id s' => Grown (s i) s' false [id] :=
      fun i => grows_statement (hg.sound i) (s i)
    cases agrees_statement hg (m := m) le_rfl hin s hs.twin hmark with
    | value id r hrun htwin _ =>
      have hrun : ∀ i, statement (g i) (s i) = (.ok (w.id i id), r i) := hrun
      have hframe : ∀ i, Frame (s i) (r i) := fun i => by
        have hgrown := hgrows i
        simp only [Leads, hrun i] at hgrown
        exact hgrown.frame
      have hr : w.Abreast r := by
        refine ⟨htwin, ?_⟩
        rw [(hframe .left).errors, (hframe .right).errors]
        exact hs.errors
      obtain ⟨body', r', hrest, hr'⟩ := ih (id :: body) hr ((hframe .left).reach_le.trans hreach)
      refine ⟨body', r', fun i => ?_, hr'⟩
      simp only [statements, heof i, if_neg hend, hrun i]
      exact hrest i
    | error e r hrun hfailed =>
      have hrun : ∀ i, statement (g i) (s i) = (.error (e i), r i) := hrun
      have hframe : ∀ i, Frame (s i) (r i) := fun i => by
        have hgrown := hgrows i
        simp only [Leads, hrun i] at hgrown
        exact hgrown
      obtain ⟨htwin, herror⟩ := hfailed.alike hclosed
      obtain ⟨hr, hle⟩ := hs.sync hclosed hframe htwin herror
      obtain ⟨body', r', hrest, hr'⟩ := ih body hr (hle.trans hreach)
      refine ⟨body', r', fun i => ?_, hr'⟩
      simp only [statements, heof i, if_neg hend, hrun i]
      exact hrest i

/-- How two programs end: with trees that are twins before their parents are linked, or with the
same errors. -/
inductive ProgramTwin (w : Passage) : (Side → Except (List ParseError) Tree) → Prop where
  | tree (tree : Side → Tree) {result : Side → Except (List ParseError) Tree}
      (hresult : ∀ i, result i = .ok (tree i).linkParents)
      (htwin : Tree.Twin w.verbatim w.base (tree .left) (tree .right))
      (root : NodeId) (hroot : ∀ i, (tree i).root = some (w.id i root)) : ProgramTwin w result
  | errors (errors : Side → List ParseError) {result : Side → Except (List ParseError) Tree}
      (hresult : ∀ i, result i = .error (errors i)) (hne : errors .left ≠ [])
      (htwin : ErrorsTwin w.source w.verbatim (errors .left) (errors .right)) : ProgramTwin w result

/-- Programs of which the grammars have levels enough end in the same way. -/
theorem programTwin_program (hclosed : w.goesOn = false) (hlevel : w.level? = none)
    (hoffset : w.offset = 0) (hs : w.Twin s) (herrors : ∀ i, (s i).errors = #[])
    (hreach : ∀ i, (s .left).reach ≤ maxDepth + (s i).weight + 2) :
    ProgramTwin w fun i => program (s i) := by
  have hsize : ∀ i, (s i).tokens.size + 1 = (s .left).tokens.size + 1 := fun i => by
    cases i with
    | left => rfl
    | right => rw [hs.tokens.size_eq hclosed, hs.tokens.size, hoffset, Nat.zero_add]
  obtain ⟨k, hk⟩ := Nat.exists_eq_add_one_of_ne_zero
    (State.reach_pos (hs.pos_lt_size .left)).ne'
  have hg : Grammars (k + 1) fun i => Grammar.upTo (maxDepth + (s i).weight + 2) :=
    grammars_upTo k fun i => hk ▸ hreach i
  have habreast : w.Abreast s := by
    refine ⟨hs, ?_⟩
    rw [herrors, herrors]
    exact .nil
  obtain ⟨body, r, hrun, htwin, hlists⟩ := agree_statements hg hclosed hlevel
    ((s .left).tokens.size + 1) [] habreast (by omega)
  have hprogram : ∀ i, program (s i) =
      if (r i).errors.isEmpty then
        .ok (((r i).tree.alloc (.program (body.map (w.id i)))
          (some ⟨0, byteLength (r i).source, 1, 1⟩)).2.withRoot (r i).tree.size).linkParents
      else .error (r i).errors.toList := fun i => by
    have hrun := hrun i
    rw [List.map_nil] at hrun
    simp only [program, hsize i, hrun]
    rfl
  have hempty : ∀ i, (r i).errors.isEmpty = (r .left).errors.isEmpty := fun i => by
    cases i with
    | left => rfl
    | right =>
      have hlength := List.Forall₂.length_eq hlists
      simp only [Array.length_toList] at hlength
      rw [Array.isEmpty, Array.isEmpty, hlength]
  by_cases hnone : (r .left).errors.isEmpty = true
  · have hroot : (Node.program (body.map (w.id .left))).Twin w.verbatim (w.base + ·)
        (.program (body.map (w.id .right))) := by
      have hid : w.id .left = id := rfl
      rw [hid, List.map_id]
      exact .inl rfl
    refine .tree _ (fun i => by rw [hprogram i, hempty i, if_pos hnone]) ?_ (r .left).tree.size
      fun i => ?_
    · exact ⟨(htwin.tree.alloc hroot).size, (htwin.tree.alloc hroot).node⟩
    · cases i with
      | left => rfl
      | right => exact congrArg some htwin.tree.size
  · refine .errors (fun i => (r i).errors.toList)
      (fun i => by rw [hprogram i, hempty i, if_neg hnone]) ?_ hlists
    simpa using hnone

/-- Two texts from which the same is read: trees that differ in ranges and the spelling of literals
only, or the same errors at other places. -/
inductive SameOutcome (source : Side → List Char) :
    Except (List SourceError) Tree → Except (List SourceError) Tree → Prop where
  | tree {t t' : Tree} (houtline : t'.outline = t.outline) : SameOutcome source (.ok t) (.ok t')
  | errors {es es' : List ParseError} (htwin : ErrorsTwin source false es es')
      (hmessages : es'.map (·.cause.message) = es.map (·.cause.message)) :
      SameOutcome source (.error (es.map .parse)) (.error (es'.map .parse))

/-- What a message says of a template does not depend on what is inside it. -/
theorem CauseTwin.message {source : Side → List Char} {verbatim : Bool} {cause cause' : ParseCause}
    (h : CauseTwin source verbatim cause cause') : cause'.message = cause.message := by
  cases h with
  | same => rfl
  | unexpectedToken expected h =>
    cases h with
    | same => rfl
    | template =>
      rcases expected with _ | ⟨one, _ | ⟨two, rest⟩⟩
      · rfl
      · rfl
      · rfl

theorem ErrorsTwin.messages {source : Side → List Char} {verbatim : Bool} {es es' : List ParseError}
    (h : ErrorsTwin source verbatim es es') :
    es'.map (·.cause.message) = es.map (·.cause.message) := by
  induction h with
  | nil => rfl
  | cons he _ ih => rw [List.map_cons, List.map_cons, he.cause.message, ih]

variable {source : Side → List Char} {tokens : Side → List SpannedToken}

/-- The passage of two whole texts. -/
def Passage.whole (source : Side → List Char) (verbatim : Bool) (count : Nat) : Passage :=
  { source, offset := 0, count, base := 0, verbatim, goesOn := false, ceiling := 0,
    level? := none }

/-- Two parsers at the start of texts of the same tokens. -/
theorem twin_start {verbatim : Bool} (h : ∀ i, tokenize (source i) = .ok (tokens i))
    (htwin : TokensTwin source verbatim (tokens .left) (tokens .right)) :
    (Passage.whole source verbatim ((tokens .left).length - 1)).Twin
      fun i => { source := source i, tokens := (tokens i).toArray } where
  ready i := State.ready_of_placed (tokenize_placed (h i)) rfl rfl
  source _ := rfl
  tokens := htwin.tokens (w := Passage.whole source verbatim ((tokens .left).length - 1))
  pos i := by cases i <;> rfl
  pos_le := Nat.zero_le _
  tree := ⟨rfl, fun _ => .inl rfl⟩
  depth _ := rfl
  allowIn _ := rfl

theorem programTwin_start {verbatim : Bool} (h : ∀ i, tokenize (source i) = .ok (tokens i))
    (htwin : TokensTwin source verbatim (tokens .left) (tokens .right)) :
    ProgramTwin (.whole source verbatim ((tokens .left).length - 1))
      fun i => program { source := source i, tokens := (tokens i).toArray } := by
  refine programTwin_program rfl rfl rfl (twin_start h htwin) (fun _ => rfl) fun i => ?_
  have hreach : State.reach { source := source .left, tokens := (tokens .left).toArray } =
      maxDepth + tokensMass (tokens .left) :=
    congrArg (maxDepth + ·) (State.total_mass_start { source := source .left, tokens := #[] } _)
  have hmass : tokensMass (tokens .left) = tokensMass (tokens i) := by
    cases i with
    | left => rfl
    | right => exact htwin.tokensMass.symm
  have hweight := tokensMass_le_weight (h i)
  rw [hreach, hmass]
  omega

theorem parse_eq {source : List Char} {tokens : List SpannedToken} (h : tokenize source = .ok tokens) :
    parse source = match program { source, tokens := tokens.toArray } with
      | .error errors => .error (errors.map .parse)
      | .ok tree => .ok tree := by
  simp only [parse, start, h]
  rfl

/-- Texts of the same tokens, with line breaks between the same ones, are parsed alike. Neither the
blanks and comments between the tokens nor the spelling of literals can be told from the outcome. -/
theorem sameOutcome_of_tokensTwin (h : ∀ i, tokenize (source i) = .ok (tokens i))
    (htwin : TokensTwin source false (tokens .left) (tokens .right)) :
    SameOutcome source (parse (source .left)) (parse (source .right)) := by
  rw [parse_eq (h .left), parse_eq (h .right)]
  cases programTwin_start h htwin with
  | tree tree hresult htree root hroot =>
    beta_reduce at hresult
    rw [hresult .left, hresult .right]
    refine .tree (htree.outline_linkParents ?_)
    rw [hroot .left, hroot .right]
    exact congrArg some (Nat.zero_add root)
  | errors errors hresult _ herrors =>
    beta_reduce at hresult
    rw [hresult .left, hresult .right]
    exact .errors herrors herrors.messages

/-- One more token in front of both, with a line break after it on both sides or on neither. -/
theorem tokensTwin_cons {source source' : List Char} {t t' u u' : Token} {a a' b b' : Span}
    {rest rest' : List SpannedToken}
    (htoken : TokenTwin (Side.pick source source') false t t') (heof : t.isEof = false)
    (hnewline : ((slice? source' a'.stop b'.start).getD []).contains '\n' =
      ((slice? source a.stop b.start).getD []).contains '\n')
    (hrest : TokensTwin (Side.pick source source') false ((u, b) :: rest) ((u', b') :: rest')) :
    TokensTwin (Side.pick source source') false ((t, a) :: (u, b) :: rest)
      ((t', a') :: (u', b') :: rest') :=
  @TokensTwin.more _ _ _ _ _ _ (Side.pick a a') (Side.pick b b') _ _ htoken heof
    ⟨hnewline, nofun, nofun⟩ hrest

theorem sameOutcome_of_tokensTwin_call :
    (parse "f(1)\n`a$\x7bb\x7d`".toList).toBool = true ∧
    SameOutcome
      (Side.pick "f(1)\n`a$\x7bb\x7d`".toList "f ( 1.0 ) // c\n`a$\x7b b \x7d`".toList)
      (parse "f(1)\n`a$\x7bb\x7d`".toList) (parse "f ( 1.0 ) // c\n`a$\x7b b \x7d`".toList) := by
  refine ⟨by decide +kernel, ?_⟩
  have hplain : ∀ {source : Side → List Char} {t : Token}, (∀ parts, t ≠ .template parts) →
      TokenTwin source false t t := fun h => .same _ h
  refine @sameOutcome_of_tokensTwin
    (Side.pick "f(1)\n`a$\x7bb\x7d`".toList "f ( 1.0 ) // c\n`a$\x7b b \x7d`".toList)
    (Side.pick
      [(.identifier "f", ⟨0, 1, 1, 1⟩), (.punct .leftParen, ⟨1, 2, 1, 2⟩),
        (.number ⟨0x3FF0000000000000⟩, ⟨2, 3, 1, 3⟩), (.punct .rightParen, ⟨3, 4, 1, 4⟩),
        (.template [.quasi "a" ⟨6, 7, 2, 2⟩,
          .substitution [(.identifier "b", ⟨9, 10, 2, 5⟩), (.eof, ⟨10, 10, 2, 6⟩)],
          .quasi "" ⟨11, 11, 2, 7⟩], ⟨5, 12, 2, 1⟩),
        (.eof, ⟨12, 12, 2, 8⟩)]
      [(.identifier "f", ⟨0, 1, 1, 1⟩), (.punct .leftParen, ⟨2, 3, 1, 3⟩),
        (.number ⟨0x3FF0000000000000⟩, ⟨4, 7, 1, 5⟩), (.punct .rightParen, ⟨8, 9, 1, 9⟩),
        (.template [.quasi "a" ⟨16, 17, 2, 2⟩,
          .substitution [(.identifier "b", ⟨20, 21, 2, 6⟩), (.eof, ⟨22, 22, 2, 8⟩)],
          .quasi "" ⟨23, 23, 2, 9⟩], ⟨15, 24, 2, 1⟩),
        (.eof, ⟨24, 24, 2, 10⟩)]) (fun i => by cases i <;> rfl) ?_
  refine tokensTwin_cons (hplain nofun) rfl (by decide +kernel) ?_
  refine tokensTwin_cons (hplain nofun) rfl (by decide +kernel) ?_
  refine tokensTwin_cons (hplain nofun) rfl (by decide +kernel) ?_
  refine tokensTwin_cons (hplain nofun) rfl (by decide +kernel) ?_
  refine tokensTwin_cons (.template (.quasi _ _ _ (.substitution ?_ (.quasi _ _ _ .nil)))) rfl
    (by decide +kernel) (.last _ _)
  exact tokensTwin_cons (hplain nofun) rfl (by decide +kernel) (.last _ _)

end Parse
end ScriptLint
