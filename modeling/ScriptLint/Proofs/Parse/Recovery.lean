import ScriptLint.Proofs.Parse.Twin.Program
import ScriptLint.Proofs.Parse.Progress

namespace ScriptLint

/-- Every token but the last has a character of the text to itself. -/
theorem Reads.start_lt_stop {p : Position} {text : List Char} {tokens : List SpannedToken}
    (h : Reads p text tokens) {a : SpannedToken} (ha : a ∈ tokens) (heof : a.1 ≠ .eof) :
    a.2.start < a.2.stop := by
  induction tokens generalizing p text with
  | nil => cases h
  | cons b tokens ih =>
    cases h with
    | last =>
      obtain rfl := List.mem_singleton.mp ha
      exact absurd rfl heof
    | @more _ gap taken _ _ _ _ hne _ _ hrest =>
      rcases List.mem_cons.mp ha with rfl | ha
      · have hpos : 0 < byteLength taken :=
          Nat.pos_of_ne_zero fun hzero => hne (eq_nil_of_byteLength hzero)
        simp only [Span.between, Position.offset_after, byteLength_append]
        omega
      · exact ih hrest ha

namespace Parse

open ScriptLint.Parser

variable {n : Nat} {g : Grammar} {s s' r : State} {e : ParseError}

/-- The tokens stand in place, and every one but the last takes up some of the text. -/
structure State.Solid (s : State) : Prop extends s.Ready where
  wide : ∀ (i : Nat) (a : SpannedToken), s.tokens[i]? = some a → a.1 ≠ .eof → a.2.start < a.2.stop

theorem solid_of_tokenize {source : List Char} {tokens : List SpannedToken}
    (h : tokenize source = .ok tokens) : State.Solid { source, tokens := tokens.toArray } := by
  have hready : State.Ready { source, tokens := tokens.toArray } :=
    State.ready_of_placed (tokenize_placed h) rfl rfl
  obtain ⟨herrors, rfl⟩ := tokenize_eq_ok_iff.mp h
  have hreads : Reads .origin source (scan source).tokens := scanAt_reads .origin source herrors
  refine ⟨hready, fun i a ha heof => ?_⟩
  rw [List.getElem?_toArray] at ha
  exact hreads.start_lt_stop (List.mem_of_getElem? ha) heof

/-- A token remains whole, or what is left of it is a mark. -/
theorem Remains.eq_or_punct {a b : SpannedToken} (h : Remains a b) :
    b = a ∨ ∃ mark, b.1 = .punct mark := by
  cases h with
  | whole => exact .inl rfl
  | cut _ hcut =>
    unfold afterClosingAngle at hcut
    split at hcut <;> cases hcut <;> exact .inr ⟨_, rfl⟩

/-- What remains of a token takes up some of the text too. -/
theorem Frame.solid (h : Frame s s') (hs : s.Solid) : s'.Solid := by
  refine ⟨h.ready hs.toReady, fun i b hb heof => ?_⟩
  obtain ⟨a, ha, hremains⟩ := h.tokens.before hb
  obtain rfl | ⟨mark, hmark⟩ := hremains.eq_or_punct
  · exact hs.wide i b ha heof
  · have hplaced := (h.ready hs.toReady).placed i b hb
    rw [hmark] at hplaced
    exact hplaced.start_lt_stop

/-- A token that is not the last one is not the last one when angles are taken from it. -/
theorem Frame.pos_lt_of_atEof (h : Frame s s') (hs : s.Ready) (heof : s.atEof = false)
    (hend : s'.atEof = true) : s.pos < s'.pos := by
  refine lt_of_le_of_ne h.pos_le fun hpos => ?_
  obtain ⟨a, ha, -, hcurrent⟩ := hs.token
  obtain ⟨b, hb, -, hcurrent'⟩ := (h.ready hs).token
  obtain ⟨a', ha', hremains⟩ := h.tokens.before hb
  rw [← hpos, ha, Option.some.injEq] at ha'
  rw [State.atEof, hcurrent'] at hend
  rw [State.atEof, hcurrent, ha'] at heof
  obtain rfl | ⟨mark, hmark⟩ := hremains.eq_or_punct
  · rw [heof] at hend
    cases hend
  · rw [hmark] at hend
    cases hend

/-- Where the cursor has moved past a token, the next one begins further on. -/
theorem Frame.here_lt (h : Frame s s') (hs : s.Solid) (heof : s.atEof = false)
    (hlt : s.pos < s'.pos) : s.here < s'.here := by
  obtain ⟨a, ha, hspan, hcurrent⟩ := hs.token
  have hwide := hs.wide s.pos a ha fun heq => by
    rw [State.atEof, hcurrent, heq] at heof
    cases heof
  calc s.here = a.2.start := by rw [State.here, hspan]
    _ < a.2.stop := hwide
    _ ≤ s'.passed := hspan ▸ h.stop_le_passed hs.toReady hlt
    _ ≤ s'.here := (h.ready hs.toReady).passed_le_here

/-- Tokens are skipped up to a place where a statement is likely to begin. -/
inductive Syncs : State → State → Prop where
  | ending {s : State} (h : s.atEof = true) : Syncs s s
  | semicolon {s : State} (heof : s.atEof = false) (h : s.current.isPunct .semicolon = true) :
      Syncs s s.advance
  | brace {s : State} (h : s.current.isPunct .rightBrace = true) : Syncs s s
  | start {s : State} (h : startsStatement s.current = true) (hnewline : s.newlineBefore = true) :
      Syncs s s
  | skip {s s' : State} (heof : s.atEof = false) (hsemicolon : s.current.isPunct .semicolon = false)
      (hbrace : s.current.isPunct .rightBrace = false)
      (hstart : (startsStatement s.current && s.newlineBefore) = false)
      (h : Syncs s.advance s') : Syncs s s'

/-- Reading goes on after an error, past one token at least if there is one. -/
inductive Resumes : State → State → Prop where
  | ending {s : State} (h : s.atEof = true) : Resumes s s
  | mark {s : State} (heof : s.atEof = false)
      (h : s.current.isPunct .semicolon = true ∨ s.current.isPunct .rightBrace = true) :
      Resumes s s.advance
  | skip {s s' : State} (heof : s.atEof = false) (hsemicolon : s.current.isPunct .semicolon = false)
      (hbrace : s.current.isPunct .rightBrace = false) (h : Syncs s.advance s') : Resumes s s'

theorem syncs_syncFrom (fuel : Nat) (hs : s.Ready) (hfuel : s.tokens.size ≤ s.pos + fuel + 1) :
    Syncs s (syncFrom fuel s) := by
  induction fuel generalizing s with
  | zero =>
    refine .ending ?_
    obtain ⟨a, ha, -, hcurrent⟩ := hs.token
    have hlt := hs.pos_lt
    rw [State.atEof, hcurrent, hs.last s.pos a ha (by omega)]
    rfl
  | succ fuel ih =>
    unfold syncFrom
    split_ifs with heof hsemicolon hbrace hstart
    · exact .ending heof
    · exact .semicolon (Bool.eq_false_iff.mpr heof) hsemicolon
    · exact .brace hbrace
    · exact .start (Bool.and_eq_true_iff.mp hstart).1 (Bool.and_eq_true_iff.mp hstart).2
    · have hpos : s.advance.pos = s.pos + 1 := pos_advance hs (Bool.eq_false_iff.mpr heof)
      refine .skip (Bool.eq_false_iff.mpr heof) (Bool.eq_false_iff.mpr hsemicolon)
        (Bool.eq_false_iff.mpr hbrace) (Bool.eq_false_iff.mpr hstart) (ih ?_ ?_)
      · exact (Frame.advance s).ready hs
      · rw [tokens_advance, hpos]
        omega

theorem resumes_sync (hs : s.Ready) : Resumes s (sync s) := by
  unfold sync
  split_ifs with heof hmark
  · exact .ending heof
  · exact .mark (Bool.eq_false_iff.mpr heof) (Bool.or_eq_true_iff.mp hmark)
  · obtain ⟨hsemicolon, hbrace⟩ := Bool.or_eq_false_iff.mp (Bool.eq_false_iff.mpr hmark)
    refine .skip (Bool.eq_false_iff.mpr heof) hsemicolon hbrace (syncs_syncFrom _ ?_ ?_)
    · exact (Frame.advance s).ready hs
    · rw [tokens_advance]
      omega

theorem Syncs.frame (h : Syncs s s') : Frame s s' := by
  induction h with
  | semicolon => exact .advance _
  | skip _ _ _ _ _ ih => exact (Frame.advance _).trans ih
  | _ => exact .refl _

theorem Resumes.frame (h : Resumes s s') : Frame s s' := by
  cases h with
  | ending => exact .refl s
  | mark => exact .advance s
  | skip _ _ _ h => exact (Frame.advance s).trans h.frame

theorem Resumes.pos_lt (h : Resumes s s') (hs : s.Ready) (heof : s.atEof = false) :
    s.pos < s'.pos := by
  have hpos : s.advance.pos = s.pos + 1 := pos_advance hs heof
  cases h with
  | ending h =>
    rw [heof] at h
    cases h
  | mark => omega
  | skip _ _ _ h =>
    have hle := h.frame.pos_le
    omega

/-- One attempt at a statement: the token at which it begins, and what comes of it. -/
structure Attempt where
  place : Nat
  result : Except ParseError NodeId

namespace Attempt

def error? (a : Attempt) : Option ParseError :=
  match a.result with
  | .ok _ => none
  | .error e => some e

def node? (a : Attempt) : Option NodeId :=
  match a.result with
  | .ok id => some id
  | .error _ => none

end Attempt

/-- From one state to another statements are attempted, until no token is left but the last. -/
inductive Attempts (g : Grammar) : State → List Attempt → State → Prop where
  | done {s : State} (heof : s.atEof = true) : Attempts g s [] s
  | read {s s' r : State} {id : NodeId} {rest : List Attempt} (heof : s.atEof = false)
      (hrun : statement g s = (.ok id, s')) (hrest : Attempts g s' rest r) :
      Attempts g s (⟨s.pos, .ok id⟩ :: rest) r
  | broken {s s' s'' r : State} {e : ParseError} {rest : List Attempt} (heof : s.atEof = false)
      (hrun : statement g s = (.error e, s'))
      (hresumes : Resumes { s' with errors := s'.errors.push e } s'')
      (hrest : Attempts g s'' rest r) : Attempts g s (⟨s.pos, .error e⟩ :: rest) r

/-- A later token of the same text. -/
structure Onward (s s' : State) : Prop where
  source : s'.source = s.source
  solid : s'.Solid
  pos_lt : s.pos < s'.pos
  size_eq : s'.tokens.size = s.tokens.size
  here_le : s.here ≤ s'.here
  reach_le : s'.reach ≤ s.reach

/-- A statement that is read leads to a later token. -/
theorem onward_of_read (hs : s.Solid) (hreach : s.reach ≤ n + 1) {id : NodeId}
    (hrun : statement (Grammar.upTo n) s = (.ok id, s')) :
    Onward s s' ∧ s'.errors = s.errors := by
  have hgrown := grows_statement (Grammar.sound_upTo n) s
  simp only [Leads, hrun] at hgrown
  have hproceeds := (answers_statement hs.toReady hreach).ok hrun
  have hle := hproceeds.still.reach
  exact ⟨⟨hgrown.frame.source, hgrown.frame.solid hs, hgrown.moved hs.toReady (.inr (by simp)),
    hgrown.frame.tokens.size, hgrown.frame.here_le hs.toReady, by simpa using hle⟩,
    hgrown.frame.errors⟩

/-- So does a broken one. Its error stands between the two tokens. -/
theorem onward_of_broken {s'' : State} (hs : s.Solid) (heof : s.atEof = false)
    (hreach : s.reach ≤ n + 1)
    (hrun : statement (Grammar.upTo n) s = (.error e, s'))
    (hresumes : Resumes { s' with errors := s'.errors.push e } s'') :
    Onward s s'' ∧ s''.errors = s.errors.push e ∧ Found s.here e s' ∧
      (s''.atEof = true ∨ s'.here < s''.here) := by
  have hgrown := grows_statement (Grammar.sound_upTo n) s
  simp only [Leads, hrun] at hgrown
  obtain ⟨-, hfound⟩ := (answers_statement hs.toReady hreach).error hrun
  have hsolid' := hgrown.solid hs
  let pushed : State := { s' with errors := s'.errors.push e }
  have hsolid : pushed.Solid := ⟨hsolid'.toReady.congr rfl rfl hsolid'.pos_lt, hsolid'.wide⟩
  have hpushed : Frame pushed s'' := hresumes.frame
  have hpos : s.pos < s''.pos := by
    cases hend : s'.atEof with
    | true => exact (hgrown.pos_lt_of_atEof hs.toReady heof hend).trans_le hpushed.pos_le
    | false => exact hgrown.pos_le.trans_lt (hresumes.pos_lt hsolid.toReady hend)
  refine ⟨⟨hpushed.source.trans hgrown.source, hpushed.solid hsolid, hpos,
    hpushed.tokens.size.trans hgrown.tokens.size, ?_, ?_⟩, ?_,
    hfound, ?_⟩
  · exact (hgrown.here_le hs.toReady).trans (hpushed.here_le hsolid.toReady)
  · exact hpushed.reach_le.trans hgrown.reach_le
  · rw [hpushed.errors]
    show s'.errors.push e = s.errors.push e
    rw [hgrown.errors]
  · cases hend : s'.atEof with
    | true =>
      cases hresumes with
      | ending h => exact .inl h
      | mark heof => exact absurd (hend.symm.trans heof) (by simp)
      | skip heof => exact absurd (hend.symm.trans heof) (by simp)
    | false => exact .inr (hpushed.here_lt hsolid hend (hresumes.pos_lt hsolid.toReady hend))

/-- The statements of a program are read in attempts, as many as there are. -/
theorem exists_attempts_statements (fuel : Nat) (body : List NodeId) (hs : s.Solid)
    (hreach : s.reach ≤ n + 1) (hfuel : s.tokens.size ≤ s.pos + fuel) :
    ∃ attempts r, Attempts (Grammar.upTo n) s attempts r ∧
      statements (Grammar.upTo n) fuel body s =
        (body.reverse ++ attempts.filterMap Attempt.node?, r) := by
  induction fuel generalizing s body with
  | zero => exact absurd hs.pos_lt (Nat.not_lt.mpr hfuel)
  | succ fuel ih =>
    by_cases heof : s.atEof = true
    · exact ⟨[], s, .done heof, by simp [statements, heof]⟩
    have hgoes := Bool.eq_false_iff.mpr heof
    rcases run_cases (statement (Grammar.upTo n)) s with ⟨id, s', hrun⟩ | ⟨e, s', hrun⟩
    · obtain ⟨honward, -⟩ := onward_of_read hs hreach hrun
      obtain ⟨attempts, r, hrest, hstatements⟩ := ih (id :: body) honward.solid
        (honward.reach_le.trans hreach) (by have := honward.pos_lt; have := honward.size_eq; omega)
      refine ⟨_, r, .read hgoes hrun hrest, ?_⟩
      simp only [statements, if_neg heof, hrun, hstatements, List.reverse_cons, List.append_assoc]
      rfl
    · have hresumes : Resumes { s' with errors := s'.errors.push e }
          (sync { s' with errors := s'.errors.push e }) := by
        have hgrown := grows_statement (Grammar.sound_upTo n) s
        simp only [Leads, hrun] at hgrown
        have hsolid := hgrown.solid hs
        exact resumes_sync (hsolid.toReady.congr rfl rfl hsolid.pos_lt)
      obtain ⟨honward, -⟩ := onward_of_broken hs hgoes hreach hrun hresumes
      obtain ⟨attempts, r, hrest, hstatements⟩ := ih body honward.solid
        (honward.reach_le.trans hreach) (by have := honward.pos_lt; have := honward.size_eq; omega)
      refine ⟨_, r, .broken hgoes hrun hresumes hrest, ?_⟩
      simp only [statements, if_neg heof, hrun, hstatements]
      rfl

/-- What is known of the attempts from a state on. -/
structure Orderly (s : State) (attempts : List Attempt) (r : State) : Prop where
  source : r.source = s.source
  ending : r.atEof = true
  places : (attempts.map Attempt.place).Pairwise (· < ·)
  within : ∀ a ∈ attempts, s.pos ≤ a.place ∧ a.place + 1 < s.tokens.size
  errors : r.errors.toList = s.errors.toList ++ attempts.filterMap Attempt.error?
  starts : ((attempts.filterMap Attempt.error?).map (·.span.start)).Pairwise (· < ·)
  found : ∀ e ∈ attempts.filterMap Attempt.error?, s.here ≤ e.span.start ∧ ¬ e.Exhausted

theorem State.Ready.succ_pos_lt (hs : s.Ready) (heof : s.atEof = false) :
    s.pos + 1 < s.tokens.size := by
  rw [← pos_advance hs heof, ← tokens_advance s]
  exact ((Frame.advance s).ready hs).pos_lt

namespace Orderly

variable {rest : List Attempt} {a : Attempt}

theorem places_cons (hrest : Orderly s' rest r) (h : Onward s s') (ha : a.place = s.pos) :
    ((a :: rest).map Attempt.place).Pairwise (· < ·) := by
  refine List.pairwise_cons.mpr ⟨fun place hplace => ?_, hrest.places⟩
  obtain ⟨b, hb, rfl⟩ := List.mem_map.mp hplace
  rw [ha]
  exact h.pos_lt.trans_le (hrest.within b hb).1

theorem within_cons (hrest : Orderly s' rest r) (h : Onward s s') (hs : s.Ready)
    (heof : s.atEof = false) (ha : a.place = s.pos) :
    ∀ b ∈ a :: rest, s.pos ≤ b.place ∧ b.place + 1 < s.tokens.size := by
  intro b hb
  rcases List.mem_cons.mp hb with rfl | hb
  · rw [ha]
    exact ⟨le_rfl, hs.succ_pos_lt heof⟩
  · obtain ⟨hle, hlt⟩ := hrest.within b hb
    exact ⟨h.pos_lt.le.trans hle, hlt.trans_eq h.size_eq⟩

end Orderly

/-- What holds of one attempt and of those after it holds of all. -/
theorem Attempts.orderly {attempts : List Attempt} (h : Attempts (Grammar.upTo n) s attempts r)
    (hs : s.Solid) (hreach : s.reach ≤ n + 1) : Orderly s attempts r := by
  induction h with
  | done heof => exact ⟨rfl, heof, .nil, fun _ => nofun, by simp, .nil, fun _ => nofun⟩
  | @read s s' r id rest heof hrun hrest ih =>
    obtain ⟨honward, herrors⟩ := onward_of_read hs hreach hrun
    have hrest := ih honward.solid (honward.reach_le.trans hreach)
    refine ⟨hrest.source.trans honward.source, hrest.ending, hrest.places_cons honward rfl,
      hrest.within_cons honward hs.toReady heof rfl,
      ?_, hrest.starts, fun e he => ?_⟩
    · rw [hrest.errors, herrors]
      rfl
    · obtain ⟨hle, hcause⟩ := hrest.found e he
      exact ⟨honward.here_le.trans hle, hcause⟩
  | @broken s s' s'' r e rest heof hrun hresumes hattempts ih =>
    obtain ⟨honward, herrors, hfound, hafter⟩ := onward_of_broken hs heof hreach hrun hresumes
    have hrest := ih honward.solid (honward.reach_le.trans hreach)
    refine ⟨hrest.source.trans honward.source, hrest.ending, hrest.places_cons honward rfl,
      hrest.within_cons honward hs.toReady heof rfl,
      ?_, ?_, fun e' he' => ?_⟩
    · rw [hrest.errors, herrors, Array.toList_push, List.append_assoc]
      rfl
    · refine List.pairwise_cons.mpr ⟨fun start hstart => ?_, hrest.starts⟩
      obtain ⟨e', he', rfl⟩ := List.mem_map.mp hstart
      rcases hafter with hend | hlt
      · cases hattempts with
        | done => cases he'
        | read heof => exact absurd (hend.symm.trans heof) (by simp)
        | broken heof => exact absurd (hend.symm.trans heof) (by simp)
      · exact hfound.le_here.trans_lt (hlt.trans_le (hrest.found e' he').1)
    · rcases List.mem_cons.mp he' with rfl | he'
      · exact ⟨hfound.lo_le, hfound.not_exhausted⟩
      · obtain ⟨hle, hcause⟩ := hrest.found e' he'
        exact ⟨honward.here_le.trans hle, hcause⟩

/-- There are fewer numbers below a bound than the bound. -/
theorem length_le_of_pairwise_lt {places : List Nat} {bound : Nat} (h : places.Pairwise (· < ·))
    (hbound : ∀ p ∈ places, p < bound) : places.length ≤ bound := by
  have hsubset : places ⊆ List.range bound := fun p hp => List.mem_range.mpr (hbound p hp)
  simpa using (List.subperm_of_subset (h.imp ne_of_lt) hsubset).length_le

/-- A text of which the tokens can be told apart is parsed in attempts at a statement each, until no
token is left. Every attempt begins at a later token than the one before it. The errors that are
reported are those of the attempts: each stands further on in the text than the one before it, there
are fewer of them than tokens, and none is for want of fuel. -/
theorem parse_recovers {source : List Char} {tokens : List SpannedToken}
    (h : tokenize source = .ok tokens) :
    ∃ (attempts : List Attempt) (r : State),
      Attempts (Grammar.upTo (maxDepth + State.weight { source, tokens := tokens.toArray } + 2))
        { source, tokens := tokens.toArray } attempts r ∧
      r.atEof = true ∧
      (attempts.map Attempt.place).Pairwise (· < ·) ∧
      (∀ a ∈ attempts, a.place + 1 < tokens.length) ∧
      ((attempts.filterMap Attempt.error?).map (·.span.start)).Pairwise (· < ·) ∧
      (attempts.filterMap Attempt.error?).length < tokens.length ∧
      (∀ e ∈ attempts.filterMap Attempt.error?, ¬ e.Exhausted) ∧
      parse source = if (attempts.filterMap Attempt.error?).isEmpty then
          .ok ((r.tree.alloc (.program (attempts.filterMap Attempt.node?))
            (some ⟨0, byteLength source, 1, 1⟩)).2.withRoot r.tree.size).linkParents
        else .error ((attempts.filterMap Attempt.error?).map .parse) := by
  let s : State := { source, tokens := tokens.toArray }
  have hs : s.Solid := solid_of_tokenize h
  have hreach : s.reach ≤ maxDepth + s.weight + 2 + 1 := by
    have hmass : s.reach = maxDepth + tokensMass tokens :=
      congrArg (maxDepth + ·) (State.total_mass_start s tokens)
    have hweight : tokensMass tokens ≤ s.weight := tokensMass_le_weight h
    omega
  obtain ⟨attempts, r, hattempts, hstatements⟩ :=
    exists_attempts_statements (s.tokens.size + 1) [] hs hreach (by omega)
  have horderly := hattempts.orderly hs hreach
  have hsource : r.source = source := horderly.source
  have herrors : r.errors.toList = attempts.filterMap Attempt.error? := horderly.errors
  have hlength : attempts.length < tokens.length := by
    have hpos := (tokenize_placed h).length_pos
    have hle : _ ≤ tokens.length - 1 := length_le_of_pairwise_lt horderly.places fun p hp => by
      obtain ⟨a, ha, rfl⟩ := List.mem_map.mp hp
      have hlt : a.place + 1 < tokens.length := (horderly.within a ha).2
      omega
    rw [List.length_map] at hle
    omega
  refine ⟨attempts, r, hattempts, horderly.ending, horderly.places,
    fun a ha => (horderly.within a ha).2, horderly.starts, ?_,
    fun e he => (horderly.found e he).2, ?_⟩
  · exact (List.length_filterMap_le _ _).trans_lt hlength
  · have hprogram : program s = if r.errors.isEmpty then
        .ok ((r.tree.alloc (.program (attempts.filterMap Attempt.node?))
          (some ⟨0, byteLength r.source, 1, 1⟩)).2.withRoot r.tree.size).linkParents
      else .error r.errors.toList := by
      simp only [program, hstatements]
      rfl
    have hempty : r.errors.isEmpty = (attempts.filterMap Attempt.error?).isEmpty := by
      rw [← herrors, Array.isEmpty_toList]
    rw [parse_eq h, hprogram, hempty, hsource, herrors]
    generalize (attempts.filterMap Attempt.error?).isEmpty = none
    cases none <;> rfl

/-- Two of three statements are broken, and both are reported. -/
theorem parse_recovers_twice : ∃ tokens,
    tokenize "let = 1;\nconst y = ;\nlet ok = 2;".toList = .ok tokens ∧
    ∃ (attempts : List Attempt) (r : State),
      (attempts.map Attempt.place).Pairwise (· < ·) ∧
      (attempts.filterMap Attempt.error?).length = 2 ∧
      ((attempts.filterMap Attempt.error?).map (·.span.start)).Pairwise (· < ·) ∧
      r.atEof = true := by
  have hcount : (((parse "let = 1;\nconst y = ;\nlet ok = 2;".toList).map fun _ => 0).tryCatch
      fun errors => .ok errors.length).toOption = some 2 := by decide +kernel
  have htokens : (tokenize "let = 1;\nconst y = ;\nlet ok = 2;".toList).toBool = true := by
    decide +kernel
  obtain ⟨tokens, htokenize⟩ := exists_of_toBool htokens
  obtain ⟨attempts, r, -, hend, hplaces, -, hstarts, -, -, hparse⟩ := parse_recovers htokenize
  refine ⟨tokens, htokenize, attempts, r, hplaces, ?_, hstarts, hend⟩
  rw [hparse] at hcount
  split_ifs at hcount
  · cases hcount
  · simpa [Except.map, Except.tryCatch, Except.toOption] using hcount

end Parse
end ScriptLint
