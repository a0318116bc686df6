import ScriptLint.Lint.Linter
import Mathlib.Data.Nat.Basic

namespace ScriptLint

/-- The outcome with the fixes and rounds of an earlier run counted in. -/
def FixOutcome.afterRun (o : FixOutcome) (fixes passes : Nat) : FixOutcome :=
  { o with fixesApplied := fixes + o.fixesApplied, passes := passes + o.passes }

namespace Settings

variable {s : Settings} {path : String} {o next : FixOutcome} {source : List Char}

/-- Where fixing a text begins. -/
def fixStart (s : Settings) (path : String) (source : List Char) : FixOutcome :=
  { output := source, diagnostics := s.lintSource path source }

/-- What one round does: it applies some fixes, and what is then reported is what is found in the
new text, which parses. -/
structure IsRound (s : Settings) (path : String) (o next : FixOutcome) : Prop where
  passes : next.passes = o.passes + 1
  fixes : o.fixesApplied < next.fixesApplied
  parses : ∃ t, parse next.output = .ok t
  diagnostics : next.diagnostics = s.lintSource path next.output

theorem isRound_of_fixRound? (h : s.fixRound? path o = some next) : s.IsRound path o next := by
  unfold fixRound? at h
  simp only at h
  split_ifs at h with happlied
  split at h
  · cases h
  · next tree htree =>
    cases h
    refine ⟨rfl, ?_, ⟨tree, htree⟩, ?_⟩
    · exact Nat.lt_add_of_pos_right (Nat.pos_of_ne_zero happlied)
    · simp only [lintSource, htree]

/-- A round looks at the text and its diagnostics only, so what was counted before does not
matter. -/
theorem fixRound?_afterRun (fixes passes : Nat) :
    s.fixRound? path (o.afterRun fixes passes) =
      (s.fixRound? path o).map (·.afterRun fixes passes) := by
  unfold fixRound? FixOutcome.afterRun
  simp only
  split_ifs with happlied
  · rfl
  · split
    · rfl
    · simp only [Option.map_some, Nat.add_assoc]

/-- A text that does not parse gets no round. -/
theorem fixRound?_of_error (h : ¬∃ t, parse source = .ok t) :
    s.fixRound? path (s.fixStart path source) = none := by
  have hfixes : (s.fixStart path source).diagnostics.filterMap (·.fix) = [] := by
    simp only [fixStart, lintSource]
    split
    · next tree htree => exact absurd ⟨tree, htree⟩ h
    · simp [List.filterMap_map, Function.comp_def, ofSourceError]
  unfold fixRound?
  simp [hfixes, applyFixes, Fix.select]

theorem fixRounds_succ (limit : Nat) :
    s.fixRounds path (limit + 1) o =
      match s.fixRound? path o with
      | none => o
      | some next => s.fixRounds path limit next :=
  rfl

theorem fixRounds_of_none (h : s.fixRound? path o = none) (limit : Nat) :
    s.fixRounds path limit o = o := by
  cases limit with
  | zero => rfl
  | succ limit => simp only [fixRounds_succ, h]

theorem fixRounds_afterRun (fixes passes limit : Nat) :
    s.fixRounds path limit (o.afterRun fixes passes) =
      (s.fixRounds path limit o).afterRun fixes passes := by
  induction limit generalizing o with
  | zero => rfl
  | succ limit ih =>
    simp only [fixRounds_succ, fixRound?_afterRun]
    cases s.fixRound? path o with
    | none => rfl
    | some next => exact ih

theorem fixRounds_add (m n : Nat) :
    s.fixRounds path (m + n) o = s.fixRounds path n (s.fixRounds path m o) := by
  induction m generalizing o with
  | zero => rw [Nat.zero_add]; rfl
  | succ m ih =>
    rw [Nat.succ_add]
    simp only [fixRounds_succ]
    cases hround : s.fixRound? path o with
    | none => simp only [fixRounds_of_none hround]
    | some next => exact ih

theorem passes_fixRounds_le (limit : Nat) :
    (s.fixRounds path limit o).passes ≤ o.passes + limit := by
  induction limit generalizing o with
  | zero => exact le_rfl
  | succ limit ih =>
    rw [fixRounds_succ]
    split
    · exact Nat.le_add_right _ _
    · next next hround =>
      have hpasses := (isRound_of_fixRound? hround).passes
      have hle := ih (o := next)
      omega

/-- A run that has not used up its rounds has ended at a text for which there is none. -/
theorem fixRound?_fixRounds {limit : Nat}
    (h : (s.fixRounds path limit o).passes < o.passes + limit) :
    s.fixRound? path (s.fixRounds path limit o) = none := by
  induction limit generalizing o with
  | zero => exact absurd h (lt_irrefl _)
  | succ limit ih =>
    rw [fixRounds_succ] at h ⊢
    cases hround : s.fixRound? path o with
    | none => exact hround
    | some next =>
      simp only [hround] at h ⊢
      have hpasses := (isRound_of_fixRound? hround).passes
      exact ih (by omega)

/-- A run either does nothing, or it counts fixes and rounds and its text parses. -/
theorem fixRounds_eq_or_lt (limit : Nat) :
    s.fixRounds path limit o = o ∨
      (o.passes < (s.fixRounds path limit o).passes ∧
        o.fixesApplied < (s.fixRounds path limit o).fixesApplied ∧
        ∃ t, parse (s.fixRounds path limit o).output = .ok t) := by
  induction limit generalizing o with
  | zero => exact .inl rfl
  | succ limit ih =>
    rw [fixRounds_succ]
    split
    · exact .inl rfl
    · next next hround =>
      have hfirst := isRound_of_fixRound? hround
      have hpasses : o.passes < next.passes := by
        rw [hfirst.passes]
        exact Nat.lt_succ_self _
      rcases ih (o := next) with hsame | ⟨hlater, hfixes, hparses⟩
      · rw [hsame]
        exact .inr ⟨hpasses, hfirst.fixes, hfirst.parses⟩
      · exact .inr ⟨Nat.lt_trans hpasses hlater, Nat.lt_trans hfirst.fixes hfixes, hparses⟩

theorem diagnostics_fixRounds (limit : Nat) (h : o.diagnostics = s.lintSource path o.output) :
    (s.fixRounds path limit o).diagnostics =
      s.lintSource path (s.fixRounds path limit o).output := by
  induction limit generalizing o with
  | zero => exact h
  | succ limit ih =>
    rw [fixRounds_succ]
    split
    · exact h
    · next next hround => exact ih (isRound_of_fixRound? hround).diagnostics

/-- What was reached in a run is where a new run begins, but for what was counted. -/
theorem eq_fixStart_afterRun (h : o.diagnostics = s.lintSource path o.output) :
    o = (s.fixStart path o.output).afterRun o.fixesApplied o.passes := by
  cases o
  simp_all [fixStart, FixOutcome.afterRun]

/-- The limit on rounds has no part in a round. -/
theorem fixRounds_withLimit (m limit : Nat) :
    { s with maxFixPasses := m }.fixRounds path limit o = s.fixRounds path limit o := by
  induction limit generalizing o with
  | zero => rfl
  | succ limit ih =>
    have hround : { s with maxFixPasses := m }.fixRound? path o = s.fixRound? path o := rfl
    simp only [fixRounds_succ, hround]
    cases s.fixRound? path o with
    | none => rfl
    | some next => exact ih

/-- What the outcome of fixing a text is. -/
structure IsFixed (s : Settings) (path : String) (source : List Char) (o : FixOutcome) : Prop where
  passes_le : o.passes ≤ s.maxFixPasses
  diagnostics : o.diagnostics = s.lintSource path o.output
  parses : (∃ t, parse source = .ok t) → ∃ t, parse o.output = .ok t
  untouched : (¬∃ t, parse source = .ok t) → o.output = source
  passes_eq_zero_iff : o.passes = 0 ↔ o.fixesApplied = 0
  output_eq : o.passes = 0 → o.output = source
  /-- Rounds are left over only where there is none to make. -/
  stopped : o.passes < s.maxFixPasses → s.fixRound? path o = none
  /-- Fixing the output once more changes nothing and counts nothing. -/
  settled : o.passes < s.maxFixPasses →
    s.fixSource path o.output = { o with fixesApplied := 0, passes := 0 }

theorem isFixed_fixSource (s : Settings) (path : String) (source : List Char) :
    s.IsFixed path source (s.fixSource path source) := by
  change s.IsFixed path source (s.fixRounds path s.maxFixPasses (s.fixStart path source))
  obtain ⟨o, ho⟩ : ∃ o, s.fixRounds path s.maxFixPasses (s.fixStart path source) = o := ⟨_, rfl⟩
  rw [ho]
  have hcases := ho ▸ fixRounds_eq_or_lt (o := s.fixStart path source) s.maxFixPasses
  have hdiagnostics : o.diagnostics = s.lintSource path o.output :=
    ho ▸ diagnostics_fixRounds s.maxFixPasses rfl
  have hstopped : o.passes < s.maxFixPasses → s.fixRound? path o = none := by
    intro hlt
    rw [← ho] at hlt ⊢
    exact fixRound?_fixRounds (by simpa [fixStart] using hlt)
  refine ⟨?_, hdiagnostics, ?_, ?_, ?_, ?_, hstopped, ?_⟩
  · have hle := ho ▸ passes_fixRounds_le (o := s.fixStart path source) s.maxFixPasses
    simpa [fixStart] using hle
  · intro hparses
    rcases hcases with hsame | ⟨_, _, hparses'⟩
    · rw [hsame]
      exact hparses
    · exact hparses'
  · intro herror
    rw [← ho, fixRounds_of_none (fixRound?_of_error herror)]
    rfl
  · rcases hcases with hsame | ⟨hpasses, hfixes, _⟩
    · rw [hsame]
      exact Iff.rfl
    · have hpasses' := Nat.zero_lt_of_lt hpasses
      have hfixes' := Nat.zero_lt_of_lt hfixes
      omega
  · intro hzero
    rcases hcases with hsame | ⟨hpasses, _, _⟩
    · rw [hsame]
      rfl
    · exact absurd hzero (Nat.ne_zero_of_lt hpasses)
  · intro hlt
    -- the round that is missing from `o` is missing from a new start as well
    have hnone := hstopped hlt
    rw [eq_fixStart_afterRun hdiagnostics, fixRound?_afterRun, Option.map_eq_none_iff] at hnone
    change s.fixRounds path s.maxFixPasses (s.fixStart path o.output) = _
    rw [fixRounds_of_none hnone, fixStart, hdiagnostics]

/-- Fixing with one limit and then the output with another is fixing with their sum. -/
theorem fixSource_withLimit_add (s : Settings) (path : String) (source : List Char) (m n : Nat) :
    { s with maxFixPasses := m + n }.fixSource path source =
      ({ s with maxFixPasses := n }.fixSource path
        ({ s with maxFixPasses := m }.fixSource path source).output).afterRun
          ({ s with maxFixPasses := m }.fixSource path source).fixesApplied
          ({ s with maxFixPasses := m }.fixSource path source).passes := by
  have hrun : ∀ limit text, { s with maxFixPasses := limit }.fixSource path text =
      s.fixRounds path limit (s.fixStart path text) := by
    intro limit text
    exact fixRounds_withLimit limit limit
  simp only [hrun]
  rw [fixRounds_add, ← fixRounds_afterRun, ← eq_fixStart_afterRun]
  exact diagnostics_fixRounds m rfl

/-- Fixing a text makes no more rounds than are allowed, stops early only where no round is left to
make, and reports what the rules say of its output, which parses if the text does. A run of `m + n`
rounds is one of `m` rounds and then one of `n`, with the fixes and rounds of both. -/
theorem fixSource_isFixed_and_add (s : Settings) (path : String) (source : List Char) :
    s.IsFixed path source (s.fixSource path source) ∧
    ∀ m n, ∃ first second, { s with maxFixPasses := m }.fixSource path source = first ∧
      { s with maxFixPasses := n }.fixSource path first.output = second ∧
      { s with maxFixPasses := m + n }.fixSource path source =
        { output := second.output
          fixesApplied := first.fixesApplied + second.fixesApplied
          passes := first.passes + second.passes
          diagnostics := second.diagnostics } := by
  refine ⟨isFixed_fixSource s path source, fun m n => ⟨_, _, rfl, rfl, ?_⟩⟩
  exact fixSource_withLimit_add s path source m n

end Settings
end ScriptLint
