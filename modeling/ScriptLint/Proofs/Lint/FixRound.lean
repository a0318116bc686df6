import ScriptLint.Lint.Apply
import ScriptLint.Proofs.Source.Slice
import Mathlib.Data.List.Pairwise

namespace ScriptLint
namespace Fix

/-- The fixes exchange stretches of a text that begins at an offset, and keep all between them. -/
inductive Exchanges : Nat → List Fix → List Char → List Char → Prop where
  | nil (offset : Nat) (text : List Char) : Exchanges offset [] text text
  | cons {offset : Nat} {f : Fix} {fixes : List Fix} {kept old text text' : List Char}
      (hstart : offset + byteLength kept = f.span.start)
      (hstop : f.span.start + byteLength old = f.span.stop)
      (hrest : Exchanges f.span.stop fixes text text') :
      Exchanges offset (f :: fixes) (kept ++ old ++ text) (kept ++ f.replacement ++ text')

/-- Puts the replacement of one fix into a text. -/
def applyTo (f : Fix) (text : List Char) : List Char :=
  (takeBytes f.span.start text).getD [] ++ f.replacement ++ (dropBytes f.span.stop text).getD []

/-- The fix begins inside the span of another one. -/
def StartsIn (f g : Fix) : Prop := g.span.start ≤ f.span.start ∧ f.span.start < g.span.stop

/-- The stretches of text that two fixes exchange are not the same. -/
def Elsewhere (f g : Fix) : Prop := f.span.start ≠ g.span.start ∨ f.span.stop ≠ g.span.stop

variable {source : List Char} {f g : Fix} {fixes accepted : List Fix} {last cursor : Nat}

theorem le_iff : Fix.le f g = true ↔
    f.span.start < g.span.start ∨ f.span.start = g.span.start ∧ f.span.stop ≤ g.span.stop := by
  simp [Fix.le]

theorem pairwise_mergeSort_le (fixes : List Fix) :
    (fixes.mergeSort Fix.le).Pairwise fun f g => Fix.le f g = true := by
  refine List.pairwise_mergeSort (fun a b c hab hbc => ?_) (fun a b => ?_) fixes
  · rw [le_iff] at hab hbc ⊢
    omega
  · rw [Bool.or_eq_true, le_iff, le_iff]
    omega

/-- Sorting forgets the order of fixes for different stretches. -/
theorem mergeSort_eq_of_perm {fixes' : List Fix} (hperm : fixes'.Perm fixes)
    (hapart : fixes.Pairwise Elsewhere) : fixes'.mergeSort Fix.le = fixes.mergeSort Fix.le := by
  have : Std.Symm Elsewhere := ⟨fun f g h => h.imp Ne.symm Ne.symm⟩
  have hsame : (fixes'.mergeSort Fix.le).Perm (fixes.mergeSort Fix.le) :=
    (List.mergeSort_perm _ _).trans (hperm.trans (List.mergeSort_perm _ _).symm)
  refine hsame.eq_of_pairwise (fun f g hf hg hfg hgf => ?_) (pairwise_mergeSort_le _)
    (pairwise_mergeSort_le _)
  rw [List.mem_mergeSort] at hf hg
  by_contra hne
  have helsewhere := hapart.forall (hperm.mem_iff.mp hf) hg hne
  rw [le_iff] at hfg hgf
  unfold Elsewhere at helsewhere
  omega

theorem isValid_iff : f.isValid source = true ↔ f.span.start ≤ f.span.stop ∧
    (position? source f.span.start).isSome ∧ (position? source f.span.stop).isSome := by
  constructor
  · intro h
    obtain ⟨old, hold⟩ := Option.isSome_iff_exists.mp h
    obtain ⟨before, after, rfl, hstart, hstop⟩ := slice?_eq_some_iff.mp hold
    refine ⟨?_, ?_, ?_⟩
    · rw [← hstart, ← hstop, byteLength_append]
      exact Nat.le_add_right _ _
    · rw [position?, ← hstart, List.append_assoc, takeBytes_byteLength]
      rfl
    · rw [position?, ← hstop, takeBytes_byteLength]
      rfl
  · rintro ⟨hle, hstart, hstop⟩
    exact slice?_isSome_of_position? hle hstart hstop

/-- A valid fix exchanges a stretch in the middle of the text. -/
theorem exists_of_isValid (h : f.isValid source = true) : ∃ before old after,
    source = before ++ old ++ after ∧ byteLength before = f.span.start ∧
      byteLength (before ++ old) = f.span.stop := by
  obtain ⟨old, hold⟩ := Option.isSome_iff_exists.mp h
  obtain ⟨before, after, hparts⟩ := slice?_eq_some_iff.mp hold
  exact ⟨before, old, after, hparts⟩

theorem start_le_stop (h : f.isValid source = true) : f.span.start ≤ f.span.stop :=
  (isValid_iff.mp h).1

/-- Fixes that lie apart on a text from an offset on. -/
structure Apart (source : List Char) (last : Nat) (fixes : List Fix) : Prop where
  valid : ∀ f ∈ fixes, f.isValid source = true
  le_start : ∀ f ∈ fixes, last ≤ f.span.start
  pairwise : fixes.Pairwise fun f g => f.span.stop ≤ g.span.start

theorem apart_select (source : List Char) (last : Nat) (fixes : List Fix) :
    Apart source last (select source last fixes) := by
  induction fixes generalizing last with
  | nil => exact ⟨by simp [select], by simp [select], .nil⟩
  | cons f fixes ih =>
    unfold select
    split_ifs with htaken
    · obtain ⟨hvalid, hle⟩ := Bool.and_eq_true_iff.mp htaken
      have hle : last ≤ f.span.start := of_decide_eq_true hle
      have hrest := ih f.span.stop
      refine ⟨List.forall_mem_cons.mpr ⟨hvalid, hrest.valid⟩, ?_,
        List.pairwise_cons.mpr ⟨hrest.le_start, hrest.pairwise⟩⟩
      refine List.forall_mem_cons.mpr ⟨hle, fun g hg => ?_⟩
      exact hle.trans ((start_le_stop hvalid).trans (hrest.le_start g hg))
    · exact ih last

/-- Of fixes in order those that are not chosen are no stretch of the text, begin too early, or
begin inside one that is chosen. -/
theorem exists_refused (source : List Char)
    (hsorted : fixes.Pairwise fun f g => Fix.le f g = true) (last : Nat) :
    ∃ refused, (select source last fixes ++ refused).Perm fixes ∧
      ∀ f ∈ refused, f.isValid source = false ∨ f.span.start < last ∨
        ∃ g ∈ select source last fixes, f.StartsIn g := by
  induction fixes generalizing last with
  | nil => exact ⟨[], .refl _, by simp⟩
  | cons f fixes ih =>
    obtain ⟨hfirst, hsorted⟩ := List.pairwise_cons.mp hsorted
    unfold select
    split_ifs with htaken
    · obtain ⟨refused, hperm, hrefused⟩ := ih hsorted f.span.stop
      refine ⟨refused, hperm.cons f, fun g hg => ?_⟩
      rcases hrefused g hg with hinvalid | hearly | ⟨g', hg', hinside⟩
      · exact .inl hinvalid
      · -- what begins before the end of `f` begins inside of it, for it comes later in the order
        have hmem : g ∈ fixes := hperm.mem_iff.mp (List.mem_append_right _ hg)
        have hle := le_iff.mp (hfirst g hmem)
        exact .inr (.inr ⟨f, List.mem_cons_self, by omega, hearly⟩)
      · exact .inr (.inr ⟨g', List.mem_cons_of_mem f hg', hinside⟩)
    · obtain ⟨refused, hperm, hrefused⟩ := ih hsorted last
      refine ⟨f :: refused, List.perm_middle.trans (hperm.cons f), fun g hg => ?_⟩
      rcases List.mem_cons.mp hg with rfl | hg
      · by_cases hvalid : g.isValid source = true
        · exact .inr (.inl (by simpa [hvalid] using htaken))
        · exact .inl (by simpa using hvalid)
      · exact hrefused g hg

/-- Splicing exchanges the spans of the fixes, from front to back. -/
theorem exchanges_splice (before : List Char) {text : List Char} (hsource : source = before ++ text)
    (happart : Apart source (byteLength before) accepted) :
    Exchanges (byteLength before) accepted text (splice source (byteLength before) accepted) := by
  induction accepted generalizing before text with
  | nil =>
    rw [splice, hsource, dropBytes_byteLength]
    exact .nil _ _
  | cons f accepted ih =>
    obtain ⟨front, old, after, hparts, hstart, hstop⟩ :=
      exists_of_isValid (happart.valid f List.mem_cons_self)
    have hle : byteLength before ≤ byteLength front :=
      (happart.le_start f List.mem_cons_self).trans_eq hstart.symm
    obtain ⟨kept, rfl⟩ : before <+: front :=
      isPrefix_of_byteLength_le ⟨text, hsource.symm⟩
        ⟨old ++ after, by rw [hparts, List.append_assoc]⟩ hle
    have htext : text = kept ++ old ++ after := by
      rw [hsource] at hparts
      simpa only [List.append_assoc, List.append_cancel_left_eq] using hparts
    have hkept : slice? source (byteLength before) f.span.start = some kept :=
      slice?_eq_some_iff.mpr ⟨before, old ++ after, by simp [hparts], rfl, hstart⟩
    have hrest : Apart source (byteLength (before ++ kept ++ old)) accepted := by
      rw [hstop]
      obtain ⟨hafter, hpairwise⟩ := List.pairwise_cons.mp happart.pairwise
      exact ⟨fun g hg => happart.valid g (List.mem_cons_of_mem f hg), hafter, hpairwise⟩
    have hexchanges := ih _ hparts hrest
    rw [hstop] at hexchanges
    rw [splice, hkept, htext]
    refine .cons ?_ ?_ hexchanges
    · rw [← hstart, byteLength_append]
    · rw [← hstart, ← hstop, byteLength_append (before ++ kept)]

/-- One fix put into a text at its span. -/
theorem applyTo_append {before old after : List Char} (hstart : byteLength before = f.span.start)
    (hstop : byteLength (before ++ old) = f.span.stop) :
    f.applyTo (before ++ old ++ after) = before ++ f.replacement ++ after := by
  have htake : takeBytes f.span.start (before ++ old ++ after) = some before := by
    rw [← hstart, List.append_assoc, takeBytes_byteLength]
  rw [applyTo, htake, ← hstop, dropBytes_byteLength]
  rfl

/-- To exchange all spans at once is to put in one fix after the other, the last one first, so that
the spans of those to come are still in place. -/
theorem foldr_applyTo {text text' : List Char} (h : Exchanges cursor accepted text text')
    (before : List Char) (hbefore : byteLength before = cursor) :
    accepted.foldr applyTo (before ++ text) = before ++ text' := by
  induction h generalizing before with
  | nil => rfl
  | @cons offset f fixes kept old text text' hstart hstop _ ih =>
    subst hbefore
    have hfront : byteLength (before ++ kept) = f.span.start := by rw [byteLength_append, hstart]
    have hspan : byteLength (before ++ kept ++ old) = f.span.stop := by
      rw [byteLength_append, hfront, hstop]
    have hlater := ih _ hspan
    calc (f :: fixes).foldr applyTo (before ++ (kept ++ old ++ text))
        = f.applyTo (fixes.foldr applyTo (before ++ kept ++ old ++ text)) := by simp
      _ = f.applyTo (before ++ kept ++ old ++ text') := by rw [hlater]
      _ = before ++ kept ++ f.replacement ++ text' := applyTo_append hfront hspan
      _ = before ++ (kept ++ f.replacement ++ text') := by simp

end Fix

/-- What a round does with the fixes that it is given. -/
structure FixRound.Applies (r : FixRound) (source : List Char) (fixes : List Fix)
    (accepted refused : List Fix) : Prop where
  /-- Every fix is accepted or refused. -/
  perm : (accepted ++ refused).Perm fixes
  applied : r.applied = accepted.length
  skipped : r.skipped = refused.length
  total : r.applied + r.skipped = fixes.length
  /-- The spans of accepted fixes are stretches of the text between characters. -/
  valid : ∀ f ∈ accepted, f.span.start ≤ f.span.stop ∧ f.span.stop ≤ byteLength source ∧
    (position? source f.span.start).isSome ∧ (position? source f.span.stop).isSome
  apart : accepted.Pairwise fun f g => f.span.stop ≤ g.span.start
  output : Fix.Exchanges 0 accepted source r.output
  /-- The new text comes about as well if the fixes are put in one by one from the back. -/
  backwards : accepted.foldr Fix.applyTo source = r.output
  needed : ∀ f ∈ refused, f.isValid source = false ∨ ∃ g ∈ accepted, f.StartsIn g

variable {source : List Char}

theorem stop_le_of_isValid {f : Fix} (h : f.isValid source = true) :
    f.span.stop ≤ byteLength source := by
  obtain ⟨before, old, after, rfl, -, hstop⟩ := Fix.exists_of_isValid h
  rw [← hstop, byteLength_append (before ++ old)]
  exact Nat.le_add_right _ _

/-- A round applies fixes that lie apart and exchanges their spans only, and it refuses no fix
without need. Fixes for different stretches may be given in any order. -/
theorem applyFixes_applies (source : List Char) (fixes : List Fix) :
    (∃ accepted refused, (applyFixes source fixes).Applies source fixes accepted refused) ∧
      ∀ fixes', fixes'.Perm fixes → fixes.Pairwise Fix.Elsewhere →
        applyFixes source fixes' = applyFixes source fixes := by
  constructor
  · have hsorted := Fix.pairwise_mergeSort_le fixes
    have hperm := List.mergeSort_perm fixes Fix.le
    have happart := Fix.apart_select source 0 (fixes.mergeSort Fix.le)
    obtain ⟨refused, hsplit, hrefused⟩ := Fix.exists_refused source hsorted 0
    have hall := hsplit.trans hperm
    have hexchanges : Fix.Exchanges 0 (Fix.select source 0 (fixes.mergeSort Fix.le)) source
        (applyFixes source fixes).output := Fix.exchanges_splice [] rfl happart
    have hcount : (applyFixes source fixes).skipped = refused.length := by
      have hlength := hall.length_eq
      rw [List.length_append] at hlength
      simp only [applyFixes]
      omega
    refine ⟨_, refused, hall, rfl, hcount, ?_, fun f hf => ?_, happart.pairwise, hexchanges,
      Fix.foldr_applyTo hexchanges [] rfl, fun f hf => ?_⟩
    · rw [hcount, ← hall.length_eq, List.length_append]
      rfl
    · have hvalid := happart.valid f hf
      obtain ⟨hle, hstart, hstop⟩ := Fix.isValid_iff.mp hvalid
      exact ⟨hle, stop_le_of_isValid hvalid, hstart, hstop⟩
    · rcases hrefused f hf with hinvalid | hearly | hinside
      · exact .inl hinvalid
      · exact absurd hearly (Nat.not_lt_zero _)
      · exact .inr hinside
  · intro fixes' hperm hapart
    simp only [applyFixes, Fix.mergeSort_eq_of_perm hperm hapart, hperm.length_eq]

/-- Two fixes that touch and one inside the first of them, given from back to front. -/
theorem applyFixes_applies_reversed :
    let left : Fix := ⟨⟨0, 2, 1, 1⟩, ['L']⟩
    let inside : Fix := ⟨⟨1, 2, 1, 2⟩, []⟩
    let right : Fix := ⟨⟨2, 4, 1, 3⟩, ['R']⟩
    [right, inside, left].Perm [left, inside, right] ∧
      [left, inside, right].Pairwise Fix.Elsewhere ∧
      applyFixes "abcd".toList [right, inside, left] =
        applyFixes "abcd".toList [left, inside, right] ∧
      (applyFixes "abcd".toList [left, inside, right]).output = "LR".toList := by
  intro left inside right
  have hperm : [right, inside, left].Perm [left, inside, right] :=
    List.reverse_perm [left, inside, right]
  have hapart : [left, inside, right].Pairwise Fix.Elsewhere := by
    simp [left, inside, right, Fix.Elsewhere]
  have hsorted : [left, inside, right].mergeSort Fix.le = [left, inside, right] :=
    List.mergeSort_of_pairwise (by decide)
  refine ⟨hperm, hapart, (applyFixes_applies _ _).2 _ hperm hapart, ?_⟩
  rw [applyFixes, hsorted]
  decide

end ScriptLint
