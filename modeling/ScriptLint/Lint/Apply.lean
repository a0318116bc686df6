import ScriptLint.Lint.Document

namespace ScriptLint

namespace Fix

/-- The order in which fixes are considered: by start, then by end. -/
def le (a b : Fix) : Bool :=
  a.span.start < b.span.start || (a.span.start == b.span.start && a.span.stop ≤ b.span.stop)

/-- Whether the span of a fix is a stretch of the text. -/
def isValid (source : List Char) (fix : Fix) : Bool :=
  (slice? source fix.span.start fix.span.stop).isSome

/-- The fixes to apply, from a list in order of which none may start before `last`. -/
def select (source : List Char) : Nat → List Fix → List Fix
  | _, [] => []
  | last, fix :: rest =>
    if fix.isValid source && last ≤ fix.span.start then
      fix :: select source fix.span.stop rest
    else select source last rest

/-- The text from `cursor` on, with the spans of some fixes exchanged. -/
def splice (source : List Char) : Nat → List Fix → List Char
  | cursor, [] => (dropBytes cursor source).getD []
  | cursor, fix :: rest =>
    (slice? source cursor fix.span.start).getD [] ++ fix.replacement ++
      splice source fix.span.stop rest

end Fix

/-- The result of one round of fixes. -/
structure FixRound where
  output : List Char
  applied : Nat
  skipped : Nat

/-- Applies as many fixes as do not overlap. -/
def applyFixes (source : List Char) (fixes : List Fix) : FixRound :=
  let accepted := Fix.select source 0 (fixes.mergeSort Fix.le)
  { output := Fix.splice source 0 accepted
    applied := accepted.length
    skipped := fixes.length - accepted.length }

end ScriptLint
