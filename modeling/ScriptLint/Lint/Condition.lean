
namespace ScriptLint

/-- What a guard does when its test holds. -/
inductive GuardKind where
  | return
  | continue
  deriving DecidableEq

/-- A test with what it decides. -/
structure Guard (α : Type) where
  test : α
  kind : GuardKind

/-- A condition made of tests. -/
inductive Condition (α : Type) where
  | test (a : α)
  /-- `a || rest`. -/
  | orElse (a : α) (rest : Condition α)
  /-- `!a && rest`. -/
  | unless (a : α) (rest : Condition α)

namespace Condition

variable {α : Type}

/-- When a list of guards returns; never, if no guard of them does. -/
def ofGuards? : List (Guard α) → Option (Condition α)
  | [] => none
  | guard :: rest =>
    match guard.kind, ofGuards? rest with
    | .return, none => some (.test guard.test)
    | .return, some condition => some (.orElse guard.test condition)
    | .continue, none => none
    | .continue, some condition => some (.unless guard.test condition)

/-- Whether the condition holds, for tests that are true or false. -/
def eval (truth : α → Bool) : Condition α → Bool
  | .test a => truth a
  | .orElse a rest => truth a || rest.eval truth
  | .unless a rest => !truth a && rest.eval truth

end Condition
end ScriptLint
