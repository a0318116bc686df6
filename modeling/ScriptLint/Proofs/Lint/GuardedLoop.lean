import ScriptLint.Lint.ArrayLoop
import ScriptLint.Parse.Program
import ScriptLint.Proofs.Parse.Integrity
import Mathlib.Data.Option.Basic

namespace ScriptLint

variable {α ε : Type}

/-- What the first guard does whose test holds. -/
def Guard.decide? (truth : α → Bool) : List (Guard α) → Option GuardKind
  | [] => none
  | g :: rest => if truth g.test then some g.kind else decide? truth rest

/-- What a function returns that runs the guards on each element of an array in order: `value` as
soon as a guard returns, and its opposite after the last element. -/
def Guard.runLoop (value : Bool) (truth : α → ε → Bool) (guards : List (Guard α)) : List ε → Bool
  | [] => !value
  | e :: rest =>
    match decide? (truth · e) guards with
    | some .return => value
    | some .continue | none => runLoop value truth guards rest

/-- What the method gives with a callback that says of an element whether `found` holds, or for
`every` whether it does not. -/
def ArrayMethod.call (method : ArrayMethod) (found : ε → Bool) (array : List ε) : Bool :=
  match method with
  | .every => array.all fun e => !found e
  | .some => array.any found

/-- The first element that is found decides. -/
theorem ArrayMethod.call_cons (method : ArrayMethod) (found : ε → Bool) (e : ε) (rest : List ε) :
    method.call found (e :: rest) =
      if found e then method.guardValue else method.call found rest := by
  cases method <;> cases h : found e <;> simp [call, guardValue, h]

namespace Condition

/-- The truth of a condition, where none is the constant `false`. -/
def holds (truth : α → Bool) (condition : Option (Condition α)) : Bool :=
  condition.elim false (·.eval truth)

/-- The condition of guards holds where the first guard that decides returns. -/
theorem holds_ofGuards? (truth : α → Bool) (guards : List (Guard α)) :
    holds truth (ofGuards? guards) = (Guard.decide? truth guards == some .return) := by
  induction guards with
  | nil => rfl
  | cons g rest ih =>
    obtain ⟨test, kind⟩ := g
    -- a suffix of `continue` guards has no condition, and none of it returns
    cases kind <;> cases hrest : ofGuards? rest <;> cases htest : truth test <;>
      simp_all [ofGuards?, holds, eval, Guard.decide?]

/-- Guards have a condition if one of them returns. -/
theorem isSome_ofGuards? {guards : List (Guard α)} (h : guards.any (·.kind == .return) = true) :
    (ofGuards? guards).isSome = true := by
  induction guards with
  | nil => cases h
  | cons g rest ih =>
    obtain ⟨test, kind⟩ := g
    cases kind with
    | «return» =>
      unfold ofGuards?
      cases ofGuards? rest <;> rfl
    | «continue» =>
      have hrest : rest.any (·.kind == .return) = true := by simpa using h
      obtain ⟨condition, hcondition⟩ := Option.isSome_iff_exists.mp (ih hrest)
      simp [ofGuards?, hcondition]

end Condition

/-- Running guards over an array is calling the method with their condition. -/
theorem Guard.runLoop_eq_call (method : ArrayMethod) (truth : α → ε → Bool)
    (guards : List (Guard α)) (array : List ε) :
    runLoop method.guardValue truth guards array =
      method.call (fun e => Condition.holds (truth · e) (Condition.ofGuards? guards)) array := by
  induction array with
  | nil => cases method <;> rfl
  | cons e rest ih =>
    rw [ArrayMethod.call_cons, ← ih, runLoop, Condition.holds_ofGuards?]
    cases hdecides : decide? (truth · e) guards with
    | none => rfl
    | some kind => cases kind <;> rfl

/-- A loop that is found calls the method that was asked for, and has a guard that returns. -/
theorem Document.any_return_of_arrayLoop? {d : Document} {method : ArrayMethod} {id : NodeId}
    {l : ArrayLoop} (h : d.arrayLoop? method id = some l) :
    l.method = method ∧ l.guards.any (·.kind == .return) = true := by
  unfold arrayLoop? at h
  split at h
  · simp only [bind, Option.bind_eq_some_iff] at h
    obtain ⟨_, _, _, _, _, _, guards, _, _, hany, _, _, _, _, _, _, h⟩ := h
    split at h
    · obtain ⟨_, _, h⟩ := Option.bind_eq_some_iff.mp h
      cases h
      exact ⟨rfl, (Option.guard_eq_some' _).mp hany⟩
    · cases h
  · cases h

/-- A loop that is found gives what the call of its method gives with the condition of its guards,
whatever the tests say of the elements and however many there are. -/
theorem Document.runLoop_of_arrayLoop? {d : Document} {method : ArrayMethod} {id : NodeId}
    {l : ArrayLoop} (h : d.arrayLoop? method id = some l) :
    l.method = method ∧ ∃ condition, Condition.ofGuards? l.guards = some condition ∧
      ∀ (ε : Type) (truth : NodeId → ε → Bool) (array : List ε),
        Guard.runLoop l.method.guardValue truth l.guards array =
          l.method.call (fun e => condition.eval (truth · e)) array := by
  obtain ⟨hmethod, hany⟩ := any_return_of_arrayLoop? h
  obtain ⟨condition, hcondition⟩ := Option.isSome_iff_exists.mp (Condition.isSome_ofGuards? hany)
  refine ⟨hmethod, condition, hcondition, fun ε truth array => ?_⟩
  rw [Guard.runLoop_eq_call, hcondition]
  rfl

/-- A loop with a `continue` guard before and after the one that returns. -/
theorem Document.runLoop_of_arrayLoop?_continue : ∃ source tree id l,
    source = ("for (let i = 0; i < a.length; i++) \x7b if (a[i] > 9) continue; " ++
      "if (a[i] < 0) return true; if (a[i]) continue; \x7d return false;").toList ∧
    parse source = .ok tree ∧ (Document.mk "" source tree).arrayLoop? .some id = some l ∧
    l.guards.map (·.kind) = [.continue, .return, .continue] ∧
    l.method = .some ∧ ∃ condition, Condition.ofGuards? l.guards = some condition ∧
      ∀ (ε : Type) (truth : NodeId → ε → Bool) (array : List ε),
        Guard.runLoop l.method.guardValue truth l.guards array =
          l.method.call (fun e => condition.eval (truth · e)) array := by
  obtain ⟨source, hsource, hfound⟩ : ∃ source,
      source = ("for (let i = 0; i < a.length; i++) \x7b if (a[i] > 9) continue; " ++
        "if (a[i] < 0) return true; if (a[i]) continue; \x7d return false;").toList ∧
      (parse source).toOption.any (fun tree => tree.preorder.any fun id =>
        ((Document.mk "" source tree).arrayLoop? .some id).any fun l =>
          decide (l.guards.map (·.kind) = [.continue, .return, .continue])) = true :=
    ⟨_, rfl, by decide +kernel⟩
  obtain ⟨tree, hparse, hfound⟩ := exists_tree_of_any hfound
  obtain ⟨id, -, hloop⟩ := List.any_eq_true.mp hfound
  obtain ⟨l, hl, hkinds⟩ := (Option.any_eq_true _ _).mp hloop
  exact ⟨source, tree, id, l, hsource, hparse, hl, of_decide_eq_true hkinds,
    runLoop_of_arrayLoop? hl⟩

end ScriptLint
