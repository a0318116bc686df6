import ScriptLint.Lint.ArrayLoop
import ScriptLint.Proofs.Parse.Integrity
import ScriptLint.Proofs.Tree.Search

namespace ScriptLint

variable {d : Document} {method : ArrayMethod} {id : NodeId} {l : ArrayLoop}

/-- In the tree of a text that parses a node with a parent is reached as its child. -/
theorem Tree.reachable_of_parent {source : List Char} {t : Tree} (h : parse source = .ok t)
    {i p : NodeId} (hp : t.parent i = some p) :
    t.Reachable i ∧ t.Reachable p ∧ i ∈ t.children p := by
  obtain ⟨t₀, root, kids, rfl, -⟩ := Parse.exists_forest_of_parse h
  have hsame := same_linkParents t₀
  obtain ⟨hparent, hchild⟩ := link_linkParents hp
  rw [hsame.reachable, hsame.children]
  exact ⟨hparent.child hchild, hparent, hchild⟩

/-- The nodes of the tests. -/
def ArrayLoop.inside (l : ArrayLoop) (t : Tree) : List NodeId :=
  l.guards.flatMap fun g => t.descendants g.test

/-- The names in the tests, except for the counter. -/
def ArrayLoop.names (l : ArrayLoop) (t : Tree) : List String :=
  ((l.inside t).filterMap t.identifierName?).filter (· != l.counter)

/-- A `for` statement with all its parts is the loop. -/
structure Document.Counts (d : Document) (id init test update body : NodeId) (l : ArrayLoop) :
    Prop where
  node : d.tree.node id = .forStatement (some init) (some test) (some update) body
  counter : d.tree.loopCounter? init = some l.counter
  bound : d.tree.lengthBound? test l.counter = some l.array
  increment : d.tree.isIncrement update l.counter = true
  guards : d.tree.loopGuards? l.method.guardValue body = some l.guards
  returns : l.guards.any (·.kind == .return) = true
  ready : (l.inside d.tree).any d.tree.suspends = false
  accesses : ((l.inside d.tree).filter fun node => d.tree.identifierName? node == some l.counter).mapM
    (d.elementAccess? l.array) = some l.accesses
  next : d.tree.nextStatement? id = some l.trailingReturn
  param : l.param = d.tree.parameterName l.array l.counter (l.names d.tree)

/-- Whether the text parses and a loop is found in it that has a property. -/
def hasLoop (method : ArrayMethod) (p : Tree → ArrayLoop → Bool) (source : List Char) : Bool :=
  match parse source with
  | .ok t => t.preorder.any fun id => ((Document.mk "" source t).arrayLoop? method id).any (p t)
  | .error _ => false

theorem exists_arrayLoop_of_hasLoop {p : Tree → ArrayLoop → Bool} {source : List Char}
    (h : hasLoop method p source = true) : ∃ t id l, parse source = .ok t ∧
      (Document.mk "" source t).arrayLoop? method id = some l ∧ p t l = true := by
  unfold hasLoop at h
  split at h
  · next t hparse =>
    obtain ⟨id, -, hid⟩ := List.any_eq_true.mp h
    obtain ⟨l, hl, hp⟩ := (Option.any_eq_true _ _).mp hid
    exact ⟨t, id, l, hparse, hl, hp⟩
  · cases h

namespace Document

theorem exists_counts_of_arrayLoop? (h : d.arrayLoop? method id = some l) :
    l.method = method ∧ ∃ init test update body, d.Counts id init test update body l := by
  unfold arrayLoop? at h
  split at h
  · next init test update body hnode =>
    simp only [bind, Option.bind_eq_some_iff] at h
    obtain ⟨counter, hcounter, array, hbound, _, hincrement, guards, hguards, _, hreturns, _, hready,
      accesses, haccesses, trailing, hnext, h⟩ := h
    split at h
    · obtain ⟨-, -, h⟩ := Option.bind_eq_some_iff.mp h
      cases h
      refine ⟨rfl, init, test, update, body, hnode, hcounter, hbound, ?_, hguards, ?_, ?_, haccesses,
        hnext, rfl⟩
      · simpa using hincrement
      · simpa using hreturns
      · simpa [ArrayLoop.inside] using hready
    · cases h
  · cases h

namespace Counts

variable {init test update body : NodeId}

/-- The test compares the counter, a name that is read. -/
theorem exists_bound (h : d.Counts id init test update body l) : ∃ left right,
    d.tree.node test = .binaryExpression .less left right ∧
      d.tree.identifierName? left = some l.counter := by
  have hlength := (Option.filter_eq_some_iff.mp h.bound).1
  unfold Tree.lengthOf? at hlength
  split at hlength
  · next left right hnode =>
    obtain ⟨_, hguard, -⟩ := Option.bind_eq_some_iff.mp hlength
    exact ⟨left, right, hnode, beq_iff_eq.mp ((Option.guard_eq_some' _).mp hguard)⟩
  · cases hlength

/-- A loop stands in a list of statements. -/
theorem exists_parent (h : d.Counts id init test update body l) :
    ∃ p, d.tree.parent id = some p := by
  have hnext := h.next
  unfold Tree.nextStatement? at hnext
  cases hparent : d.tree.parent id with
  | some p => exact ⟨p, rfl⟩
  | none =>
    rw [hparent] at hnext
    cases hnext

theorem test_mem_children (h : d.Counts id init test update body l) :
    test ∈ d.tree.children id := by
  simp [Tree.children, h.node, Node.children]

theorem body_mem_children (h : d.Counts id init test update body l) :
    body ∈ d.tree.children id := by
  simp [Tree.children, h.node, Node.children]

/-- A guard of the loop is an `if` statement with its test. -/
theorem exists_if (h : d.Counts id init test update body l) {g : Guard NodeId} (hg : g ∈ l.guards) :
    ∃ i consequent, d.tree.node i = .ifStatement g.test consequent none ∧
      d.tree.Reaches body i := by
  have hguards := h.guards
  have hstatements : ∀ i ∈ (d.tree.block? body).getD [body], d.tree.Reaches body i := by
    intro i hi
    cases hblock : d.tree.block? body with
    | none =>
      rw [hblock] at hi
      rw [List.mem_singleton.mp hi]
      exact .refl
    | some statements =>
      rw [hblock] at hi
      unfold Tree.block? at hblock
      split at hblock
      · next hnode =>
        cases hblock
        exact .single (by rwa [Tree.children, hnode])
      · cases hblock
  unfold Tree.loopGuards? at hguards
  split at hguards
  · cases hguards
  · obtain ⟨i, hi, hguard⟩ := exists_mem_of_mapM_eq_some hguards hg
    refine ⟨i, ?_⟩
    unfold Tree.guard? at hguard
    split at hguard
    · next test consequent hnode =>
      simp only [bind, Option.bind_eq_some_iff] at hguard
      obtain ⟨_, _, _, _, hguard⟩ := hguard
      cases hguard
      exact ⟨consequent, hnode, hstatements i hi⟩
    · cases hguard

end Counts

end Document
end ScriptLint
