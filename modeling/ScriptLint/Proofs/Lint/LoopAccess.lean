import ScriptLint.Proofs.Lint.ArrayLoop

namespace ScriptLint

namespace Node

/-- What a node gives a value to, or removes. -/
def writes? : Node → Option NodeId
  | .assignmentExpression _ left _ => some left
  | .updateExpression _ _ argument => some argument
  | .unaryExpression .delete argument => some argument
  | .forInStatement left _ _ => some left
  | .forOfStatement left _ _ _ => some left
  | _ => none

/-- The targets that a target is made of. -/
def targetParts : Node → List NodeId
  | .arrayPattern elements _ => elements.filterMap id
  | .objectPattern properties _ => properties
  | .property p => [p.value]
  | .restElement argument _ => [argument]
  | .assignmentPattern left _ => [left]
  | .parenthesizedExpression expression => [expression]
  | .chainExpression expression => [expression]
  | .asExpression expression _ => [expression]
  | .nonNullExpression expression => [expression]
  | _ => []

end Node

namespace Tree

variable {t : Tree} {root i j p w a : NodeId}

/-- One node writes another, whole or as a part of its target. -/
def Writes (t : Tree) (w a : NodeId) : Prop :=
  ∃ target, (t.node w).writes? = some target ∧
    Relation.ReflTransGen (fun i j => j ∈ (t.node i).targetParts) target a

theorem mem_children_of_writes? (h : (t.node w).writes? = some i) : i ∈ t.children w := by
  unfold Node.writes? at h
  unfold children Node.children
  split at h <;> simp_all

theorem mem_children_of_mem_targetParts (h : j ∈ (t.node i).targetParts) :
    j ∈ t.children i := by
  unfold Node.targetParts at h
  unfold children Node.children
  split at h
  case h_3 p hnode =>
    -- a member that is written short has no other child than its value
    rw [List.mem_singleton.mp h]
    simp only [hnode]
    split
    · split
      · next heq => exact heq ▸ List.mem_cons_self
      · exact List.mem_cons_self
    · simp
  all_goals simp_all

/-- A node with a child below a test stands below the test itself, unless it is what tests. -/
theorem Intact.reaches_of_child (h : t.Intact root) {test : NodeId} (hp : t.Reachable p)
    (htest : test ∈ t.children p) (hi : t.Reachable i) (hj : j ∈ t.children i) (hne : i ≠ p)
    (hreaches : t.Reaches test j) : t.Reaches test i := by
  have hparent := h.parent_eq hi hj
  cases hreaches with
  | refl =>
    rw [h.parent_eq hp htest, Option.some.injEq] at hparent
    exact absurd hparent.symm hne
  | @tail q _ hreaches hq =>
    obtain ⟨start, hstart, hsteps⟩ := hp
    have hreachable : t.Reachable q := ⟨start, hstart, (hsteps.tail htest).trans hreaches⟩
    rw [h.parent_eq hreachable hq, Option.some.injEq] at hparent
    exact hparent ▸ hreaches

/-- What writes a node below the test of a statement stands below the test as well. On the way up
from the node to what writes it there are parts of a target only, and the statement is none. -/
theorem Intact.reaches_of_writes (h : t.Intact root) {test consequent : NodeId}
    {alternate : Option NodeId} (hp : t.Reachable p)
    (hnode : t.node p = .ifStatement test consequent alternate) (hw : t.Reachable w)
    (hwrites : t.Writes w a) (ha : t.Reaches test a) : t.Reaches test w := by
  have htest : test ∈ t.children p := by simp [children, hnode, Node.children]
  obtain ⟨target, htarget, hparts⟩ := hwrites
  have hchild := mem_children_of_writes? htarget
  have htargets : ∀ i, t.Reachable i →
      Relation.ReflTransGen (fun i j => j ∈ (t.node i).targetParts) i a → t.Reaches test i := by
    intro i hi hparts
    induction hparts using Relation.ReflTransGen.head_induction_on with
    | refl => exact ha
    | head hij _ ih =>
      have hchild := mem_children_of_mem_targetParts hij
      refine h.reaches_of_child hp htest hi hchild ?_ (ih (hi.child hchild))
      rintro rfl
      simp [hnode, Node.targetParts] at hij
  refine h.reaches_of_child hp htest hw hchild ?_ (htargets target (hw.child hchild) hparts)
  rintro rfl
  simp [hnode, Node.writes?] at htarget

end Tree

namespace Document

variable {d : Document} {method : ArrayMethod} {id init test update body use a : NodeId}
  {l : ArrayLoop}

/-- The node reads an element of an array: it is written as the array with the counter as index. -/
def IsElement (d : Document) (array : NodeId) (counter : String) (a : NodeId) : Prop :=
  ∃ member, d.tree.node a = .memberExpression member ∧ member.computed = true ∧
    d.tree.identifierName? member.property = some counter ∧
    d.writtenAlike member.object array = true

/-- An access is the parent of a use of the counter in a test. -/
theorem Counts.exists_use (h : d.Counts id init test update body l) (ha : a ∈ l.accesses) :
    ∃ g ∈ l.guards, ∃ use ∈ d.tree.descendants g.test, d.tree.parent use = some a ∧
      d.IsElement l.array l.counter a := by
  obtain ⟨use, huse, haccess⟩ := exists_mem_of_mapM_eq_some h.accesses ha
  obtain ⟨hinside, hname⟩ := List.mem_filter.mp huse
  obtain ⟨g, hg, hbelow⟩ := List.mem_flatMap.mp hinside
  unfold elementAccess? at haccess
  simp only [bind, Option.bind_eq_some_iff] at haccess
  obtain ⟨parent, hparent, member, hmember, haccess⟩ := haccess
  split at haccess
  · next hindex =>
    cases haccess
    simp only [Bool.and_eq_true, beq_iff_eq] at hindex hname
    obtain ⟨⟨hcomputed, rfl⟩, halike⟩ := hindex
    unfold Tree.member? at hmember
    split at hmember
    · next hnode =>
      cases hmember
      exact ⟨g, hg, _, hbelow, hparent, _, hnode, hcomputed, hname, halike⟩
    · cases hmember
  · cases haccess

/-- An element is written by nothing that writes a name. -/
theorem IsElement.not_writes {array : NodeId} {counter : String} {w target : NodeId}
    (h : d.IsElement array counter a) (htarget : (d.tree.node w).writes? = some target)
    (hname : (d.tree.identifierName? target).isSome) : ¬ d.tree.Writes w a := by
  rintro ⟨target', htarget', hparts⟩
  cases htarget.symm.trans htarget'
  obtain ⟨member, hmember, -⟩ := h
  unfold Tree.identifierName? at hname
  split at hname
  · next hnode =>
    rcases hparts.cases_head with rfl | ⟨part, hpart, -⟩
    · rw [hmember] at hnode
      cases hnode
    · rw [hnode] at hpart
      cases hpart
  · cases hname

/-- Every access that becomes the parameter is an element of the array at the counter, stands in the
test of one of the guards, and is written by nothing outside of that test. If all that the tests
write is names, no access is written at all. -/
theorem isElement_of_arrayLoop? {source : List Char} {t : Tree} {path : String}
    (h : parse source = .ok t) (hloop : (Document.mk path source t).arrayLoop? method id = some l)
    (ha : a ∈ l.accesses) : (Document.mk path source t).IsElement l.array l.counter a ∧
      (∃ g ∈ l.guards, a ∈ t.descendants g.test ∧
        ∀ w, t.Reachable w → t.Writes w a → w ∈ t.descendants g.test) ∧
      ((∀ g ∈ l.guards, ∀ w ∈ t.descendants g.test, ∀ target,
          (t.node w).writes? = some target → (t.identifierName? target).isSome) →
        ∀ w, t.Reachable w → ¬ t.Writes w a) := by
  obtain ⟨-, init, test, update, body, hcounts⟩ := exists_counts_of_arrayLoop? hloop
  obtain ⟨root, -, hintact⟩ := Tree.exists_root_of_parse h
  obtain ⟨p, hp⟩ := hcounts.exists_parent
  have hid := (Tree.reachable_of_parent h hp).1
  obtain ⟨g, hg, use, huse, hparent, helement⟩ := hcounts.exists_use ha
  obtain ⟨i, consequent, hif, hreaches⟩ := hcounts.exists_if hg
  have hi : t.Reachable i := (hid.child hcounts.body_mem_children).trans hreaches
  have htest : g.test ∈ t.children i := by simp [Tree.children, hif, Node.children]
  obtain ⟨-, hareachable, hchild⟩ := Tree.reachable_of_parent h hparent
  have hne : a ≠ i := by
    rintro rfl
    obtain ⟨member, hmember, -⟩ := helement
    rw [hif] at hmember
    cases hmember
  have hbelow : t.Reaches g.test a :=
    hintact.reaches_of_child hi htest hareachable hchild hne (Tree.reaches_of_mem_descendants huse)
  have hwriter : ∀ w, t.Reachable w → t.Writes w a → w ∈ t.descendants g.test :=
    fun w hw hwrites => Tree.mem_descendants_iff.mpr
      ⟨hintact.inside w hw, hintact.reaches_of_writes hi hif hw hwrites hbelow⟩
  refine ⟨helement, ⟨g, hg,
    Tree.mem_descendants_iff.mpr ⟨hintact.inside a hareachable, hbelow⟩, hwriter⟩, ?_⟩
  intro hnames w hw hwrites
  have hbelow := hwriter w hw hwrites
  obtain ⟨target, htarget, hreaches⟩ := hwrites
  exact helement.not_writes htarget (hnames g hg w hbelow target htarget) ⟨target, htarget, hreaches⟩

/-- An assignment that only reads the element: the test writes a name and leaves the array alone. -/
theorem isElement_of_arrayLoop?_read : ∃ source t id l a,
    source = ("for (let i = 0; i < xs.length; i++) \x7b " ++
      "if ((y = xs[i]) && y.ok) return true; \x7d return false;").toList ∧
    parse source = .ok t ∧ (Document.mk "" source t).arrayLoop? .some id = some l ∧
    a ∈ l.accesses ∧ (Document.mk "" source t).IsElement l.array l.counter a ∧
      (∃ g ∈ l.guards, a ∈ t.descendants g.test ∧
        ∀ w, t.Reachable w → t.Writes w a → w ∈ t.descendants g.test) ∧
      ∀ w, t.Reachable w → ¬ t.Writes w a := by
  obtain ⟨source, hsource, hfound⟩ : ∃ source,
      source = ("for (let i = 0; i < xs.length; i++) \x7b " ++
        "if ((y = xs[i]) && y.ok) return true; \x7d return false;").toList ∧
      hasLoop .some (fun t l => l.accesses.length == 1 && l.guards.all fun g =>
        (t.descendants g.test).all fun w => (t.node w).writes?.all fun target =>
          (t.identifierName? target).isSome) source = true :=
    ⟨_, rfl, by decide +kernel⟩
  obtain ⟨t, id, l, hparse, hloop, hfacts⟩ := exists_arrayLoop_of_hasLoop hfound
  obtain ⟨hlength, hnames⟩ := Bool.and_eq_true_iff.mp hfacts
  obtain ⟨a, ha⟩ := List.length_eq_one_iff.mp (beq_iff_eq.mp hlength)
  have hmem : a ∈ l.accesses := by simp [ha]
  obtain ⟨helement, htest, hunwritten⟩ := isElement_of_arrayLoop? hparse hloop hmem
  simp only [List.all_eq_true, Option.all_eq_true] at hnames
  exact ⟨source, t, id, l, a, hsource, hparse, hloop, hmem, helement, htest, hunwritten hnames⟩

/-- The operand of an increment becomes the parameter, so that an element of the array is changed
before and a parameter after the fix. -/
theorem not_accesses_read : ¬ ∀ (source : List Char) (t : Tree) (path : String)
    (method : ArrayMethod) (id : NodeId) (l : ArrayLoop), parse source = .ok t →
      (Document.mk path source t).arrayLoop? method id = some l →
      ∀ a ∈ l.accesses, ∀ w, t.Reachable w → ¬ t.Writes w a := by
  intro hread
  obtain ⟨source, hfound⟩ : ∃ source, hasLoop .every (fun t l => t.preorder.any fun w =>
      l.accesses.any fun a => (t.node w).writes? == some a) source = true :=
    ⟨("for (let i = 0; i < xs.length; i++) \x7b if (xs[i]++) return false; \x7d " ++
      "return true;").toList, by decide +kernel⟩
  obtain ⟨t, id, l, hparse, hloop, hwritten⟩ := exists_arrayLoop_of_hasLoop hfound
  obtain ⟨w, hw, hany⟩ := List.any_eq_true.mp hwritten
  obtain ⟨a, ha, hwrites⟩ := List.any_eq_true.mp hany
  exact hread source t "" .every id l hparse hloop a ha w (Tree.mem_preorder_iff.mp hw).2
    ⟨a, beq_iff_eq.mp hwrites, .refl⟩

end Document

end ScriptLint
