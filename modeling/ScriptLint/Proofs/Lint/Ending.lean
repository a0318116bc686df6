import ScriptLint.Proofs.Lint.FixSpan
import ScriptLint.Proofs.Lint.Runner
import ScriptLint.Proofs.Tree.Ending

namespace ScriptLint

/-- The walks that rules take without noting where they have been. -/
inductive Trail where
  /-- From a sum to its left operand. -/
  | sum
  /-- From an access or a call to what it is of, up to an access on what is written like
  `guard`. -/
  | search (guard : NodeId)
  /-- From an access or a call to what it is of. -/
  | access
  /-- From a plain access to its object. -/
  | path
  /-- From a call of `concat` to the array that it is called on. -/
  | concat
  /-- From a pattern to the parts of it that bind names. -/
  | pattern

/-- The nodes that a walk goes to next. -/
def Document.trail (d : Document) : Trail → NodeId → List NodeId
  | .sum, id => (d.tree.sumStep? id).toList
  | .search guard, id => (d.searchStep? guard id).toList
  | .access, id => (d.tree.accessStep? id).toList
  | .path, id => (d.tree.pathStep? id).toList
  | .concat, id => (d.tree.concatReceiver? id).toList
  | .pattern, id => d.tree.patternParts id

namespace Tree

variable {t : Tree} {id i j : NodeId}

theorem mem_children_of_sumStep? (h : t.sumStep? i = some j) : j ∈ t.children i := by
  unfold sumStep? at h
  split at h
  · next hnode =>
    cases h
    rw [children, hnode]
    exact List.mem_cons_self
  · cases h

theorem mem_children_of_member? {member : Member} (h : t.member? i = some member) :
    member.object ∈ t.children i := by
  unfold member? at h
  split at h
  · next hnode =>
    cases h
    rw [children, hnode]
    exact List.mem_cons_self
  · cases h

theorem mem_children_of_accessStep? (h : t.accessStep? i = some j) : j ∈ t.children i := by
  unfold accessStep? at h
  split at h
  · next hnode =>
    cases h
    rw [children, hnode]
    exact List.mem_cons_self
  · next hnode =>
    cases h
    rw [children, hnode]
    exact List.mem_cons_self
  · cases h

theorem mem_children_of_pathStep? (h : t.pathStep? i = some j) : j ∈ t.children i := by
  unfold pathStep? at h
  split at h
  · next hnode =>
    split at h
    · cases h
    · cases h
      rw [children, hnode]
      exact List.mem_cons_self
  · cases h

/-- Between a call and the array stands the access to the method. -/
theorem exists_callee_of_memberCall? {name : String} (h : t.memberCall? name i = some j) :
    ∃ callee ∈ t.children i, j ∈ t.children callee := by
  unfold memberCall? at h
  split at h
  · next callee _ _ hnode =>
    split at h
    · next member hmember =>
      split at h
      · cases h
        refine ⟨callee, ?_, mem_children_of_member? hmember⟩
        rw [children, hnode]
        exact List.mem_cons_self
      · cases h
    · cases h
  · cases h

theorem memberCall?_of_concatReceiver? (h : t.concatReceiver? i = some j) :
    t.memberCall? "concat" i = some j := by
  unfold concatReceiver? at h
  split at h
  · split at h
    · split at h
      · cases h
      · exact h
    · cases h
  · cases h

theorem mem_children_of_mem_patternParts (h : j ∈ t.patternParts i) : j ∈ t.children i := by
  unfold patternParts at h
  rw [children]
  split at h
  · next hnode =>
    rw [hnode]
    exact List.mem_append_left _ h
  · next p hnode =>
    rw [hnode, List.mem_singleton.mp h]
    simp only [Node.children]
    split
    · split
      · next heq => exact List.mem_singleton.mpr heq.symm
      · exact List.mem_singleton_self _
    · exact List.mem_cons_of_mem _ (List.mem_singleton_self _)
  · next hnode =>
    rw [hnode]
    exact List.mem_append_left _ h
  · next hnode =>
    rw [hnode, List.mem_singleton.mp h]
    exact List.mem_cons_self
  · next hnode =>
    rw [hnode, List.mem_singleton.mp h]
    exact List.mem_cons_self
  · cases h

end Tree

namespace Document

variable {d : Document} {w : Trail} {i j : NodeId}

theorem below_of_mem_trail (h : j ∈ d.trail w i) :
    Relation.TransGen (fun j i => j ∈ d.tree.children i) j i := by
  cases w with
  | sum => exact .single (Tree.mem_children_of_sumStep? (Option.mem_toList.mp h))
  | search guard =>
    have hstep : d.searchStep? guard i = some j := Option.mem_toList.mp h
    unfold searchStep? at hstep
    split at hstep
    · cases hstep
    · exact .single (Tree.mem_children_of_accessStep? hstep)
  | access => exact .single (Tree.mem_children_of_accessStep? (Option.mem_toList.mp h))
  | path => exact .single (Tree.mem_children_of_pathStep? (Option.mem_toList.mp h))
  | concat =>
    obtain ⟨callee, hcallee, hj⟩ := Tree.exists_callee_of_memberCall?
      (Tree.memberCall?_of_concatReceiver? (Option.mem_toList.mp h))
    exact .head hj (.single hcallee)
  | pattern => exact .single (Tree.mem_children_of_mem_patternParts h)

theorem lt_size_of_mem_trail (h : j ∈ d.trail w i) : i < d.tree.size := by
  cases below_of_mem_trail h with
  | single hi => exact Tree.lt_size_of_mem_children hi
  | tail _ hi => exact Tree.lt_size_of_mem_children hi

/-- A walk that halts takes at most as many steps as there are nodes. -/
theorem ends_trail_iff_halts (d : Document) (w : Trail) (i : NodeId) :
    d.tree.ends (d.trail w) i ↔ Tree.Halts (d.trail w) i :=
  Tree.ends_iff_halts fun _ _ => lt_size_of_mem_trail

theorem ends_trail (h : Tree.Halts d.tree.children i) (w : Trail) : d.tree.ends (d.trail w) i :=
  (d.ends_trail_iff_halts w i).mpr (h.of_below fun _ _ => below_of_mem_trail)

end Document

namespace Tree

variable {t : Tree} {id i : NodeId}

theorem reaches_of_mem_declaredPatterns {hoisted : Bool}
    (h : i ∈ t.declaredPatterns hoisted id) : t.Reaches id i := by
  unfold declaredPatterns at h
  split at h
  · next declarations hnode =>
    split at h
    · cases h
    · obtain ⟨declarator, hdeclarator, hpattern⟩ := List.mem_filterMap.mp h
      unfold declaratorPattern? at hpattern
      split at hpattern
      · next hdeclaratorNode =>
        cases hpattern
        refine .head (b := declarator) ?_ (.single ?_)
        · rw [children, hnode]
          exact hdeclarator
        · rw [children, hdeclaratorNode]
          exact List.mem_cons_self
      · cases hpattern
  · cases h

theorem mem_children_of_mem_parameters (h : i ∈ t.parameters id) : i ∈ t.children id := by
  unfold parameters at h
  rw [children]
  split at h
  · next hnode => simp [hnode, Node.children, h]
  · next hnode => simp [hnode, Node.children, h]
  · next hnode => simp [hnode, Node.children, h]
  · cases h

theorem mem_children_of_mem_statements (h : i ∈ t.statements id) : i ∈ t.children id := by
  unfold statements at h
  rw [children]
  split at h
  · next hnode => rwa [hnode]
  · next hnode => rwa [hnode]
  · cases h

theorem reaches_of_branchBlock? {branch : Branch} {moved : List NodeId}
    (h : t.branchBlock? id branch = some moved) (hi : i ∈ moved) : t.Reaches id i := by
  have hblock : ∀ {b : NodeId}, b ∈ t.children id → t.block? b = some moved → t.Reaches id i := by
    intro b hb hbody
    rw [← children_of_block? hbody] at hi
    exact .head hb (.single hi)
  unfold branchBlock? at h
  split at h
  · next consequent alternate hnode =>
    obtain ⟨first, hfirst, h⟩ := Option.bind_eq_some_iff.mp h
    cases branch with
    | consequent =>
      cases h
      refine hblock ?_ hfirst
      rw [children, hnode]
      simp [Node.children]
    | alternate =>
      obtain ⟨b, hb, hbody⟩ := Option.bind_eq_some_iff.mp h
      refine hblock ?_ hbody
      rw [children, hnode]
      simp [Node.children, hb]
  · cases h

theorem reaches_of_mem_functionPatterns (h : i ∈ t.functionPatterns id) : t.Reaches id i := by
  unfold functionPatterns at h
  rcases List.mem_append.mp h with h | h
  · exact .single (mem_children_of_mem_parameters h)
  · obtain ⟨declaration, hdeclaration, hi⟩ := List.mem_flatMap.mp h
    exact (reaches_of_mem_descendants (List.mem_of_mem_filter hdeclaration)).trans
      (reaches_of_mem_declaredPatterns hi)

theorem InSight.of_mem_siblings (h : t.InSight id) (hi : i ∈ t.siblings id) : t.InSight i := by
  have hi := List.mem_of_mem_filter hi
  cases hp : t.parent id with
  | none => simp [hp] at hi
  | some p =>
    rw [hp] at hi
    exact (h.parent hp).child (mem_children_of_mem_statements hi)

theorem InSight.of_mem_patternsAround (h : t.InSight id) (hi : i ∈ t.patternsAround id) :
    t.InSight i := by
  unfold patternsAround at hi
  cases hfunction : t.enclosingFunction? id with
  | none => simp [hfunction] at hi
  | some function =>
    rw [hfunction] at hi
    have hmem : function ∈ t.ancestors id := List.mem_of_find?_eq_some hfunction
    exact (h.ancestors hmem).reaches (reaches_of_mem_functionPatterns hi)

theorem InSight.of_mem_rebindingPatterns (h : t.InSight id) {moved : List NodeId}
    (hmoved : ∀ i ∈ moved, t.InSight i) (hi : i ∈ t.rebindingPatterns id moved) : t.InSight i := by
  unfold rebindingPatterns at hi
  rcases List.mem_append.mp hi with hi | hi
  · obtain ⟨statement, hstatement, hi⟩ := List.mem_flatMap.mp hi
    exact (hmoved statement hstatement).reaches (reaches_of_mem_declaredPatterns hi)
  · split at hi
    · cases hi
    · rcases List.mem_append.mp hi with hi | hi
      · obtain ⟨statement, hstatement, hi⟩ := List.mem_flatMap.mp hi
        exact (h.of_mem_siblings hstatement).reaches (reaches_of_mem_declaredPatterns hi)
      · exact h.of_mem_patternsAround hi

end Tree

namespace Tree

variable {t : Tree} {id i : NodeId}

theorem reaches_of_mem_follow {next : NodeId → Option NodeId}
    (hnext : ∀ i j, next i = some j → t.Reaches i j) {n : Nat} (h : i ∈ follow next n id) :
    t.Reaches id i := by
  induction n generalizing id with
  | zero => cases h
  | succ n ih =>
    unfold follow at h
    split at h
    · rw [List.mem_singleton.mp h]
      exact .refl
    · next j hj =>
      rcases List.mem_cons.mp h with rfl | h
      · exact .refl
      · exact (hnext id j hj).trans (ih h)

theorem reaches_of_concatReceiver? {j : NodeId} (h : t.concatReceiver? i = some j) :
    t.Reaches i j := by
  obtain ⟨callee, hcallee, hj⟩ := exists_callee_of_memberCall? (memberCall?_of_concatReceiver? h)
  exact .head hcallee (.single hj)

theorem mem_children_of_mem_callArguments (h : i ∈ t.callArguments id) : i ∈ t.children id := by
  unfold callArguments at h
  rw [children]
  split at h
  · next hnode =>
    rw [hnode]
    exact List.mem_cons_of_mem _ h
  · cases h

theorem reaches_of_mem_concatOperands
    (h : i ∈ t.concatOperands (t.chain t.concatReceiver? id)) : t.Reaches id i := by
  have hchain : ∀ j ∈ t.chain t.concatReceiver? id, t.Reaches id j :=
    fun j hj => reaches_of_mem_follow (fun _ _ => reaches_of_concatReceiver?) hj
  unfold concatOperands at h
  rcases List.mem_append.mp h with h | h
  · exact hchain i (List.mem_of_getLast? (Option.mem_toList.mp h))
  · obtain ⟨call, hcall, hi⟩ := List.mem_flatMap.mp h
    exact (hchain call (List.mem_of_mem_dropLast (List.mem_reverse.mp hcall))).tail
      (mem_children_of_mem_callArguments hi)

theorem reaches_of_lengthOf? {counter : String} (h : t.lengthOf? id counter = some i) :
    t.Reaches id i := by
  unfold lengthOf? at h
  split at h
  · next left right hnode =>
    obtain ⟨-, -, h⟩ := Option.bind_eq_some_iff.mp h
    obtain ⟨member, hmember, h⟩ := Option.bind_eq_some_iff.mp h
    obtain ⟨-, -, h⟩ := Option.bind_eq_some_iff.mp h
    cases h
    refine .head (b := right) ?_ (.single (mem_children_of_member? hmember))
    rw [children, hnode]
    exact List.mem_cons_of_mem _ (List.mem_singleton_self _)
  · cases h

end Tree

/-- Wherever the rules can get from the root no node lies below itself. -/
def Document.Grounded (d : Document) : Prop :=
  ∀ i, d.tree.InSight i → ¬ Tree.Circles d.tree.children i

namespace Document

variable {d : Document} {id : NodeId}

theorem ends_loop (hid : Tree.Halts d.tree.children id) : d.tree.loopEnds id := by
  unfold Tree.loopEnds
  split
  · next init test _ _ hnode =>
    split
    · next array harray =>
      obtain ⟨counter, -, harray⟩ := Option.bind_eq_some_iff.mp harray
      have htest : test ∈ d.tree.children id := by
        rw [Tree.children, hnode]
        simp [Node.children]
      exact ends_trail (hid.of_reflTransGen (.head htest (Tree.reaches_of_lengthOf? harray))) .path
    · rfl
  · rfl

theorem ends_spreads {operands : List NodeId}
    (h : ∀ i ∈ operands, Tree.Halts d.tree.children i) : d.tree.spreadsEnd operands := by
  induction operands with
  | nil => rfl
  | cons operand rest ih =>
    have hoperand : d.tree.chainEnds d.tree.pathStep? operand :=
      ends_trail (h operand List.mem_cons_self) .path
    have hrest := ih fun i hi => h i (List.mem_cons_of_mem _ hi)
    simp [Tree.spreadsEnd, hoperand, hrest]

theorem ends_concat (hid : Tree.Halts d.tree.children id) : d.tree.concatEnds id := by
  unfold Tree.concatEnds
  split
  · rfl
  · have hchain : d.tree.chainEnds d.tree.concatReceiver? id := ends_trail hid .concat
    rw [hchain, Bool.true_and]
    exact ends_spreads fun i hi => hid.of_reflTransGen (Tree.reaches_of_mem_concatOperands hi)

theorem ends_earlyReturn (hd : d.Grounded) (hid : d.tree.InSight id) (branch : Branch) :
    d.tree.earlyReturnEnds id branch := by
  unfold Tree.earlyReturnEnds
  split
  · next moved _ hmoved =>
    refine List.all_eq_true.mpr fun pattern hpattern => ?_
    have hsight : d.tree.InSight pattern := hid.of_mem_rebindingPatterns
      (fun i hi => hid.reaches (Tree.reaches_of_branchBlock? hmoved hi)) hpattern
    exact ends_trail (Tree.halts_children_iff.mpr (hd pattern hsight)) .pattern
  · rfl

end Document

namespace Rules

variable {d : Document} {id : NodeId} {rule : Rule}

theorem ends_preferTemplateLiteral (hid : Tree.Halts d.tree.children id) :
    preferTemplateLiteral.ends d id := by
  simp only [preferTemplateLiteral]
  split
  · exact Document.ends_trail hid .sum
  · rfl

theorem ends_preferOptionalChain (hid : Tree.Halts d.tree.children id) :
    preferOptionalChain.ends d id := by
  simp only [preferOptionalChain]
  split
  · next left right hnode =>
    have hright : Tree.Halts d.tree.children right := by
      refine hid.inv ?_
      simp [Tree.children, hnode, Node.children]
    exact Document.ends_trail hright (.search left)
  · rfl

theorem ends_preferEarlyReturn (hd : d.Grounded) (hid : d.tree.InSight id) :
    preferEarlyReturn.ends d id := by
  simp only [preferEarlyReturn]
  split
  · next found branch hfound =>
    exact Document.ends_earlyReturn hd (hid.reaches (Tree.reaches_of_nestedIf? hfound)) branch
  · rfl

/-- Every rule ends wherever the rules can get. -/
theorem ends_of_mem_all (hd : d.Grounded) (hid : d.tree.InSight id) (hrule : rule ∈ all) :
    rule.ends d id := by
  have hhalts : Tree.Halts d.tree.children id := Tree.halts_children_iff.mpr (hd id hid)
  simp only [all, List.mem_cons, List.not_mem_nil, or_false] at hrule
  rcases hrule with rfl | rfl | rfl | rfl | rfl | rfl | rfl | rfl | rfl | rfl | rfl | rfl | rfl |
    rfl | rfl
  · rfl
  · rfl
  · rfl
  · exact ends_preferTemplateLiteral hhalts
  · exact ends_preferEarlyReturn hd hid
  · rfl
  · exact ends_preferOptionalChain hhalts
  · rfl
  · exact Document.ends_loop hhalts
  · exact Document.ends_loop hhalts
  · exact Document.ends_concat hhalts
  · rfl
  · rfl
  · rfl
  · rfl

end Rules

theorem Runner.Covers.endsAt {r : Runner} {entries : List (Rule × Severity)} {d : Document}
    {id : NodeId} (h : r.Covers entries) (hends : ∀ entry ∈ entries, entry.1.ends d id) :
    r.endsAt d id := by
  refine List.all_eq_true.mpr fun index hindex => ?_
  cases hentry : r.rules[index]? with
  | none => rfl
  | some entry =>
    have hmem : entry ∈ r.listening (d.tree.nodeType id) :=
      List.mem_filterMap.mpr ⟨index, hindex, hentry⟩
    rw [h.listening] at hmem
    exact hends entry (List.mem_of_mem_filter hmem)

namespace Settings

theorem lintTree?_of_grounded (s : Settings) {d : Document} (hd : d.Grounded) :
    s.lintTree? d = some (s.lint d) := by
  have hcovers := Runner.covers_registerAll s (Runner.covers_empty s.options) Rules.all
    nodup_listeners
  refine if_pos (List.all_eq_true.mpr fun id hid => hcovers.endsAt fun entry hentry => ?_)
  rw [List.nil_append] at hentry
  obtain ⟨rule, hrule, rfl⟩ := List.mem_map.mp (List.mem_of_mem_filter hentry)
  exact Rules.ends_of_mem_all hd (Tree.inSight_of_mem_preorder hid) hrule

/-- Whatever a host builds, the way up ends, and a walk of a rule that ends at all does so after at
most as many steps as there are nodes. It ends at each node that leads to none below itself, and if
no other is in sight of the root there is a result. -/
theorem lintTree?_of_built (s : Settings) (d : Document) (hbuilt : d.tree.Built)
    (hd : d.Grounded) :
    (∀ i, d.tree.Lineage i (d.tree.ancestors i)) ∧
    (∀ w i, d.tree.ends (d.trail w) i ↔ Tree.Halts (d.trail w) i) ∧
    (∀ w i, ¬ Tree.Circles d.tree.children i → d.tree.ends (d.trail w) i) ∧
    s.lintTree? d = some (s.lint d) := by
  refine ⟨hbuilt.lineage_ancestors, d.ends_trail_iff_halts, fun w i hi => ?_,
    s.lintTree?_of_grounded hd⟩
  exact Document.ends_trail (Tree.halts_children_iff.mpr hi) w

/-- A name that is shared by a guard and by the access that it guards, in a statement that the
program holds twice, next to one that does not exist. -/
def sharedGuard : Document where
  source := []
  tree := .ofNodes
    [.identifier { name := "a" }, .identifier { name := "b" },
     .memberExpression { object := 0, property := 1, computed := false, optional := false },
     .logicalExpression .and 0 2, .expressionStatement 3, .program [4, 4, 9]] 5

theorem grounded_sharedGuard : sharedGuard.Grounded :=
  fun i _ => Tree.not_circles_of_ends (by decide +kernel) i

theorem lintTree?_of_built_sharedGuard :
    sharedGuard.tree.Built ∧ sharedGuard.Grounded ∧
    (∀ i, sharedGuard.tree.Lineage i (sharedGuard.tree.ancestors i)) ∧
    (∀ w i, sharedGuard.tree.ends (sharedGuard.trail w) i ↔ Tree.Halts (sharedGuard.trail w) i) ∧
    (∀ w i, ¬ Tree.Circles sharedGuard.tree.children i →
      sharedGuard.tree.ends (sharedGuard.trail w) i) ∧
    ({} : Settings).lintTree? sharedGuard = some (({} : Settings).lint sharedGuard) :=
  ⟨Tree.built_ofNodes _ _, grounded_sharedGuard,
    lintTree?_of_built {} sharedGuard (Tree.built_ofNodes _ _) grounded_sharedGuard⟩

/-- A call that is its own callee, behind a guard. -/
def guardedSelfCall : Document where
  source := []
  tree := .ofNodes
    [.identifier { name := "a" }, .callExpression 1 [] false, .logicalExpression .and 0 1,
     .expressionStatement 2, .program [3]] 4

/-- The search for an access on what is guarded goes round and round in a call that is its own
callee, and there is no result. -/
theorem lintTree?_guardedSelfCall :
    guardedSelfCall.tree.Built ∧ ¬ Tree.Halts (guardedSelfCall.trail (.search 0)) 1 ∧
      ({} : Settings).lintTree? guardedSelfCall = none := by
  refine ⟨Tree.built_ofNodes _ _, fun hhalts => ?_, if_neg ?_⟩
  · have hself : 1 ∈ guardedSelfCall.trail (.search 0) 1 := by decide +kernel
    exact hhalts.not_circles ⟨1, .refl, .single hself⟩
  · decide +kernel

end Settings

/-- In the tree of a text no node lies below itself. -/
theorem Document.grounded_of_parse {source : List Char} {t : Tree} (h : parse source = .ok t)
    (path : String) : Document.Grounded { path, source, tree := t } := by
  obtain ⟨t₀, root, kids, rfl, hroot, -, hplanted⟩ := Parse.exists_forest_of_parse h
  intro i hi
  obtain ⟨root', hroot', hreaches⟩ := Tree.reachable_of_inSight hi
  cases hroot.symm.trans hroot'
  have hhalts : Tree.Halts t₀.children root :=
    Tree.halts_of_follows hplanted.follows root List.mem_cons_self
  have hchildren : t₀.linkParents.children = t₀.children :=
    funext (Tree.relinked_linkParents hroot).children
  simp only [hchildren]
  exact (hhalts.of_reflTransGen hreaches).not_circles

/-- In the tree of a text every walk of the rules ends. -/
theorem Document.ends_trail_of_parse {source : List Char} {t : Tree} (h : parse source = .ok t)
    (path : String) {id : NodeId} (hid : t.Reachable id) (w : Trail) :
    t.ends (Document.trail { path, source, tree := t } w) id := by
  have hsight := Tree.inSight_of_mem_preorder
    (((Document.sound_of_parse h path).mem_preorder id).mpr hid)
  have hground := Document.grounded_of_parse h path id hsight
  exact Document.ends_trail (d := ⟨path, source, t⟩) (Tree.halts_children_iff.mpr hground) w

end ScriptLint
