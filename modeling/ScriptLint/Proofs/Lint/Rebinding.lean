import ScriptLint.Proofs.Lint.Legacy
import ScriptLint.Proofs.Lint.Locality
import ScriptLint.Proofs.Tree.Scope

namespace ScriptLint
namespace Tree

/-- A name is bound where a statement stands: by a parameter of the function around it, by a `var`
of this function, or by a statement beside it. -/
inductive BoundAround (t : Tree) (id : NodeId) : String → Prop where
  | parameter {function parameter : NodeId} {name : String} (hf : t.Reachable function)
      (hfunction : t.isFunctionLike function = true) (howned : t.OwnedBy function id)
      (hmem : parameter ∈ t.parameters function) (hbinds : t.Binds parameter name) :
      BoundAround t id name
  | hoisted {function statement declarator pattern : NodeId} {declarations : List NodeId}
      {init : Option NodeId} {name : String} (hf : t.Reachable function)
      (hfunction : t.isFunctionLike function = true) (howned : t.OwnedBy function id)
      (hstatement : t.OwnedBy function statement)
      (hnode : t.node statement = .variableDeclaration .varKind declarations)
      (hmem : declarator ∈ declarations)
      (hdeclarator : t.node declarator = .variableDeclarator pattern init)
      (hbinds : t.Binds pattern name) : BoundAround t id name
  | sibling {p statement : NodeId} {name : String} (hparent : t.parent id = some p)
      (hmem : statement ∈ t.statements p) (hne : statement ≠ id)
      (hdeclares : t.Declares true statement name) : BoundAround t id name

/-- Statements that are moved out to where another one stands declare a name that is bound there. -/
def Rebound (t : Tree) (id : NodeId) (moved : List NodeId) : Prop :=
  ∃ statement ∈ moved, ∃ name, t.Declares false statement name ∧ t.BoundAround id name

variable {t : Tree} {root id i : NodeId} {name : String} {moved : List NodeId} {branch : Branch}

theorem mem_siblings_iff :
    i ∈ t.siblings id ↔ ∃ p, t.parent id = some p ∧ i ∈ t.statements p ∧ i ≠ id := by
  unfold siblings
  cases hp : t.parent id <;> simp

theorem mem_patternsAround_iff :
    i ∈ t.patternsAround id ↔
      ∃ function, t.enclosingFunction? id = some function ∧ i ∈ t.functionPatterns function := by
  unfold patternsAround
  cases hf : t.enclosingFunction? id <;> simp

theorem isVar_iff : t.isVar id = true ↔
    ∃ declarations, t.node id = .variableDeclaration .varKind declarations := by
  unfold isVar
  split <;> simp_all

/-- The patterns that are bound in all of a function. -/
theorem Intact.mem_functionPatterns_iff (h : t.Intact root)
    (hlineage : ∀ i, t.Lineage i (t.ancestors i)) {function : NodeId} (hf : t.Reachable function)
    (hfunction : t.isFunctionLike function = true) :
    i ∈ t.functionPatterns function ↔ i ∈ t.parameters function ∨
      ∃ statement declarations declarator init, t.OwnedBy function statement ∧
        t.node statement = .variableDeclaration .varKind declarations ∧ declarator ∈ declarations ∧
        t.node declarator = .variableDeclarator i init := by
  simp only [functionPatterns, List.mem_append, List.mem_flatMap, List.mem_filter,
    mem_descendants_iff, Bool.and_eq_true, beq_iff_eq, isVar_iff, mem_declaredPatterns_iff]
  refine or_congr_right ⟨?_, ?_⟩
  · rintro ⟨statement, ⟨⟨-, hreaches⟩, ⟨declarations, hnode⟩, henclosing⟩, hpattern⟩
    obtain ⟨kind, declarations', declarator, init, hnode', -, hmem, hdeclarator⟩ := hpattern
    cases hnode.symm.trans hnode'
    obtain ⟨-, -, howned⟩ :=
      (h.enclosingFunction?_eq_some_iff hlineage (hf.trans hreaches)).mp henclosing
    exact ⟨statement, declarations, declarator, init, howned, hnode, hmem, hdeclarator⟩
  · rintro ⟨statement, declarations, declarator, init, howned, hnode, hmem, hdeclarator⟩
    have hreachable := hf.trans howned.reaches
    refine ⟨statement, ⟨⟨h.inside _ hreachable, howned.reaches⟩, ⟨declarations, hnode⟩, ?_⟩, ?_⟩
    · exact (h.enclosingFunction?_eq_some_iff hlineage hreachable).mpr ⟨hf, hfunction, howned⟩
    · exact ⟨_, declarations, declarator, init, hnode, .inl trivial, hmem, hdeclarator⟩

/-- The names that are collected around a statement are those that are bound there. -/
theorem Intact.mem_namesAround_iff (h : t.Intact root)
    (hlineage : ∀ i, t.Lineage i (t.ancestors i)) (hid : t.Reachable id) :
    name ∈ t.namesAround id ↔ t.BoundAround id name := by
  simp only [namesAround, List.mem_append, List.mem_flatMap, mem_siblings_iff,
    mem_declaredNames_iff, mem_patternsAround_iff, mem_patternNames_iff]
  constructor
  · rintro (⟨statement, ⟨p, hparent, hmem, hne⟩, hdeclares⟩ |
      ⟨pattern, ⟨function, henclosing, hpattern⟩, hbinds⟩)
    · exact .sibling hparent hmem hne hdeclares
    · obtain ⟨hf, hfunction, howned⟩ :=
        (h.enclosingFunction?_eq_some_iff hlineage hid).mp henclosing
      obtain hparameter | ⟨statement, declarations, declarator, init, hstatement, hnode, hmem, hinit⟩ :=
        (h.mem_functionPatterns_iff hlineage hf hfunction).mp hpattern
      · exact .parameter hf hfunction howned hparameter hbinds
      · exact .hoisted hf hfunction howned hstatement hnode hmem hinit hbinds
  · intro hbound
    cases hbound with
    | parameter hf hfunction howned hmem hbinds =>
      have henclosing :=
        (h.enclosingFunction?_eq_some_iff hlineage hid).mpr ⟨hf, hfunction, howned⟩
      have hpattern := (h.mem_functionPatterns_iff hlineage hf hfunction).mpr (.inl hmem)
      exact .inr ⟨_, ⟨_, henclosing, hpattern⟩, hbinds⟩
    | hoisted hf hfunction howned hstatement hnode hmem hdeclarator hbinds =>
      have henclosing :=
        (h.enclosingFunction?_eq_some_iff hlineage hid).mpr ⟨hf, hfunction, howned⟩
      have hpattern := (h.mem_functionPatterns_iff hlineage hf hfunction).mpr
        (.inr ⟨_, _, _, _, hstatement, hnode, hmem, hdeclarator⟩)
      exact .inr ⟨_, ⟨_, henclosing, hpattern⟩, hbinds⟩
    | sibling hparent hmem hne hdeclares =>
      exact .inl ⟨_, ⟨_, hparent, hmem, hne⟩, hdeclares⟩

theorem Intact.rebinds_iff (h : t.Intact root) (hlineage : ∀ i, t.Lineage i (t.ancestors i))
    (hid : t.Reachable id) : t.rebinds id moved = true ↔ t.Rebound id moved := by
  unfold rebinds Rebound
  simp only [List.any_eq_true, List.contains_iff_mem, List.mem_flatMap, mem_declaredNames_iff,
    h.mem_namesAround_iff hlineage hid]
  constructor
  · rintro ⟨name, ⟨statement, hmem, hdeclares⟩, hbound⟩
    exact ⟨statement, hmem, name, hdeclares, hbound⟩
  · rintro ⟨statement, hmem, name, hdeclares, hbound⟩
    exact ⟨name, ⟨statement, hmem, hdeclares⟩, hbound⟩

end Tree

variable {d : Document} {id : NodeId} {branch : Branch}

namespace Document

/-- Whatever a node of a text that parses is, it can be written as it stands. -/
theorem Sound.exists_text (hd : d.Sound) (hid : d.tree.Reachable id) :
    ∃ r text, d.tree.range id = some r ∧ slice? d.source r.start r.stop = some text := by
  obtain ⟨r, hat⟩ := hd.ranged id hid
  exact ⟨r, _, hat.range, Option.some_get hat.slice_isSome |>.symm⟩

theorem Sound.isSome_text? (hd : d.Sound) (hid : d.tree.Reachable id) :
    (d.text? id).isSome = true := by
  obtain ⟨r, text, hr, htext⟩ := hd.exists_text hid
  simp [text?, hr, htext]

theorem Sound.isSome_replace? (hd : d.Sound) (hid : d.tree.Reachable id)
    (replacement : List Char) : (d.replace? id replacement).isSome = true := by
  obtain ⟨r, text, hr, htext⟩ := hd.exists_text hid
  simp [replace?, replaceRange?, hr, htext]

/-- The text of a node is exchanged for what is asked for. -/
theorem replacement_of_replace? {r : Span} (hr : d.tree.range id = some r) {replacement : List Char}
    {f : Fix} (hf : d.replace? id replacement = some f) :
    f.span.start = r.start ∧ f.span.stop = r.stop ∧ f.replacement = replacement := by
  simp only [replace?, hr, Option.bind_some] at hf
  obtain ⟨old, -, rfl⟩ := Option.map_eq_some_iff.mp hf
  exact ⟨rfl, rfl, rfl⟩

theorem Sound.isSome_render? (hd : d.Sound) (hid : d.tree.Reachable id)
    (substitutions : List Substitution) :
    (Rendering.render? ⟨d, substitutions⟩ id).isSome = true := by
  obtain ⟨r, text, hr, htext⟩ := hd.exists_text hid
  simp [Rendering.render?, hr, htext]

/-- Every expression of a text that parses can be negated. -/
theorem Sound.isSome_negate? (hd : d.Sound) (hid : d.tree.Reachable id)
    (substitutions : List Substitution) :
    (Rendering.negate? ⟨d, substitutions⟩ id).isSome = true := by
  have hrender : ∀ {i}, d.tree.Reachable i →
      (Rendering.render? ⟨d, substitutions⟩ i).isSome = true :=
    fun hi => hd.isSome_render? hi substitutions
  have hnot : (Rendering.not? ⟨d, substitutions⟩ id).isSome = true := by
    rw [Rendering.not?, Option.isSome_map]
    exact hrender hid
  have hgroup : (Rendering.notParenthesized? ⟨d, substitutions⟩ id).isSome = true := by
    rw [Rendering.notParenthesized?, Option.isSome_map]
    exact hrender hid
  unfold Rendering.negate? Rendering.negated?
  rw [Option.isSome_map]
  split
  · next argument hnode =>
    have hargument : d.tree.Reachable argument :=
      hid.child (by simp [Tree.children, hnode, Node.children])
    split
    · next inner hinner =>
      rw [Rendering.condition?, Option.isSome_map]
      exact hrender (hargument.child (by simp [Tree.children, hinner, Node.children]))
    · rw [Rendering.condition?, Option.isSome_map]
      exact hrender hargument
  · next operator left right hnode =>
    have hleft : d.tree.Reachable left :=
      hid.child (by simp [Tree.children, hnode, Node.children])
    have hright : d.tree.Reachable right :=
      hid.child (by simp [Tree.children, hnode, Node.children])
    split
    · obtain ⟨l, x, hl, -⟩ := hd.exists_text hleft
      obtain ⟨r, y, hr, -⟩ := hd.exists_text hright
      obtain ⟨before, hbefore⟩ := Option.isSome_iff_exists.mp (hrender hleft)
      obtain ⟨after, hafter⟩ := Option.isSome_iff_exists.mp (hrender hright)
      simp [Rendering.withOperator?, hl, hr, hbefore, hafter]
    · exact hgroup
  all_goals first | exact hnot | exact hgroup

end Document

namespace Tree

variable {t : Tree} {function : NodeId}

/-- The branch that is moved out is a block, and so is the first branch. -/
theorem exists_blocks_of_nestedBranch? (h : t.nestedBranch? id = some branch) :
    ∃ test consequent alternate first moved, t.node id = .ifStatement test consequent alternate ∧
      t.block? consequent = some first ∧ t.branchBlock? id branch = some moved := by
  have hblock : ∀ {b}, t.directlyContainsIf b = true → ∃ body, t.block? b = some body := by
    intro b hb
    cases hbody : t.block? b with
    | none => simp [directlyContainsIf, hbody] at hb
    | some body => exact ⟨body, rfl⟩
  unfold nestedBranch? at h
  split at h
  · next test consequent hnode =>
    split_ifs at h with hcontains
    cases h
    obtain ⟨first, hfirst⟩ := hblock hcontains
    exact ⟨test, consequent, none, first, first, hnode, hfirst, by simp [branchBlock?, hnode, hfirst]⟩
  · next test consequent alternate hnode =>
    split_ifs at h with hcontains
    cases h
    obtain ⟨hconsequent, hcontains⟩ := Bool.and_eq_true_iff.mp hcontains
    obtain ⟨first, hfirst⟩ := Option.isSome_iff_exists.mp hconsequent
    obtain ⟨moved, hmoved⟩ := hblock hcontains
    exact ⟨test, consequent, some alternate, first, moved, hnode, hfirst,
      by simp [branchBlock?, hnode, hfirst, hmoved]⟩
  · cases h

theorem nestedBranch?_of_nestedIf? (h : t.nestedIf? function = some (id, branch)) :
    t.nestedBranch? id = some branch := by
  unfold nestedIf? at h
  simp only [bind, Option.bind_eq_some_iff, pure, Option.some.injEq, Prod.mk.injEq] at h
  obtain ⟨body, -, found, -, -, -, branch', hbranch, rfl, rfl⟩ := h
  exact hbranch

end Tree

namespace Document

variable {test consequent : NodeId} {first moved : List NodeId}

/-- The opening of a guard that keeps its branch can be written. -/
theorem Sound.isSome_alternateHead? (hd : d.Sound) (htest : d.tree.Reachable test)
    (hconsequent : d.tree.Reachable consequent) (hfirst : d.tree.block? consequent = some first) :
    (d.alternateHead? test consequent first).isSome = true := by
  obtain ⟨text, htext⟩ := Option.isSome_iff_exists.mp (hd.isSome_text? htest)
  unfold alternateHead?
  cases hlast : first.getLast? with
  | none => simp [htext]
  | some last =>
    have hchild : last ∈ d.tree.children consequent :=
      Tree.children_of_block? hfirst ▸ List.mem_of_getLast? hlast
    obtain ⟨r, -, hr, -⟩ := hd.exists_text (hconsequent.child hchild)
    obtain ⟨q, -, hq, -⟩ := hd.exists_text hconsequent
    simp [htext, hr, hq]

/-- An `if` is made a guard unless a name would be bound twice. -/
theorem Sound.isSome_earlyReturn?_iff (hd : d.Sound) (hid : d.tree.Reachable id)
    (hbranch : d.tree.nestedBranch? id = some branch)
    (hmoved : d.tree.branchBlock? id branch = some moved) :
    (d.earlyReturn? id branch).isSome = true ↔ d.tree.rebinds id moved = false := by
  obtain ⟨test, consequent, alternate, first, moved', hnode, hfirst, hmoved'⟩ :=
    Tree.exists_blocks_of_nestedBranch? hbranch
  obtain rfl := Option.some.inj (hmoved.symm.trans hmoved')
  have htest : d.tree.Reachable test := hid.child (by simp [Tree.children, hnode, Node.children])
  have hconsequent : d.tree.Reachable consequent :=
    hid.child (by simp [Tree.children, hnode, Node.children])
  obtain ⟨r, -, hr, -⟩ := hd.exists_text hid
  obtain ⟨negation, hnegation⟩ := Option.isSome_iff_exists.mp (hd.isSome_negate? htest [])
  obtain ⟨head, hhead⟩ :=
    Option.isSome_iff_exists.mp (hd.isSome_alternateHead? htest hconsequent hfirst)
  unfold earlyReturn?
  simp only [hnode, hr, hfirst, hmoved, bind, Option.bind_some]
  cases hrebinds : d.tree.rebinds id moved with
  | true => exact iff_of_false Bool.false_ne_true Bool.true_eq_false.mp
  | false =>
    refine iff_of_true ?_ rfl
    cases branch with
    | consequent =>
      simp only [hnegation]
      rfl
    | alternate =>
      simp only [hhead]
      rfl

end Document

namespace Settings

variable {source : List Char} {t : Tree} {g : Diagnostic}

/-- Only what keeps a text from having a tree is reported of one that does not parse. -/
theorem exists_tree_of_mem_lintSource {s : Settings} {path : String}
    (hg : g ∈ s.lintSource path source) (hcode : g.code ≠ "S0001") :
    ∃ t, parse source = .ok t := by
  unfold lintSource at hg
  split at hg
  · next t h => exact ⟨t, h⟩
  · obtain ⟨error, -, rfl⟩ := List.mem_map.mp hg
    exact absurd rfl hcode

/-- An early return is reported of the `if` at the end of a function. The fix is the guard. -/
theorem exists_nestedIf?_of_mem_lintSource (h : parse source = .ok t) (s : Settings) (path : String)
    (hg : g ∈ s.lintSource path source) (hcode : g.code = "S2003") :
    ∃ function id branch, t.Reachable function ∧ t.Reachable id ∧
      t.nestedIf? function = some (id, branch) ∧
      g.fix = ((Document.mk path source t).earlyReturn? id branch).bind
        ((Document.mk path source t).replace? id) := by
  rw [lintSource, h] at hg
  obtain ⟨function, hfunction, hvisit⟩ := mem_lint_iff.mp hg
  have hrule : Rules.preferEarlyReturn ∈ Rules.all := by simp [Rules.all]
  obtain ⟨-, report, hreport, -, hfix, -⟩ := exists_report_of_visit hrule hvisit hcode
  obtain ⟨⟨id, branch⟩, hnested, rfl⟩ := Option.map_eq_some_iff.mp hreport
  have hfunction := ((Document.sound_of_parse h path).mem_preorder function).mp hfunction
  exact ⟨function, id, branch, hfunction, hfunction.trans (Tree.reaches_of_nestedIf? hnested),
    hnested, hfix⟩

/-- An early return of a text that parses comes with a fix exactly if what is moved out of the
branch declares no name that is bound around the `if`. The fix exchanges the `if`. -/
theorem isSome_fix_iff_of_mem_lintSource (h : parse source = .ok t) (s : Settings) (path : String)
    (hg : g ∈ s.lintSource path source) (hcode : g.code = "S2003") :
    ∃ function id branch moved r, t.Reachable id ∧ t.nestedIf? function = some (id, branch) ∧
      t.branchBlock? id branch = some moved ∧ t.range id = some r ∧
      (g.fix.isSome = true ↔ ¬ t.Rebound id moved) ∧
      ∀ f, g.fix = some f → f.span.start = r.start ∧ f.span.stop = r.stop ∧
        (Document.mk path source t).earlyReturn? id branch = some f.replacement := by
  have hd := Document.sound_of_parse h path
  obtain ⟨root, -, hintact⟩ := Tree.exists_root_of_parse h
  obtain ⟨function, id, branch, -, hid, hnested, hfix⟩ :=
    exists_nestedIf?_of_mem_lintSource h s path hg hcode
  have hbranch := Tree.nestedBranch?_of_nestedIf? hnested
  obtain ⟨-, -, -, -, moved, -, -, hmoved⟩ := Tree.exists_blocks_of_nestedBranch? hbranch
  obtain ⟨r, -, hr, -⟩ := hd.exists_text hid
  refine ⟨function, id, branch, moved, r, hid, hnested, hmoved, hr, ?_, fun f hf => ?_⟩
  · rw [← hintact.rebinds_iff (parse_lineage h) hid, Bool.not_eq_true,
      ← hd.isSome_earlyReturn?_iff hid hbranch hmoved]
    simp only [hfix]
    cases hearly : (Document.mk path source t).earlyReturn? id branch with
    | none => simp
    | some text => simpa using hd.isSome_replace? hid text
  · obtain ⟨text, htext, hf⟩ := Option.bind_eq_some_iff.mp (hfix ▸ hf)
    obtain ⟨hstart, hstop, hreplacement⟩ := Document.replacement_of_replace? hr hf
    exact ⟨hstart, hstop, hreplacement ▸ htext⟩

theorem isSome_fix_iff_of_mem_lintSource_fresh : ∃ t g f id moved,
    parse "function f(a) \x7b if (a) \x7b const x = 1; if (x) b(); \x7d \x7d".toList = .ok t ∧
      g ∈ ({} : Settings).lintSource "test.ts"
        "function f(a) \x7b if (a) \x7b const x = 1; if (x) b(); \x7d \x7d".toList ∧
      g.code = "S2003" ∧ g.fix = some f ∧ t.Reachable id ∧ ¬ t.Rebound id moved := by
  have hfixed : (({} : Settings).lintSource "test.ts"
      "function f(a) \x7b if (a) \x7b const x = 1; if (x) b(); \x7d \x7d".toList).any (fun g =>
        g.code == "S2003" && g.fix.isSome) = true := by
    decide +kernel
  obtain ⟨g, hg, hfound⟩ := List.any_eq_true.mp hfixed
  obtain ⟨hcode, hfix⟩ := Bool.and_eq_true_iff.mp hfound
  have hcode := beq_iff_eq.mp hcode
  obtain ⟨t, h⟩ := exists_tree_of_mem_lintSource hg (by simp [hcode])
  obtain ⟨f, hf⟩ := Option.isSome_iff_exists.mp hfix
  obtain ⟨-, id, -, moved, -, hid, -, -, -, hiff, -⟩ :=
    isSome_fix_iff_of_mem_lintSource h {} "test.ts" hg hcode
  exact ⟨t, g, f, id, moved, h, hg, hcode, hf, hid, hiff.mp hfix⟩

end Settings

namespace Tree

/-- The names that a statement declares under its label. -/
def labeledNames (t : Tree) (id : NodeId) : List String :=
  match t.node id with
  | .labeledStatement _ body => t.declaredNames true body
  | _ => []

/-- The name that an `if` tests, if it tests one. -/
def testedName? (t : Tree) (id : NodeId) : Option String :=
  match t.node id with
  | .ifStatement test _ _ => t.identifierName? test
  | _ => none

/-- A name that is moved out of an `if` is the one that the `if` tests, and a statement beside the
`if` declares it under a label. -/
def captures (t : Tree) (id : NodeId) (branch : Branch) : Bool :=
  ((t.branchBlock? id branch).getD []).any fun statement =>
    (t.declaredNames false statement).any fun name => t.testedName? id == some name &&
      (t.siblings id).any fun sibling => (t.labeledNames sibling).contains name

end Tree

/-- Some fix of a text captures a name. -/
def capturesName (source : List Char) : Bool :=
  match parse source with
  | .ok t => (({} : Settings).lintSource "test.ts" source).any fun g =>
    g.code == "S2003" && g.fix.any fun f => t.preorder.any fun function =>
      (t.nestedIf? function).any fun (id, branch) => t.captures id branch &&
        (Document.mk "test.ts" source t).earlyReturn? id branch == some f.replacement
  | .error _ => false

/-- A declaration that is moved out can take over the name that the `if` tests, and a name that is
declared under a label. -/
theorem not_unbound_of_mem_lintSource : ¬ ∀ (source : List Char) (t : Tree) (g : Diagnostic)
    (f : Fix) (function id : NodeId) (branch : Branch) (moved : List NodeId), parse source = .ok t →
      g ∈ ({} : Settings).lintSource "test.ts" source → g.code = "S2003" → g.fix = some f →
      t.nestedIf? function = some (id, branch) →
      (Document.mk "test.ts" source t).earlyReturn? id branch = some f.replacement →
      t.branchBlock? id branch = some moved →
      ∀ statement ∈ moved, ∀ name, t.Declares false statement name →
        t.testedName? id ≠ some name ∨ ∀ sibling ∈ t.siblings id, name ∉ t.labeledNames sibling := by
  intro hunbound
  obtain ⟨source, hfound⟩ : ∃ source, capturesName source = true :=
    ⟨("function f() \x7b l: function x() \x7b\x7d if (x) \x7b const x = 1; " ++
      "if (x) \x7b go(x); \x7d \x7d \x7d").toList, by decide +kernel⟩
  unfold capturesName at hfound
  split at hfound
  · next t hparse =>
    obtain ⟨g, hg, hfound⟩ := List.any_eq_true.mp hfound
    obtain ⟨hcode, hfound⟩ := Bool.and_eq_true_iff.mp hfound
    obtain ⟨f, hf, hfound⟩ := (Option.any_eq_true _ _).mp hfound
    obtain ⟨function, -, hfound⟩ := List.any_eq_true.mp hfound
    obtain ⟨⟨id, branch⟩, hnested, hfound⟩ := (Option.any_eq_true _ _).mp hfound
    obtain ⟨hcaptures, htext⟩ := Bool.and_eq_true_iff.mp hfound
    obtain ⟨statement, hstatement, hname⟩ := List.any_eq_true.mp hcaptures
    obtain ⟨name, hname, hcaptured⟩ := List.any_eq_true.mp hname
    obtain ⟨htested, hlabeled⟩ := Bool.and_eq_true_iff.mp hcaptured
    obtain ⟨sibling, hsibling, hmem⟩ := List.any_eq_true.mp hlabeled
    obtain ⟨-, -, -, -, moved, -, -, hmoved⟩ :=
      Tree.exists_blocks_of_nestedBranch? (Tree.nestedBranch?_of_nestedIf? hnested)
    rw [hmoved] at hstatement
    obtain hne | hnone := hunbound source t g f function id branch moved hparse hg
      (beq_iff_eq.mp hcode) hf hnested (beq_iff_eq.mp htext) hmoved statement hstatement name
      (Tree.mem_declaredNames_iff.mp hname)
    · exact hne (beq_iff_eq.mp htested)
    · exact hnone sibling hsibling (List.contains_iff_mem.mp hmem)
  · cases hfound

end ScriptLint
