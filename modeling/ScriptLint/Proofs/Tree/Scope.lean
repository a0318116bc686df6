import ScriptLint.Lint.Binding
import ScriptLint.Proofs.Parse.Integrity

namespace ScriptLint
namespace Tree

/-- A pattern binds a name: it is the name, or a part of it binds the name. -/
inductive Binds (t : Tree) : NodeId → String → Prop where
  | name {id : NodeId} {ident : Identifier} (hnode : t.node id = .identifier ident) :
      Binds t id ident.name
  | object {id i : NodeId} {properties : List NodeId} {ascription : Option NodeId} {name : String}
      (hnode : t.node id = .objectPattern properties ascription) (hi : i ∈ properties)
      (hbinds : Binds t i name) : Binds t id name
  | property {id : NodeId} {p : Property} {name : String} (hnode : t.node id = .property p)
      (hbinds : Binds t p.value name) : Binds t id name
  | array {id i : NodeId} {elements : List (Option NodeId)} {ascription : Option NodeId}
      {name : String} (hnode : t.node id = .arrayPattern elements ascription)
      (hi : some i ∈ elements) (hbinds : Binds t i name) : Binds t id name
  | withDefault {id left right : NodeId} {name : String}
      (hnode : t.node id = .assignmentPattern left right) (hbinds : Binds t left name) :
      Binds t id name
  | rest {id argument : NodeId} {ascription : Option NodeId} {name : String}
      (hnode : t.node id = .restElement argument ascription) (hbinds : Binds t argument name) :
      Binds t id name

/-- A statement declares a name in the block where it stands. A `var` counts if `hoisted` is set. -/
inductive Declares (t : Tree) (hoisted : Bool) : NodeId → String → Prop where
  | declaration {id declarator pattern : NodeId} {init : Option NodeId} {kind : VariableKind}
      {declarations : List NodeId} {name : String}
      (hnode : t.node id = .variableDeclaration kind declarations)
      (hkind : hoisted = true ∨ kind ≠ .varKind) (hmem : declarator ∈ declarations)
      (hdeclarator : t.node declarator = .variableDeclarator pattern init)
      (hbinds : t.Binds pattern name) : Declares t hoisted id name
  | function {id i : NodeId} {f : Function} {ident : Identifier}
      (hnode : t.node id = .functionDeclaration f) (hid : f.id = some i)
      (hname : t.node i = .identifier ident) : Declares t hoisted id ident.name
  | classLike {id i : NodeId} {c : Class} {ident : Identifier}
      (hnode : t.node id = .classDeclaration c) (hid : c.id = some i)
      (hname : t.node i = .identifier ident) : Declares t hoisted id ident.name

/-- A node stands in a function and in no function inside of it. -/
inductive OwnedBy (t : Tree) (function : NodeId) : NodeId → Prop where
  | child {c : NodeId} (hc : c ∈ t.children function) : OwnedBy t function c
  | inner {i c : NodeId} (h : OwnedBy t function i) (hi : t.isFunctionLike i = false)
      (hc : c ∈ t.children i) : OwnedBy t function c

variable {t : Tree} {root id i : NodeId} {name : String} {hoisted : Bool}

theorem identifierName?_eq_some_iff :
    t.identifierName? id = some name ↔ ∃ ident, t.node id = .identifier ident ∧ ident.name = name := by
  unfold identifierName?
  split
  · next ident hnode => simp [hnode]
  · next hnode =>
    simp only [reduceCtorEq, false_iff, not_exists, not_and]
    exact fun ident hident => absurd hident (hnode ident)

theorem length_patternParts_le (i : NodeId) :
    (t.patternParts i).length ≤ (t.children i).length := by
  unfold patternParts
  rw [children]
  split
  · next hnode => simp [hnode, Node.children]
  · next p hnode =>
    simp only [hnode, Node.children]
    split_ifs <;> simp
  · next hnode => simp [hnode, Node.children]
  · next hnode => simp [hnode, Node.children]
  · next hnode => simp [hnode, Node.children]
  · simp

theorem mem_patternNames_iff_exists : name ∈ t.patternNames id ↔ ∃ i ident,
    Relation.ReflTransGen (fun i j => j ∈ t.patternParts i) id i ∧
      t.node i = .identifier ident ∧ ident.name = name := by
  simp only [patternNames, List.mem_filterMap, mem_walk_iff length_patternParts_le,
    identifierName?_eq_some_iff]
  constructor
  · rintro ⟨i, ⟨-, hsteps⟩, ident, hnode, hname⟩
    exact ⟨i, ident, hsteps, hnode, hname⟩
  · rintro ⟨i, ident, hsteps, hnode, hname⟩
    refine ⟨i, ⟨?_, hsteps⟩, ident, hnode, hname⟩
    by_contra hge
    simp [node, entry?_eq_none_iff.mpr (not_lt.mp hge), Node.missing] at hnode

/-- A pattern binds what a part of it binds. -/
theorem Binds.of_part (hi : i ∈ t.patternParts id) (h : t.Binds i name) : t.Binds id name := by
  unfold patternParts at hi
  split at hi
  · next hnode => exact .object hnode hi h
  · next hnode => exact .property hnode (List.mem_singleton.mp hi ▸ h)
  · next hnode =>
    obtain ⟨element, helement, rfl⟩ := List.mem_filterMap.mp hi
    exact .array hnode helement h
  · next hnode => exact .withDefault hnode (List.mem_singleton.mp hi ▸ h)
  · next hnode => exact .rest hnode (List.mem_singleton.mp hi ▸ h)
  · cases hi

/-- The names that are collected from a pattern are those that it binds. -/
theorem mem_patternNames_iff : name ∈ t.patternNames id ↔ t.Binds id name := by
  rw [mem_patternNames_iff_exists]
  constructor
  · rintro ⟨i, ident, hsteps, hnode, rfl⟩
    induction hsteps using Relation.ReflTransGen.head_induction_on with
    | refl => exact .name hnode
    | head hpart _ ih => exact .of_part hpart ih
  · intro h
    have hstep : ∀ {id i name}, i ∈ t.patternParts id → (∃ j ident,
        Relation.ReflTransGen (fun i j => j ∈ t.patternParts i) i j ∧
          t.node j = .identifier ident ∧ ident.name = name) →
        ∃ j ident, Relation.ReflTransGen (fun i j => j ∈ t.patternParts i) id j ∧
          t.node j = .identifier ident ∧ ident.name = name := by
      rintro id i name hpart ⟨j, ident, hsteps, hfound⟩
      exact ⟨j, ident, .head hpart hsteps, hfound⟩
    induction h with
    | name hnode => exact ⟨_, _, .refl, hnode, rfl⟩
    | object hnode hi _ ih => exact hstep (by rwa [patternParts, hnode]) ih
    | property hnode _ ih => exact hstep (by simp [patternParts, hnode]) ih
    | array hnode hi _ ih => exact hstep (by simpa [patternParts, hnode] using hi) ih
    | withDefault hnode _ ih => exact hstep (by simp [patternParts, hnode]) ih
    | rest hnode _ ih => exact hstep (by simp [patternParts, hnode]) ih

theorem mem_declaredPatterns_iff : i ∈ t.declaredPatterns hoisted id ↔
    ∃ kind declarations declarator init, t.node id = .variableDeclaration kind declarations ∧
      (hoisted = true ∨ kind ≠ .varKind) ∧ declarator ∈ declarations ∧
      t.node declarator = .variableDeclarator i init := by
  have hdeclarator : ∀ declarator, t.declaratorPattern? declarator = some i ↔
      ∃ init, t.node declarator = .variableDeclarator i init := by
    intro declarator
    unfold declaratorPattern?
    split
    · next hnode => simp [hnode]
    · next hnode => simpa using fun init => hnode i init
  unfold declaredPatterns
  split
  · next kind declarations hnode =>
    split_ifs with hskipped
    · simp only [Bool.and_eq_true, Bool.not_eq_true', beq_iff_eq] at hskipped
      simp [hnode, hskipped]
    · rw [List.mem_filterMap]
      simp only [hdeclarator]
      constructor
      · rintro ⟨declarator, hmem, init, hinit⟩
        refine ⟨kind, declarations, declarator, init, hnode, ?_, hmem, hinit⟩
        cases hoisted <;> simp_all
      · rintro ⟨kind', declarations', declarator, init, hnode', -, hmem, hinit⟩
        cases hnode.symm.trans hnode'
        exact ⟨declarator, hmem, init, hinit⟩
  · next hnode =>
    refine iff_of_false List.not_mem_nil ?_
    rintro ⟨kind, declarations, _, _, hnode', -⟩
    exact hnode kind declarations hnode'

/-- The names that are collected from a statement are those that it declares. -/
theorem mem_declaredNames_iff : name ∈ t.declaredNames hoisted id ↔ t.Declares hoisted id name := by
  constructor
  · intro h
    unfold declaredNames at h
    split at h
    · next f hnode =>
      obtain ⟨i, hid, hname⟩ := Option.bind_eq_some_iff.mp (Option.mem_toList.mp h)
      obtain ⟨ident, hident, rfl⟩ := identifierName?_eq_some_iff.mp hname
      exact .function hnode hid hident
    · next c hnode =>
      obtain ⟨i, hid, hname⟩ := Option.bind_eq_some_iff.mp (Option.mem_toList.mp h)
      obtain ⟨ident, hident, rfl⟩ := identifierName?_eq_some_iff.mp hname
      exact .classLike hnode hid hident
    · obtain ⟨pattern, hpattern, hname⟩ := List.mem_flatMap.mp h
      obtain ⟨kind, declarations, declarator, init, hnode, hkind, hmem, hdeclarator⟩ :=
        mem_declaredPatterns_iff.mp hpattern
      exact .declaration hnode hkind hmem hdeclarator (mem_patternNames_iff.mp hname)
  · intro h
    cases h with
    | declaration hnode hkind hmem hdeclarator hbinds =>
      simp only [declaredNames, hnode]
      exact List.mem_flatMap.mpr ⟨_, mem_declaredPatterns_iff.mpr
        ⟨_, _, _, _, hnode, hkind, hmem, hdeclarator⟩, mem_patternNames_iff.mpr hbinds⟩
    | function hnode hid hname => simp [declaredNames, hnode, hid, identifierName?, hname]
    | classLike hnode hid hname => simp [declaredNames, hnode, hid, identifierName?, hname]

theorem OwnedBy.reaches {function : NodeId} (h : t.OwnedBy function i) : t.Reaches function i := by
  induction h with
  | child hc => exact .single hc
  | inner _ _ hc ih => exact ih.tail hc

/-- The function that is found around a node is the one that the node stands in. -/
theorem Intact.enclosingFunction?_eq_some_iff (h : t.Intact root)
    (hlineage : ∀ i, t.Lineage i (t.ancestors i)) (hi : t.Reachable i) {function : NodeId} :
    t.enclosingFunction? i = some function ↔
      t.Reachable function ∧ t.isFunctionLike function = true ∧ t.OwnedBy function i := by
  constructor
  · intro hfound
    unfold enclosingFunction? at hfound
    have hway := hlineage i
    generalize t.ancestors i = above at hfound hway
    induction above generalizing i with
    | nil => cases hfound
    | cons p above ih =>
      obtain ⟨hp, hway⟩ := hway.tail
      obtain ⟨hreachable, hchild⟩ := (h.parent_eq_some_iff hi).mp hp
      rw [List.find?_cons] at hfound
      split at hfound
      · next hfunction =>
        cases hfound
        exact ⟨hreachable, hfunction, .child hchild⟩
      · next hfunction =>
        obtain ⟨hf, hisFunction, howned⟩ := ih hreachable hfound hway
        exact ⟨hf, hisFunction, .inner howned hfunction hchild⟩
  · rintro ⟨hf, hisFunction, howned⟩
    have hup : ∀ {i p}, t.parent i = some p → t.ancestors i = p :: t.ancestors p :=
      fun hp => (hlineage _).unique ((hlineage _).cons hp)
    unfold enclosingFunction?
    induction howned with
    | child hc => rw [hup (h.parent_eq hf hc), List.find?_cons, hisFunction]
    | inner howned hinner hc ih =>
      have hreachable := hf.trans howned.reaches
      rw [hup (h.parent_eq hreachable hc), List.find?_cons, hinner]
      exact ih hreachable

end Tree
end ScriptLint
