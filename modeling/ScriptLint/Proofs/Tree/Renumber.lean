import ScriptLint.Proofs.Tree.Forest
import ScriptLint.Proofs.Tree.Retag
import Mathlib.Data.List.Perm.Subperm

namespace ScriptLint

/-- Data that names nodes, and the same data with other names for them. -/
class Renumber (α : Type) where
  renumber : (NodeId → NodeId) → α → α

export Renumber (renumber)

variable {α β : Type} (f : NodeId → NodeId)

instance : Renumber NodeId := ⟨fun f id => f id⟩
instance : Renumber Unit := ⟨fun _ a => a⟩
instance : Renumber Bool := ⟨fun _ b => b⟩
instance [Renumber α] : Renumber (Option α) := ⟨fun f => Option.map (renumber f)⟩
instance [Renumber α] : Renumber (List α) := ⟨fun f => List.map (renumber f)⟩
instance [Renumber α] [Renumber β] : Renumber (α × β) :=
  ⟨fun f => Prod.map (renumber f) (renumber f)⟩

namespace Node

/-- The node that names other nodes in the same fields. -/
def renumber : Node → Node
  | .program body => .program (body.map f)
  | .expressionStatement expression => .expressionStatement (f expression)
  | .blockStatement body => .blockStatement (body.map f)
  | .variableDeclaration kind declarations => .variableDeclaration kind (declarations.map f)
  | .variableDeclarator id init => .variableDeclarator (f id) (init.map f)
  | .functionDeclaration g => .functionDeclaration
      { g with id := g.id.map f, params := g.params.map f, body := f g.body,
               returnType := g.returnType.map f }
  | .returnStatement argument => .returnStatement (argument.map f)
  | .ifStatement test consequent alternate =>
    .ifStatement (f test) (f consequent) (alternate.map f)
  | .forStatement init test update body =>
    .forStatement (init.map f) (test.map f) (update.map f) (f body)
  | .forInStatement left right body => .forInStatement (f left) (f right) (f body)
  | .forOfStatement left right body isAwait => .forOfStatement (f left) (f right) (f body) isAwait
  | .whileStatement test body => .whileStatement (f test) (f body)
  | .doWhileStatement body test => .doWhileStatement (f body) (f test)
  | .breakStatement label => .breakStatement (label.map f)
  | .continueStatement label => .continueStatement (label.map f)
  | .labeledStatement label body => .labeledStatement (f label) (f body)
  | .throwStatement argument => .throwStatement (f argument)
  | .tryStatement block handler finalizer =>
    .tryStatement (f block) (handler.map f) (finalizer.map f)
  | .catchClause param body => .catchClause (param.map f) (f body)
  | .switchStatement discriminant cases => .switchStatement (f discriminant) (cases.map f)
  | .switchCase test consequent => .switchCase (test.map f) (consequent.map f)
  | .classDeclaration c => .classDeclaration
      { id := c.id.map f, superClass := c.superClass.map f, body := f c.body }
  | .classExpression c => .classExpression
      { id := c.id.map f, superClass := c.superClass.map f, body := f c.body }
  | .classBody body => .classBody (body.map f)
  | .methodDefinition method => .methodDefinition
      { method with key := f method.key, value := f method.value }
  | .propertyDefinition p => .propertyDefinition
      { p with key := f p.key, value := p.value.map f, typeAscription := p.typeAscription.map f }
  | .importDeclaration specifiers source => .importDeclaration (specifiers.map f) (f source)
  | .importSpecifier imported localName => .importSpecifier (f imported) (f localName)
  | .importDefaultSpecifier localName => .importDefaultSpecifier (f localName)
  | .importNamespaceSpecifier localName => .importNamespaceSpecifier (f localName)
  | .exportNamedDeclaration declaration specifiers source =>
    .exportNamedDeclaration (declaration.map f) (specifiers.map f) (source.map f)
  | .exportDefaultDeclaration declaration => .exportDefaultDeclaration (f declaration)
  | .exportAllDeclaration exported source => .exportAllDeclaration (exported.map f) (f source)
  | .exportSpecifier localName exported => .exportSpecifier (f localName) (f exported)
  | .identifier ident => .identifier
      { ident with typeAscription := ident.typeAscription.map f }
  | .templateLiteral quasis expressions => .templateLiteral (quasis.map f) (expressions.map f)
  | .taggedTemplateExpression tag quasi => .taggedTemplateExpression (f tag) (f quasi)
  | .arrayExpression elements => .arrayExpression (elements.map (Option.map f))
  | .objectExpression properties => .objectExpression (properties.map f)
  | .property p => .property { p with key := f p.key, value := f p.value }
  | .spreadElement argument => .spreadElement (f argument)
  | .functionExpression g => .functionExpression
      { g with id := g.id.map f, params := g.params.map f, body := f g.body,
               returnType := g.returnType.map f }
  | .arrowFunctionExpression g => .arrowFunctionExpression
      { g with params := g.params.map f, body := f g.body, returnType := g.returnType.map f }
  | .unaryExpression operator argument => .unaryExpression operator (f argument)
  | .updateExpression operator isPrefix argument =>
    .updateExpression operator isPrefix (f argument)
  | .binaryExpression operator left right => .binaryExpression operator (f left) (f right)
  | .logicalExpression operator left right => .logicalExpression operator (f left) (f right)
  | .assignmentExpression operator left right => .assignmentExpression operator (f left) (f right)
  | .conditionalExpression test consequent alternate =>
    .conditionalExpression (f test) (f consequent) (f alternate)
  | .callExpression callee arguments optional =>
    .callExpression (f callee) (arguments.map f) optional
  | .newExpression callee arguments => .newExpression (f callee) (arguments.map f)
  | .memberExpression member => .memberExpression
      { member with object := f member.object, property := f member.property }
  | .chainExpression expression => .chainExpression (f expression)
  | .sequenceExpression expressions => .sequenceExpression (expressions.map f)
  | .awaitExpression argument => .awaitExpression (f argument)
  | .yieldExpression argument delegate => .yieldExpression (argument.map f) delegate
  | .parenthesizedExpression expression => .parenthesizedExpression (f expression)
  | .arrayPattern elements ascription =>
    .arrayPattern (elements.map (Option.map f)) (ascription.map f)
  | .objectPattern properties ascription =>
    .objectPattern (properties.map f) (ascription.map f)
  | .assignmentPattern left right => .assignmentPattern (f left) (f right)
  | .restElement argument ascription => .restElement (f argument) (ascription.map f)
  | .asExpression expression type => .asExpression (f expression) (f type)
  | .nonNullExpression expression => .nonNullExpression (f expression)
  | .typeAscription type => .typeAscription (f type)
  | .typeReference typeName arguments => .typeReference (f typeName) (arguments.map f)
  | .qualifiedName left right => .qualifiedName (f left) (f right)
  | .arrayType elementType => .arrayType (f elementType)
  | .indexedAccessType objectType indexType => .indexedAccessType (f objectType) (f indexType)
  | .unionType types => .unionType (types.map f)
  | .intersectionType types => .intersectionType (types.map f)
  | .tupleType elementTypes => .tupleType (elementTypes.map f)
  | .literalType value => .literalType (f value)
  | .typeLiteral members => .typeLiteral (members.map f)
  | .propertySignature p => .propertySignature
      { p with key := f p.key, typeAscription := p.typeAscription.map f }
  | .methodSignature key params returnType =>
    .methodSignature (f key) (params.map f) (returnType.map f)
  | .functionType params returnType => .functionType (params.map f) (f returnType)
  | .typeQuery exprName => .typeQuery (f exprName)
  | .typeOperator operator type => .typeOperator operator (f type)
  | .declareFunction g => .declareFunction
      { g with id := g.id.map f, params := g.params.map f, returnType := g.returnType.map f }
  | .typeAliasDeclaration id type => .typeAliasDeclaration (f id) (f type)
  | .interfaceDeclaration id parents body =>
    .interfaceDeclaration (f id) (parents.map f) (body.map f)
  | node => node

theorem renumber_id (node : Node) : node.renumber id = node := by
  cases node <;> simp [renumber]

theorem filterMap_map (f : NodeId → NodeId) (elements : List (Option NodeId)) :
    (elements.map (Option.map f)).filterMap (fun id => id) =
      (elements.filterMap fun id => id).map f := by
  rw [List.filterMap_map, List.map_filterMap]
  rfl

theorem targets_renumber (node : Node) : (node.renumber f).targets = node.targets.map f := by
  cases node with
  | arrayExpression elements => exact filterMap_map f elements
  | property p =>
    simp only [renumber, targets]
    split <;> rfl
  | assignmentExpression operator left right => cases operator <;> rfl
  | _ => rfl

theorem asTarget_renumber (node : Node) :
    (node.renumber f).asTarget = node.asTarget.map (renumber f) := by
  cases node with
  | assignmentExpression operator left right => cases operator <;> rfl
  | _ => rfl

/-- Two nodes that are the same but for the names of nodes, and for the spelling of literals unless
that counts. -/
def Twin (verbatim : Bool) (f : NodeId → NodeId) (node node' : Node) : Prop :=
  node' = node.renumber f ∨
    verbatim = false ∧ ∃ value raw raw', node = .literal value raw ∧ node' = .literal value raw'

theorem Twin.targets {verbatim : Bool} {f : NodeId → NodeId} {node node' : Node}
    (h : node.Twin verbatim f node') : node'.targets = node.targets.map f := by
  rcases h with rfl | ⟨-, value, raw, raw', rfl, rfl⟩
  · exact node.targets_renumber f
  · rfl

theorem Twin.asTarget {verbatim : Bool} {f : NodeId → NodeId} {node node' : Node}
    (h : node.Twin verbatim f node') : node'.asTarget = node.asTarget.map (renumber f) := by
  rcases h with rfl | ⟨-, value, raw, raw', rfl, rfl⟩
  · exact node.asTarget_renumber f
  · rfl

end Node

namespace Tree

/-- The second tree holds the nodes of the first one after `base` others. -/
structure Twin (verbatim : Bool) (base : Nat) (t t' : Tree) : Prop where
  size : t'.size = base + t.size
  node : ∀ id, (t.node id).Twin verbatim (base + ·) (t'.node (base + id))

theorem node_alloc (t : Tree) (node : Node) (range : Option Span) (id : NodeId) :
    (t.alloc node range).2.node id = if id = t.size then node else t.node id := by
  simp only [Tree.node, entry?_alloc]
  split <;> rfl

theorem node_setRange (t : Tree) (target : NodeId) (range : Option Span) (id : NodeId) :
    (t.setRange target range).node id = t.node id := by
  simp only [Tree.node, setRange, entry?_modify]
  split
  · cases t.entry? id <;> rfl
  · rfl

variable {verbatim : Bool} {base : Nat} {t t' : Tree}

theorem Twin.alloc (h : Twin verbatim base t t') {node node' : Node} {range range' : Option Span}
    (hnode : node.Twin verbatim (base + ·) node') :
    Twin verbatim base (t.alloc node range).2 (t'.alloc node' range').2 where
  size := by
    simp [h.size]
    omega
  node id := by
    rw [node_alloc, node_alloc, h.size]
    by_cases heq : id = t.size
    · simpa [heq] using hnode
    · simpa [heq] using h.node id

theorem Twin.setNode (h : Twin verbatim base t t') {node node' : Node} (target : NodeId)
    (hnode : node.Twin verbatim (base + ·) node') :
    Twin verbatim base (t.setNode target node) (t'.setNode (base + target) node') where
  size := by simpa [Tree.setNode] using h.size
  node id := by
    rw [node_setNode, node_setNode, h.size]
    by_cases heq : target = id ∧ id < t.size
    · simpa [heq] using hnode
    · have hne : ¬(base + target = base + id ∧ base + id < base + t.size) := by
        rintro ⟨hid, hlt⟩
        exact heq ⟨Nat.add_left_cancel hid, Nat.lt_of_add_lt_add_left hlt⟩
      rw [if_neg heq, if_neg hne]
      exact h.node id

theorem Twin.foldl {step step' : Tree → NodeId → Tree}
    (hstep : ∀ t t' id, Twin verbatim base t t' →
      Twin verbatim base (step t id) (step' t' (base + id)))
    (h : Twin verbatim base t t') (ids : List NodeId) :
    Twin verbatim base (ids.foldl step t) ((ids.map (base + ·)).foldl step' t') := by
  induction ids generalizing t t' with
  | nil => exact h
  | cons id ids ih => exact ih (hstep t t' id h)

theorem Twin.toPattern_same (h : Twin verbatim base t t') (fuel : Nat) (id : NodeId) :
    Twin verbatim base (t.toPattern fuel id) (t'.toPattern fuel (base + id)) := by
  induction fuel generalizing t t' id with
  | zero => exact h
  | succ fuel ih =>
    have hall := h.foldl (fun t t' id h => ih h id) (t.node id).targets
    rw [toPattern_succ, toPattern_succ, (h.node id).targets, (h.node id).asTarget]
    cases (t.node id).asTarget with
    | none => exact hall
    | some node => exact hall.setNode id (.inl rfl)

/-- No chain of targets below a node has more than `n` nodes. -/
def Bounded (t : Tree) : Nat → NodeId → Prop
  | 0, _ => False
  | n + 1, id => ∀ c ∈ (t.node id).targets, t.Bounded n c

theorem Bounded.mono {n m : Nat} {id : NodeId} (h : t.Bounded n id) (hle : n ≤ m) :
    t.Bounded m id := by
  induction n generalizing m id with
  | zero => exact h.elim
  | succ n ih =>
    obtain ⟨m, rfl⟩ := Nat.exists_eq_add_one_of_ne_zero (show m ≠ 0 by omega)
    exact fun c hc => ih (h c hc) (by omega)

theorem Bounded.of_subset {n : Nat} {id : NodeId} (h : t.Bounded n id)
    (hsub : ∀ i, (t'.node i).targets ⊆ (t.node i).targets) : t'.Bounded n id := by
  induction n generalizing id with
  | zero => exact h
  | succ n ih => exact fun c hc => ih (h c (hsub id hc))

theorem Twin.bounded (h : Twin verbatim base t t') {n : Nat} {id : NodeId}
    (hbounded : t.Bounded n id) : t'.Bounded n (base + id) := by
  induction n generalizing id with
  | zero => exact hbounded
  | succ n ih =>
    intro c hc
    rw [(h.node id).targets, List.mem_map] at hc
    obtain ⟨d, hd, rfl⟩ := hc
    exact ih (hbounded d hd)

/-- More fuel than the chain of targets is long changes nothing. -/
theorem toPattern_fuel {n fuel : Nat} {id : NodeId} (h : t.Bounded n id) (hle : n ≤ fuel) :
    t.toPattern fuel id = t.toPattern n id := by
  induction n generalizing t fuel id with
  | zero => exact h.elim
  | succ n ih =>
    obtain ⟨fuel, rfl⟩ := Nat.exists_eq_add_one_of_ne_zero (show fuel ≠ 0 by omega)
    have hfold : ∀ (ids : List NodeId) (t : Tree), (∀ c ∈ ids, t.Bounded n c) →
        ids.foldl (toPattern fuel) t = ids.foldl (toPattern n) t := by
      intro ids
      induction ids with
      | nil => exact fun _ _ => rfl
      | cons c ids ihids =>
        intro t hbounded
        rw [List.foldl_cons, List.foldl_cons, ih (hbounded c List.mem_cons_self) (by omega)]
        refine ihids _ fun d hd => ?_
        exact (hbounded d (List.mem_cons_of_mem _ hd)).of_subset
          (retagged_toPattern t n c).targets_subset
    rw [toPattern_succ, toPattern_succ, hfold _ t h]

theorem Twin.toPattern (h : Twin verbatim base t t') {n fuel fuel' : Nat} {id : NodeId}
    (hbounded : t.Bounded n id) (hle : n ≤ fuel) (hle' : n ≤ fuel') :
    Twin verbatim base (t.toPattern fuel id) (t'.toPattern fuel' (base + id)) := by
  rw [toPattern_fuel hbounded hle, toPattern_fuel (h.bounded hbounded) hle']
  exact h.toPattern_same n id

end Tree

/-- Targets are children, so a forest that the tree holds bounds their chains. -/
theorem Forest.Planted.bounded {t : Tree} {text : List Char} {lo hi : Nat} {f : Forest}
    (h : f.Planted t text lo hi) : ∀ id ∈ f.roots, t.Bounded f.preorder.length id := by
  induction h with
  | nil => simp [roots]
  | node hentry hchildren _ _ _ _ _ _ _ ihkids ihrest =>
    intro id hid
    simp only [preorder, List.length_cons, List.length_append]
    rcases List.mem_cons.mp hid with rfl | hid
    · refine Tree.Bounded.mono (n := _ + 1) (fun c hc => ?_) (Nat.succ_le_succ (Nat.le_add_right _ _))
      rw [Tree.node_of_entry hentry] at hc
      refine ihkids c ?_
      rw [← hchildren]
      exact Node.targets_subset_children _ hc
    · exact (ihrest id hid).mono (by omega)

/-- No chain of targets in a forest that a tree holds has more nodes than the tree. -/
theorem Forest.Sown.bounded {t t' : Tree} {text : List Char} {lo hi : Nat} {f : Forest}
    (h : f.Sown t t' text lo hi) {id : NodeId} (hid : id ∈ f.roots) : t'.Bounded t'.size id := by
  refine (h.planted.bounded id hid).mono ?_
  have hsub : f.preorder ⊆ List.range t'.size := fun i hi =>
    List.mem_range.mpr (h.planted.lt_size i hi)
  simpa using (List.subperm_of_subset h.nodup hsub).length_le

end ScriptLint
