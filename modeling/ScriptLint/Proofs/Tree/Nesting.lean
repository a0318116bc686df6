import ScriptLint.Parse.Precedence
import ScriptLint.Proofs.Token.Placed
import ScriptLint.Proofs.Tree.Link
import ScriptLint.Proofs.Tree.Renumber
import ScriptLint.Tree.Shape

namespace ScriptLint

/-- Whether the operator could be what is left of a longer mark, which stands right before it. -/
def InfixOperator.isAngled (operator : InfixOperator) : Bool :=
  operator.spelling.toList.head? == some '>'

namespace Node

/-- An operator between two operands. -/
def infix? : Node → Option (InfixOperator × NodeId × NodeId)
  | .binaryExpression operator left right => some (.binary operator, left, right)
  | .logicalExpression operator left right => some (.logical operator, left, right)
  | _ => none

theorem children_of_infix? {node : Node} {operator : InfixOperator} {left right : NodeId}
    (h : node.infix? = some (operator, left, right)) : node.children = [left, right] := by
  unfold infix? at h
  split at h <;> cases h <;> rfl

/-- What an access or a call is applied to. -/
def applied? : Node → Option NodeId
  | .memberExpression member => some member.object
  | .callExpression callee _ _ => some callee
  | _ => none

theorem mem_children_of_applied? {node : Node} {object : NodeId}
    (h : node.applied? = some object) : object ∈ node.children := by
  unfold applied? at h
  split at h <;> cases h <;> simp [children]

/-- Strings and templates, which are written between quotes. -/
def isQuoted : Node → Bool
  | .literal (.string _) _ | .templateLiteral _ _ => true
  | _ => false

/-- The tokens that a string and a template are made of. -/
inductive Quotes : Node → Token → Prop where
  | string (value raw : String) : Quotes (.literal (.string value) raw) (.string value)
  | template (quasis expressions : List NodeId) (parts : List TemplatePart) :
      Quotes (.templateLiteral quasis expressions) (.template parts)

/-- Nodes that are written between a pair of brackets of their own. -/
def isBracket : Node → Bool
  | .blockStatement _ | .parenthesizedExpression _ | .arrayExpression _ | .objectExpression _
  | .arrayPattern _ _ | .objectPattern _ _ | .tupleType _ | .typeLiteral _ => true
  | _ => false

def isPattern : Node → Bool
  | .arrayPattern _ _ | .objectPattern _ _ => true
  | _ => false

/-- The children of a node that bind names: variables, parameters, what a `catch` takes, and the
parts of a pattern that is bound itself. -/
def bindings (bound : Bool) : Node → List NodeId
  | .variableDeclarator id _ => [id]
  | .functionDeclaration f | .functionExpression f => f.params
  | .arrowFunctionExpression f => f.params
  | .declareFunction f => f.params
  | .methodSignature _ params _ => params
  | .functionType params _ => params
  | .catchClause param _ => param.toList
  | .arrayPattern elements _ => if bound then elements.filterMap id else []
  | .objectPattern properties _ => if bound then properties else []
  | .property p => if bound then [p.value] else []
  | .restElement argument _ => if bound then [argument] else []
  | .assignmentPattern left _ => if bound then [left] else []
  | _ => []

/-- Whether a child of the node is bound, if the node is or is not. -/
def binds (node : Node) (bound : Bool) (child : NodeId) : Bool :=
  (node.bindings bound).contains child

/-- What a class that is declared extends. -/
def heritage? : Node → Option NodeId
  | .classDeclaration c => c.superClass
  | _ => none

/-- The room that a node takes up. -/
def cost (node : Node) (bound : Bool) : Nat :=
  if node.isBracket && !(bound && node.isPattern) then 1 else 0

/-- The room that is made on the way to a child. -/
def credit (node : Node) (child : NodeId) : Nat := if node.heritage? = some child then 1 else 0

theorem binds_iff {node : Node} {bound : Bool} {child : NodeId} :
    node.binds bound child = true ↔ child ∈ node.bindings bound := by
  simp [binds]

/-- A bracket takes up room or is a pattern that is bound. -/
theorem isBracket_eq (node : Node) (bound : Bool) :
    (if node.isBracket then 1 else 0) = node.cost bound + (bound && node.isPattern).toNat := by
  cases node <;> cases bound <;> rfl

theorem cost_mono (node : Node) {bound bound' : Bool} (h : bound = true → bound' = true) :
    node.cost bound' ≤ node.cost bound := by
  cases bound <;> cases bound' <;> simp_all [cost]
  split <;> simp_all

theorem binds_mono (node : Node) {bound bound' : Bool} (h : bound = true → bound' = true)
    {child : NodeId} (hbinds : node.binds bound child = true) : node.binds bound' child = true := by
  rw [binds_iff] at hbinds ⊢
  cases bound <;> cases bound' <;> simp_all
  cases node <;> simp_all [bindings]

/-- The second node takes up no more room than the first one and binds no less, and it is no name,
no operator, no access or call and no string or template that the first one is not. -/
structure Eases (node node' : Node) : Prop where
  children : node'.children = node.children
  cost : ∀ bound, node'.cost bound ≤ node.cost bound
  binds : ∀ bound child, node.binds bound child = true → node'.binds bound child = true
  credit : ∀ child, node.credit child ≤ node'.credit child
  name : ∀ ident, node' = .identifier ident → node = .identifier ident
  operator : ∀ found, node'.infix? = some found → node.infix? = some found
  applied : ∀ object, node'.applied? = some object → node.applied? = some object
  quoted : node'.isQuoted = true → node' = node

theorem Eases.refl (node : Node) : node.Eases node :=
  ⟨rfl, fun _ => le_rfl, fun _ _ => id, fun _ => le_rfl, fun _ => id, fun _ => id, fun _ => id,
    fun _ => rfl⟩

/-- A node that becomes a target takes up the room that it took up. -/
theorem eases_of_asTarget {node target : Node} (h : node.asTarget = some target) :
    node.Eases target := by
  unfold asTarget at h
  split at h <;> cases h <;>
    exact ⟨by simp [children], fun bound => by cases bound <;> simp [cost, isBracket, isPattern],
      fun _ _ => by simp [binds, bindings], fun _ => le_rfl, by simp, by simp [infix?],
      by simp [applied?], by simp [isQuoted]⟩

theorem eases_retagged (node : Node) : node.Eases node.retagged := by
  cases h : node.asTarget with
  | none =>
    rw [retagged_of_asTarget_eq_none h]
    exact .refl node
  | some target =>
    rw [retagged_of_asTarget h]
    exact eases_of_asTarget h

end Node

namespace Tree

variable {t t' : Tree} {text : List Char} {bound bound' : Bool} {room room' : Nat}
  {i j : NodeId}

/-- If the node is a name, the text at its range is that name. -/
def Spelled (t : Tree) (text : List Char) (i : NodeId) : Prop :=
  ∀ ident, t.node i = .identifier ident →
    ∃ r, t.range i = some r ∧ WordAt text r ident.name

/-- If the node is a string or a template, the text at its range is read as the token that it is
made of. -/
def Quoted (t : Tree) (text : List Char) (i : NodeId) : Prop :=
  (t.node i).isQuoted = true →
    ∃ r token, t.range i = some r ∧ (t.node i).Quotes token ∧ TokenAt text r token

/-- Between two nodes stands the operator, with gaps around it. -/
def Between (t : Tree) (text : List Char) (operator : InfixOperator) (left right : NodeId) : Prop :=
  ∃ l r before after, t.range left = some l ∧ t.range right = some r ∧
    slice? text l.stop r.start = some (before ++ operator.spelling.toList ++ after) ∧
    Skipped false before ∧ Skipped false after

/-- If the node is an operator, it is written between its operands. -/
def Joined (t : Tree) (text : List Char) (i : NodeId) : Prop :=
  ∀ operator left right, (t.node i).infix? = some (operator, left, right) →
    operator.isAngled = false → t.Between text operator left right

theorem joined_of_infix? (h : (t.node i).infix? = none) : t.Joined text i := by
  simp [Joined, h]

theorem quoted_of_isQuoted (h : (t.node i).isQuoted = false) : t.Quoted text i := by
  simp [Quoted, h]

/-- If the node is an access or a call, it begins with what it is applied to and goes on after it. -/
def Prolongs (t : Tree) (i : NodeId) : Prop :=
  ∀ object, (t.node i).applied? = some object → ∃ r q, t.range i = some r ∧
    t.range object = some q ∧ q.start = r.start ∧ q.stop < r.stop

theorem prolongs_of_applied? (h : (t.node i).applied? = none) : t.Prolongs i := by
  simp [Prolongs, h]

theorem Between.congr {operator : InfixOperator} {left right : NodeId}
    (h : t.Between text operator left right) (hleft : t'.range left = t.range left)
    (hright : t'.range right = t.range right) : t'.Between text operator left right := by
  unfold Between
  rw [hleft, hright]
  exact h

/-- The node and all below it fit into a room, names that are not bound are spelled, strings and
templates stand where they were read, operators stand between their operands, and accesses and calls
go on after what they are applied to. -/
inductive Fits (t : Tree) (text : List Char) : Bool → Nat → NodeId → Prop where
  | node {bound : Bool} {room : Nat} {i : NodeId} (inside : i < t.size)
      (spelled : bound = false → t.Spelled text i) (quoted : t.Quoted text i)
      (joined : t.Joined text i) (prolongs : t.Prolongs i) (cost : (t.node i).cost bound ≤ room)
      (children : ∀ c ∈ t.children i, Fits t text ((t.node i).binds bound c)
        (room - (t.node i).cost bound + (t.node i).credit c) c) :
      Fits t text bound room i

namespace Fits

theorem inside (h : t.Fits text bound room i) : i < t.size := by
  cases h
  assumption

theorem cost_le (h : t.Fits text bound room i) : (t.node i).cost bound ≤ room := by
  cases h
  assumption

theorem spelled (h : t.Fits text false room i) : t.Spelled text i := by
  cases h with
  | node _ spelled => exact spelled rfl

theorem quoted (h : t.Fits text bound room i) : t.Quoted text i := by
  cases h
  assumption

theorem prolongs (h : t.Fits text bound room i) : t.Prolongs i := by
  cases h
  assumption

theorem child (h : t.Fits text bound room i) {c : NodeId} (hc : c ∈ t.children i) :
    t.Fits text ((t.node i).binds bound c)
      (room - (t.node i).cost bound + (t.node i).credit c) c := by
  cases h with
  | node _ _ _ _ _ _ children => exact children c hc

/-- What fits does so with more room, and if it is bound. -/
theorem mono (h : t.Fits text bound room i) (hbound : bound = true → bound' = true)
    (hroom : room ≤ room') : t.Fits text bound' room' i := by
  induction h generalizing bound' room' with
  | @node bound room i inside spelled quoted joined prolongs cost children ih =>
    have hcost := (t.node i).cost_mono hbound
    refine .node inside (fun hfalse => spelled ?_) quoted joined prolongs
      ((hcost.trans cost).trans hroom) fun c hc => ?_
    · cases bound with
      | false => rfl
      | true => simp [hfalse] at hbound
    · exact ih c hc ((t.node i).binds_mono hbound) (by omega)

theorem more (h : t.Fits text bound room i) (hroom : room ≤ room') : t.Fits text bound room' i :=
  h.mono id hroom

/-- A name that is read could be bound as well. -/
theorem bind (h : t.Fits text bound room i) : t.Fits text true room i := h.mono (fun _ => rfl) le_rfl

/-- Nodes that stay as they are fit as before, if they lead to no others. -/
theorem congr {P : NodeId → Prop} (h : t.Fits text bound room i) (hi : P i)
    (hclosed : ∀ i, P i → ∀ c ∈ t.children i, P c)
    (hsame : ∀ i, P i → i < t.size → t'.entry? i = t.entry? i) : t'.Fits text bound room i := by
  induction h with
  | @node bound room i inside spelled quoted joined prolongs cost children ih =>
    have hentry := hsame i hi inside
    have hnode : t'.node i = t.node i := by simp only [Tree.node, hentry]
    have hrange : t'.range i = t.range i := by simp only [Tree.range, hentry]
    have hchild : ∀ c ∈ t.children i, t'.range c = t.range c := fun c hc => by
      simp only [Tree.range, hsame c (hclosed i hi c hc) (children c hc).inside]
    have hinside : i < t'.size := by
      rw [← not_le, ← entry?_eq_none_iff, hentry, entry?_eq_none_iff, not_le]
      exact inside
    refine .node hinside (fun hbound => ?_) ?_ (fun operator left right hjoins hangled => ?_)
      (fun object hobject => ?_) ?_ fun c hc => ?_
    · rw [Spelled, hnode, hrange]
      exact spelled hbound
    · rw [Quoted, hnode, hrange]
      exact quoted
    · rw [hnode] at hjoins
      have hkids : t.children i = [left, right] := Node.children_of_infix? hjoins
      exact (joined operator left right hjoins hangled).congr (hchild left (by simp [hkids]))
        (hchild right (by simp [hkids]))
    · rw [hnode] at hobject
      rw [hrange, hchild object (Node.mem_children_of_applied? hobject)]
      exact prolongs object hobject
    · rwa [hnode]
    · rw [children_congr hentry] at hc
      rw [hnode]
      exact ih c hc (hclosed i hi c hc)

theorem continues (h : t.Fits text bound room i) (ht : t.Continues t') :
    t'.Fits text bound room i :=
  h.congr (P := fun _ => True) trivial (fun _ _ _ _ => trivial) fun i _ hi => ht.kept i hi

/-- A new node fits if its children did before it was made. -/
theorem alloc {node : Node} {range : Option Span}
    (spelled : bound = false → ∀ ident, node = .identifier ident →
      ∃ r, range = some r ∧ WordAt text r ident.name)
    (quoted : node.isQuoted = true →
      ∃ r token, range = some r ∧ node.Quotes token ∧ TokenAt text r token)
    (joined : ∀ operator left right, node.infix? = some (operator, left, right) →
      operator.isAngled = false → t.Between text operator left right)
    (prolongs : ∀ object, node.applied? = some object → ∃ r q, range = some r ∧
      t.range object = some q ∧ q.start = r.start ∧ q.stop < r.stop)
    (cost : node.cost bound ≤ room)
    (children : ∀ c ∈ node.children, t.Fits text (node.binds bound c)
      (room - node.cost bound + node.credit c) c) :
    (t.alloc node range).2.Fits text bound room t.size := by
  have hentry : Tree.entry? (t.alloc node range).2 t.size = some { node, range } := by
    rw [entry?_alloc, if_pos rfl]
  have hnode := node_of_entry hentry
  have hcontinues := (Continues.refl t).alloc node range
  have hchild : ∀ c ∈ node.children, Tree.range (t.alloc node range).2 c = t.range c := fun c hc => by
    simp only [Tree.range, hcontinues.kept c (children c hc).inside]
  refine .node (by simp) (fun hbound => ?_) ?_ (fun operator left right hjoins hangled => ?_)
    (fun object hobject => ?_) (by rwa [hnode]) fun c hc => ?_
  · rw [Spelled, hnode, range_of_entry hentry]
    exact spelled hbound
  · rw [Quoted, hnode, range_of_entry hentry]
    exact quoted
  · rw [hnode] at hjoins
    have hkids := Node.children_of_infix? hjoins
    exact (joined operator left right hjoins hangled).congr (hchild left (by simp [hkids]))
      (hchild right (by simp [hkids]))
  · rw [hnode] at hobject
    rw [range_of_entry hentry, hchild object (Node.mem_children_of_applied? hobject)]
    exact prolongs object hobject
  · rw [children_of_entry hentry] at hc
    rw [hnode]
    exact (children c hc).continues hcontinues

/-- What is found below a node that fits does so too, bound or not, in some room. -/
theorem reaches (h : t.Fits text bound room i) (hj : t.Reaches i j) :
    ∃ bound room, t.Fits text bound room j := by
  induction hj with
  | refl => exact ⟨bound, room, h⟩
  | tail _ hchild ih =>
    obtain ⟨bound, room, hfits⟩ := ih
    exact ⟨_, _, hfits.child hchild⟩

end Fits

/-- Every node of the second tree eases that of the first one and stands where it stood. -/
structure Eases (t t' : Tree) : Prop where
  size : t'.size = t.size
  node : ∀ i, (t.node i).Eases (t'.node i)
  range : ∀ i, t'.range i = t.range i

theorem Relinked.eases (h : Relinked t t') : t.Eases t' where
  size := h.size
  node i := by
    rw [h.node]
    exact .refl _
  range := h.range

theorem Fits.eases (h : t.Fits text bound room i) (heases : t.Eases t') :
    t'.Fits text bound room i := by
  induction h with
  | @node bound room i inside spelled quoted joined prolongs cost children ih =>
    have hnode := heases.node i
    have hcost := hnode.cost bound
    refine .node (inside.trans_eq heases.size.symm) (fun hbound ident hident => ?_)
      (fun hquoted => ?_) (fun operator left right hjoins hangled => ?_) (fun object hobject => ?_)
      (hcost.trans cost) fun c hc => ?_
    · rw [heases.range]
      exact spelled hbound ident (hnode.name ident hident)
    · have hsame := hnode.quoted hquoted
      rw [heases.range, hsame]
      exact quoted (hsame ▸ hquoted)
    · exact (joined operator left right (hnode.operator _ hjoins) hangled).congr
        (heases.range left) (heases.range right)
    · rw [heases.range, heases.range]
      exact prolongs object (hnode.applied object hobject)
    · rw [Tree.children, hnode.children] at hc
      have hcredit := hnode.credit c
      exact (ih c hc).mono (hnode.binds bound c) (by omega)

theorem range_setNode (t : Tree) (id : NodeId) (node : Node) (i : NodeId) :
    (t.setNode id node).range i = t.range i := by
  simp only [Tree.range, setNode, entry?_modify]
  split <;> cases t.entry? i <;> rfl

/-- Expressions that become targets fit as before. -/
theorem Retagged.eases {changed : NodeId → Prop} (h : Retagged changed t t') : t.Eases t' where
  size := h.size
  node i := by
    rcases h.node i with heq | ⟨-, heq⟩
    · rw [heq]
      exact .refl _
    · rw [heq]
      exact Node.eases_retagged _
  range := h.range

/-- The number of brackets on a path. -/
def brackets (t : Tree) (path : List NodeId) : Nat := path.countP fun i => (t.node i).isBracket

/-- How often a path goes through a pattern that is bound or from a declared class to what it
extends. The first argument tells whether the first node of the path is bound. -/
def uncounted (t : Tree) : Bool → List NodeId → Nat
  | _, [] => 0
  | bound, [i] => (bound && (t.node i).isPattern).toNat
  | bound, i :: c :: rest =>
    (bound && (t.node i).isPattern).toNat + (t.node i).credit c +
      t.uncounted ((t.node i).binds bound c) (c :: rest)

/-- Each node of a path is a child of the one before it. -/
def IsPath (t : Tree) (path : List NodeId) : Prop := path.IsChain fun i c => c ∈ t.children i

instance (t : Tree) (path : List NodeId) : Decidable (t.IsPath path) :=
  inferInstanceAs (Decidable (List.IsChain _ path))

theorem brackets_cons (t : Tree) (i : NodeId) (rest : List NodeId) :
    t.brackets (i :: rest) = t.brackets rest + if (t.node i).isBracket then 1 else 0 :=
  List.countP_cons

/-- A path down from a node that fits has no more brackets than there is room, those apart that
take up none. -/
theorem Fits.brackets_le {rest : List NodeId} (h : t.Fits text bound room i)
    (hpath : t.IsPath (i :: rest)) :
    t.brackets (i :: rest) ≤ room + t.uncounted bound (i :: rest) := by
  induction rest generalizing i bound room with
  | nil =>
    have hcost := h.cost_le
    rw [brackets_cons, (t.node i).isBracket_eq bound]
    simp only [brackets, List.countP_nil, uncounted]
    omega
  | cons c rest ih =>
    obtain ⟨hchild, hpath⟩ := List.isChain_cons_cons.mp hpath
    have hcost := h.cost_le
    have hrest := ih (h.child hchild) hpath
    rw [brackets_cons, (t.node i).isBracket_eq bound]
    simp only [uncounted]
    omega

end Tree
end ScriptLint
