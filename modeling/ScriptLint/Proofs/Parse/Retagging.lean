import ScriptLint.Proofs.Parse.Module
import ScriptLint.Proofs.Tree.Link
import ScriptLint.Proofs.Tree.Renumber

namespace ScriptLint
namespace Tree

variable {t t' : Tree} {changed : NodeId → Prop} {id i c : NodeId} {node : Node}

theorem Targets.reaches (h : t.Targets id i) : t.Reaches id i :=
  Relation.ReflTransGen.mono (fun _ _ hj => Node.targets_subset_children _ hj) _ _ h

/-- Turning an expression into a target once more changes nothing. -/
theorem toPattern_toPattern (t : Tree) (fuel : Nat) (id : NodeId) :
    (t.toPattern fuel id).toPattern fuel id = t.toPattern fuel id := by
  induction fuel generalizing t id with
  | zero => rfl
  | succ fuel ih =>
    cases htarget : (t.node id).asTarget with
    | some node =>
      have hid := lt_size_of_asTarget htarget
      have hnode : (t.toPattern (fuel + 1) id).node id = node := by
        have hsize := (Retagged.foldl (retagged_toPattern · fuel) (t.node id).targets t).size
        rw [toPattern_succ, htarget, node_setNode, if_pos ⟨rfl, hid.trans_eq hsize.symm⟩]
      rw [toPattern_succ (t.toPattern (fuel + 1) id), hnode, Node.asTarget_of_asTarget htarget,
        Node.targets_of_asTarget htarget]
      rfl
    | none =>
      -- The node stays what it is, so the second search goes on from it as the first one did.
      have hsame : (t.toPattern (fuel + 1) id).node id = t.node id := by
        rcases (retagged_toPattern t (fuel + 1) id).node id with heq | ⟨-, heq⟩
        · exact heq
        · rw [heq, Node.retagged_of_asTarget_eq_none htarget]
      rw [toPattern_succ (t.toPattern (fuel + 1) id), hsame, htarget, toPattern_succ, htarget]
      rcases Node.targets_of_asTarget_eq_none htarget with hnil | ⟨next, hnext⟩
      · rw [hnil]
        rfl
      · rw [hnext]
        exact ih t next

/-- What was met from a node was changed, or is still met from it. -/
theorem Retagged.targets_or (h : Retagged changed t t')
    (hclosed : ∀ i j, changed i → j ∈ (t.node i).targets → changed j) (hi : t.Targets id i) :
    changed i ∨ t'.Targets id i := by
  induction hi with
  | refl => exact .inr .refl
  | @tail i j _ hj ih =>
    rcases ih with hchanged | hi
    · exact .inl (hclosed i j hchanged hj)
    · rcases h.node i with heq | ⟨hchanged, -⟩
      · exact .inr (hi.tail (by rwa [heq]))
      · exact .inl (hclosed i j hchanged hj)

/-- Nodes met from more than one of the nodes that are turned into targets are retagged by the first
of them, and left alone by the others. -/
theorem node_foldl {step : Tree → NodeId → Tree} {n : Nat}
    (hretagged : ∀ t c, Retagged (t.Targets c) t (step t c))
    (hstep : ∀ t c i, t.Bounded n c → t.Targets c i → (step t c).node i = (t.node i).retagged)
    (ids : List NodeId) (hbounded : ∀ c ∈ ids, t.Bounded n c) (hc : c ∈ ids) (hi : t.Targets c i) :
    (ids.foldl step t).node i = (t.node i).retagged := by
  induction ids generalizing t c with
  | nil => cases hc
  | cons d ids ih =>
    have hfirst := hretagged t d
    have hrest := Retagged.foldl hretagged ids (step t d)
    -- What `d` does not meet itself is met after it as before it.
    have hmet : t.Targets d i ∨ c ∈ ids ∧ (step t d).Targets c i := by
      rcases List.mem_cons.mp hc with rfl | hc
      · exact .inl hi
      · exact (hfirst.targets_or (fun _ _ hj hk => hj.tail hk) hi).imp_right fun hi => ⟨hc, hi⟩
    rw [List.foldl_cons]
    by_cases hd : t.Targets d i
    · have hnode := hstep t d i (hbounded d List.mem_cons_self) hd
      rcases hrest.node i with heq | ⟨-, heq⟩
      · rw [heq, hnode]
      · rw [heq, hnode, Node.retagged_retagged]
    · obtain ⟨hc, hi⟩ := hmet.resolve_left hd
      have hkept : (step t d).node i = t.node i :=
        (hfirst.node i).resolve_right fun h => hd h.1
      rw [ih (fun e he => (hbounded e (List.mem_cons_of_mem _ he)).of_subset hfirst.targets_subset)
        hc hi, hkept]

/-- With enough fuel every node that is met from the expression becomes a target. -/
theorem node_toPattern {n : Nat} (h : t.Bounded n id) (hi : t.Targets id i) :
    (t.toPattern n id).node i = (t.node i).retagged := by
  induction n generalizing t id i with
  | zero => exact h.elim
  | succ n ih =>
    have hall := Retagged.foldl (retagged_toPattern · n) (t.node id).targets t
    have hbelow : i ≠ id →
        ((t.node id).targets.foldl (toPattern n) t).node i = (t.node i).retagged := by
      intro hne
      rcases hi.cases_head with heq | ⟨c, hc, hi⟩
      · exact absurd heq.symm hne
      · exact node_foldl (retagged_toPattern · n) (fun t c i => ih (t := t)) _ h hc hi
    rw [toPattern_succ]
    cases htarget : (t.node id).asTarget with
    | none =>
      by_cases heq : i = id
      · rw [heq, Node.retagged_of_asTarget_eq_none htarget]
        rcases hall.node id with hsame | ⟨-, hsame⟩
        · exact hsame
        · rw [hsame, Node.retagged_of_asTarget_eq_none htarget]
      · exact hbelow heq
    | some node =>
      rw [node_setNode, hall.size]
      by_cases heq : i = id
      · have hid := lt_size_of_asTarget htarget
        rw [heq, if_pos ⟨rfl, hid⟩, Node.retagged_of_asTarget htarget]
      · rw [if_neg fun h => heq h.1.symm, hbelow heq]

/-- A node put where it already is changes nothing. -/
theorem setNode_self (h : t.node id = node) : t.setNode id node = t := by
  refine eq_of_entries rfl (entry?_setNode t id node) fun i => ?_
  rw [node_setNode]
  split
  · next hi => rw [← hi.1, h]
  · rfl

end Tree

namespace Parse

/-- The conversion with its answer, the node that takes the place of the expression. What stands
above is built from the answers for what stands below. The fuel bounds how deep that goes. -/
def retarget : Nat → NodeId → StateM Tree NodeId
  | 0, id => pure id
  | fuel + 1, id => do
    match (← get).node id with
    | .arrayExpression elements =>
      let elements ← elements.mapM fun element => element.mapM (retarget fuel)
      modify (·.setNode id (.arrayPattern elements none))
    | .objectExpression properties =>
      let properties ← properties.mapM (retarget fuel)
      modify (·.setNode id (.objectPattern properties none))
    | .property p =>
      unless p.method do
        let value ← retarget fuel p.value
        modify (·.setNode id (.property { p with value }))
    | .spreadElement argument =>
      let argument ← retarget fuel argument
      modify (·.setNode id (.restElement argument none))
    | .assignmentExpression .assign left right =>
      let left ← retarget fuel left
      modify (·.setNode id (.assignmentPattern left right))
    | _ => pure ()
    return id

section Run

variable {α β : Type} (t : Tree)

theorem run_bind (p : StateM Tree α) (f : α → StateM Tree β) :
    (p >>= f) t = f (p t).1 (p t).2 := rfl

theorem run_get : (get : StateM Tree Tree) t = (t, t) := rfl

theorem run_modify (f : Tree → Tree) : (modify f : StateM Tree PUnit) t = (⟨⟩, f t) := rfl

theorem run_pure (a : α) : (pure a : StateM Tree α) t = (a, t) := rfl

/-- Conversions that answer what they were given do so for a list as well. -/
theorem run_mapM {f : α → StateM Tree α} {step : Tree → α → Tree}
    (hf : ∀ a t, f a t = (a, step t a)) (as : List α) : as.mapM f t = (as, as.foldl step t) := by
  induction as generalizing t with
  | nil => rfl
  | cons a as ih => rw [List.mapM_cons, run_bind, hf, run_bind, ih, run_pure, List.foldl_cons]

end Run

/-- The conversion answers the node it was given. -/
theorem retarget_eq (fuel : Nat) (id : NodeId) (t : Tree) :
    retarget fuel id t = (id, t.toPattern fuel id) := by
  induction fuel generalizing id t with
  | zero => rfl
  | succ fuel ih =>
    have hsome : ∀ (element : Option NodeId) (t : Tree), element.mapM (retarget fuel) t =
        (element, element.toList.foldl (Tree.toPattern fuel) t) := by
      rintro (_ | c) t
      · rfl
      · exact congrArg (fun r => (some r.1, r.2)) (ih c t)
    rw [retarget, run_bind, run_get, Tree.toPattern]
    cases hnode : t.node id with
    | arrayExpression elements =>
      simp only [run_bind, run_mapM t hsome, run_modify, run_pure]
      rw [List.foldl_filterMap]
      congr 3
      funext t element
      cases element <;> rfl
    | objectExpression properties => simp only [run_bind, run_mapM t ih, run_modify, run_pure]
    | property p =>
      simp only
      split
      · rfl
      · -- The value is where it was, so the node is written back as it is.
        have hkept : (t.toPattern fuel p.value).node id = .property p := by
          rcases (Tree.retagged_toPattern t fuel p.value).node id with heq | ⟨-, heq⟩
          · rw [heq, hnode]
          · rw [heq, hnode, Node.retagged_of_asTarget_eq_none rfl]
        simp only [run_bind, ih, run_modify, run_pure]
        rw [Tree.setNode_self hkept]
    | spreadElement argument => simp only [run_bind, ih, run_modify, run_pure]
    | assignmentExpression operator left right =>
      cases operator <;> simp only [run_bind, ih, run_modify, run_pure]
    | _ => simp only [run_pure]

/-- The parsers of expressions and of their parts. -/
inductive ReadsExpression (g : Grammar) : Parser NodeId → Prop
  | expression : ReadsExpression g (Parse.expression g)
  | assignment : ReadsExpression g (Parse.assignment g)
  | plainAssignment : ReadsExpression g (Parse.plainAssignment g)
  | arrowFunction : ReadsExpression g (Parse.arrowFunction g)
  | conditional : ReadsExpression g (Parse.conditional g)
  | binary (least : Precedence) : ReadsExpression g (Parse.binary g least)
  | unary : ReadsExpression g (Parse.unary g)
  | unaryOperand : ReadsExpression g (Parse.unaryOperand g)
  | postfixExpression : ReadsExpression g (Parse.postfixExpression g)
  | leftHandSide : ReadsExpression g (Parse.leftHandSide g)
  | newExpression : ReadsExpression g (Parse.newExpression g)
  | primary : ReadsExpression g (Parse.primary g)
  | parenthesized : ReadsExpression g (Parse.parenthesized g)
  | arrayLiteral : ReadsExpression g (Parse.arrayLiteral g)
  | objectLiteral : ReadsExpression g (Parse.objectLiteral g)
  | template : ReadsExpression g (Parse.template g)
  | functionExpression : ReadsExpression g (Parse.functionExpression g)
  | classExpression : ReadsExpression g (Parse.classLike g true)
  | spreadOrAssignment : ReadsExpression g (Parse.spreadOrAssignment g)

variable {n : Nat} {p : Parser NodeId} {s₀ s : State} {id : NodeId} {t t' : Tree}

theorem ReadsExpression.grows {g : Grammar} (h : ReadsExpression g p) (hg : g.Sound) :
    GrowsNode p := by
  cases h with
  | expression => exact grows_expression hg
  | assignment => exact grows_assignment hg
  | plainAssignment => exact grows_plainAssignment hg
  | arrowFunction => exact grows_arrowFunction hg
  | conditional => exact grows_conditional hg
  | binary least => exact grows_binary hg least
  | unary => exact grows_unary hg
  | unaryOperand => exact grows_unaryOperand hg
  | postfixExpression => exact grows_postfixExpression hg
  | leftHandSide => exact grows_leftHandSide hg
  | newExpression => exact grows_newExpression hg
  | primary => exact grows_primary hg
  | parenthesized => exact grows_parenthesized hg
  | arrayLiteral => exact grows_arrayLiteral hg
  | objectLiteral => exact grows_objectLiteral hg
  | template => exact grows_template hg
  | functionExpression => exact grows_functionExpression hg
  | classExpression => exact grows_classLike hg true
  | spreadOrAssignment => exact grows_spreadOrAssignment hg

/-- In the tree of an expression that was parsed no chain of targets outlasts the fuel. -/
theorem ReadsExpression.bounded (hp : ReadsExpression (Grammar.upTo n) p) (hs : s₀.Ready)
    (h : p s₀ = (.ok id, s)) : s.tree.Bounded s.tree.size id := by
  have hrun := hp.grows (Grammar.sound_upTo n) s₀
  rw [Leads, h] at hrun
  obtain ⟨f, hroots, -, hsown⟩ := hrun.sown hs
  exact hsown.bounded (hroots ▸ List.mem_singleton_self id)

/-- The second tree is the first one with the expression `id` as the target of an assignment. -/
structure Retargets (id : NodeId) (t t' : Tree) : Prop where
  run : ∀ s, s.tree = t → toPattern id s = (.ok (), { s with tree := t' })
  again : ∀ s, s.tree = t' → toPattern id s = (.ok (), s)
  answer : ∀ fuel, t.size ≤ fuel → retarget fuel id t = (id, t')
  size : t'.size = t.size
  root : t'.root = t.root
  range : ∀ i, t'.range i = t.range i
  parent : ∀ i, t'.parent i = t.parent i
  children : ∀ i, t'.children i = t.children i
  outside : ∀ i, ¬ t.Reaches id i → t'.entry? i = t.entry? i
  other : ∀ i, ¬ t.Targets id i → t'.entry? i = t.entry? i
  target : ∀ i, t.Targets id i → t'.node i = (t.node i).retagged

theorem retargets_of_bounded (h : t.Bounded t.size id) :
    Retargets id t (t.toPattern t.size id) where
  run s hs := by
    rw [← hs]
    rfl
  again s hs := by
    have hsize : s.tree.size = t.size := by
      rw [hs, (Tree.retagged_toPattern t t.size id).size]
    change (Except.ok (), { s with tree := s.tree.toPattern s.tree.size id }) = _
    rw [hsize, hs, Tree.toPattern_toPattern, ← hs]
  answer fuel hle := by rw [retarget_eq, Tree.toPattern_fuel h hle]
  size := (Tree.retagged_toPattern t t.size id).size
  root := (Tree.retagged_toPattern t t.size id).root
  range := (Tree.retagged_toPattern t t.size id).range
  parent := (Tree.retagged_toPattern t t.size id).parent
  children := (Tree.retagged_toPattern t t.size id).children
  outside i hi := (Tree.retagged_toPattern t t.size id).entry?_eq fun h => hi h.reaches
  other i hi := (Tree.retagged_toPattern t t.size id).entry?_eq hi
  target i hi := Tree.node_toPattern h hi

/-- An expression that was parsed is turned into a target by nothing but other kinds of nodes: the
conversion answers its node, every node keeps its range, its parent and its children, those that do
not stand below the expression stay what they are, and the conversion has nothing left to do. -/
theorem retargets_of_expression (hp : ReadsExpression (Grammar.upTo n) p) (hs : s₀.Ready)
    (h : p s₀ = (.ok id, s)) : Retargets id s.tree (s.tree.toPattern s.tree.size id) :=
  retargets_of_bounded (hp.bounded hs h)

theorem ready_of_start {source : List Char} (h : Parse.start source = .ok s) : s.Ready := by
  unfold Parse.start at h
  cases htokens : tokenize source with
  | error errors => simp [htokens, bind, Except.bind] at h
  | ok tokens =>
    simp only [htokens, bind, Except.bind, pure, Except.pure, Except.ok.injEq] at h
    subst h
    exact State.ready_of_placed (tokenize_placed htokens) rfl rfl

theorem exists_ok_of_any {ε α : Type} {x : Except ε α} {test : α → Bool}
    (h : x.toOption.any test = true) : ∃ a, x = .ok a ∧ test a = true := by
  cases x with
  | error e => cases h
  | ok a => exact ⟨a, rfl, h⟩

/-- An array with an object and a spread in it becomes a pattern. -/
theorem retargets_of_expression_array :
    ∃ s₀ id s, Parse.start "[a, \x7b b: [c], d() \x7b\x7d \x7d, ...e]".toList = .ok s₀ ∧ s₀.Ready ∧
      conditional (Grammar.upTo 16) s₀ = (.ok id, s) ∧
      Retargets id s.tree (s.tree.toPattern s.tree.size id) ∧
      (s.tree.toPattern s.tree.size id).node id = (s.tree.node id).retagged ∧
      (s.tree.node id).retagged ≠ s.tree.node id := by
  have hrun : (Parse.start "[a, \x7b b: [c], d() \x7b\x7d \x7d, ...e]".toList).toOption.any
      (fun s₀ => (conditional (Grammar.upTo 16) s₀).1.toOption.any fun id =>
        ((conditional (Grammar.upTo 16) s₀).2.tree.node id).asTarget.isSome) = true := by
    decide +kernel
  obtain ⟨s₀, hstart, hrun⟩ := exists_ok_of_any hrun
  obtain ⟨id, hid, hrun⟩ := exists_ok_of_any hrun
  obtain ⟨target, htarget⟩ := Option.isSome_iff_exists.mp hrun
  have hready := ready_of_start hstart
  have hread : conditional (Grammar.upTo 16) s₀ = (.ok id, (conditional (Grammar.upTo 16) s₀).2) :=
    Prod.ext hid rfl
  have hretargets := retargets_of_expression .conditional hready hread
  refine ⟨s₀, id, _, hstart, hready, hread, hretargets, hretargets.target id .refl, ?_⟩
  intro hsame
  have hagain := Node.asTarget_of_asTarget htarget
  rw [← Node.retagged_of_asTarget htarget, hsame, htarget] at hagain
  cases hagain

end Parse
end ScriptLint
