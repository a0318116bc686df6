import ScriptLint.Proofs.Lint.Ending
import ScriptLint.Proofs.Lint.Rebinding

namespace ScriptLint

namespace Tree

variable {t : Tree} {r i call last root : NodeId} {arguments : List NodeId}
  {inner : List NodeId} {groups : List (List NodeId)}

/-- The call is `receiver.concat(arguments)`, with a dot and without a `?.`. -/
def IsConcatCall (t : Tree) (call receiver : NodeId) (arguments : List NodeId) : Prop :=
  ∃ callee member, t.node call = .callExpression callee arguments false ∧
    t.node callee = .memberExpression member ∧ member.object = receiver ∧
    member.computed = false ∧ member.optional = false ∧
    t.identifierName? member.property = some "concat"

theorem concatReceiver?_eq_some_iff :
    t.concatReceiver? call = some r ↔ ∃ arguments, t.IsConcatCall call r arguments := by
  constructor
  · intro h
    have hcall := memberCall?_of_concatReceiver? h
    unfold concatReceiver? at h
    split at h
    · next callee arguments optional hnode =>
      split at h
      · next member hmember =>
        split_ifs at h with hoptional
        simp only [Bool.or_eq_true, not_or, Bool.not_eq_true] at hoptional
        simp only [memberCall?, hnode, hmember] at hcall
        split_ifs at hcall with hname
        obtain ⟨hcomputed, hname⟩ : member.computed = false ∧
            t.identifierName? member.property = some "concat" := by
          simp only [staticName?, beq_iff_eq] at hname
          split_ifs at hname with hcomputed
          exact ⟨(Bool.not_eq_true _).mp hcomputed, hname⟩
        have hcallee : t.node callee = .memberExpression member := by
          unfold member? at hmember
          split at hmember <;> cases hmember
          assumption
        exact ⟨arguments, callee, member, hoptional.1 ▸ hnode, hcallee, Option.some.inj hcall,
          hcomputed, hoptional.2, hname⟩
      · cases h
    · cases h
  · rintro ⟨arguments, callee, member, hcall, hcallee, rfl, hcomputed, hoptional, hname⟩
    simp [concatReceiver?, memberCall?, staticName?, member?, hcall, hcallee, hcomputed, hoptional,
      hname]

namespace IsConcatCall

theorem concatReceiver? (h : t.IsConcatCall call r arguments) : t.concatReceiver? call = some r :=
  concatReceiver?_eq_some_iff.mpr ⟨arguments, h⟩

theorem callArguments (h : t.IsConcatCall call r arguments) : t.callArguments call = arguments := by
  obtain ⟨callee, member, hcall, -⟩ := h
  simp [Tree.callArguments, hcall]

/-- Above the receiver stands the access to the method, and above this the call. -/
theorem parents (h : t.IsConcatCall call r arguments) (ht : t.Intact root)
    (hcall : t.Reachable call) : (t.parent r).bind t.parent = some call := by
  obtain ⟨callee, member, hnode, hcallee, rfl, -⟩ := h
  have hmember : callee ∈ t.children call := by
    simp [children, hnode, Node.children]
  have hobject : member.object ∈ t.children callee := by
    simp [children, hcallee, Node.children]
  rw [ht.parent_eq (hcall.child hmember) hobject, Option.bind_some, ht.parent_eq hcall hmember]

end IsConcatCall

/-- A node has `.concat(…)` called on it exactly if some call in the tree does so. -/
theorem isConcatReceiver_iff (ht : t.Intact root) (hi : t.Reachable i) :
    t.isConcatReceiver i = true ↔
      ∃ call arguments, t.Reachable call ∧ t.IsConcatCall call i arguments := by
  rw [isConcatReceiver, beq_iff_eq]
  constructor
  · intro h
    obtain ⟨call, hparents, hreceiver⟩ := Option.bind_eq_some_iff.mp h
    obtain ⟨callee, hcallee, hcall⟩ := Option.bind_eq_some_iff.mp hparents
    obtain ⟨arguments, hconcat⟩ := concatReceiver?_eq_some_iff.mp hreceiver
    have hreachable := ((ht.parent_eq_some_iff hi).mp hcallee).1
    exact ⟨call, arguments, ((ht.parent_eq_some_iff hreachable).mp hcall).1, hconcat⟩
  · rintro ⟨call, arguments, hcall, hconcat⟩
    rw [hconcat.parents ht hcall, Option.bind_some, hconcat.concatReceiver?]

/-- The calls `inner`, from the inside out, and after them `call` are those of the chain
`r.concat(…)…concat(…)`, and `groups` are their arguments. The chain begins at `r`, which is no such
call itself. -/
inductive ConcatChain (t : Tree) (r : NodeId) :
    List NodeId → List (List NodeId) → NodeId → Prop where
  | first {call : NodeId} {arguments : List NodeId} (hr : t.concatReceiver? r = none)
      (h : t.IsConcatCall call r arguments) : ConcatChain t r [] [arguments] call
  | next {inner : List NodeId} {groups : List (List NodeId)} {last call : NodeId}
      {arguments : List NodeId} (h : ConcatChain t r inner groups last)
      (hcall : t.IsConcatCall call last arguments) :
      ConcatChain t r (inner ++ [last]) (groups ++ [arguments]) call

namespace ConcatChain

/-- The walk along the receivers meets the calls from the outside in, and then the first
receiver. -/
theorem follow_eq (h : t.ConcatChain r inner groups call) {fuel : Nat}
    (hfuel : inner.length + 2 ≤ fuel) :
    follow t.concatReceiver? fuel call = call :: (inner.reverse ++ [r]) := by
  induction h generalizing fuel with
  | first hr h =>
    obtain ⟨fuel, rfl⟩ := Nat.exists_eq_add_of_le' hfuel
    simp [follow, h.concatReceiver?, hr]
  | @next inner groups last call arguments h hcall ih =>
    obtain ⟨fuel, rfl⟩ := Nat.exists_eq_add_of_le' hfuel
    have hrest := ih (show inner.length + 2 ≤ fuel + (inner ++ [last]).length + 1 by simp)
    rw [← Nat.add_assoc, follow, hcall.concatReceiver?]
    simp only [hrest]
    simp

theorem map_callArguments (h : t.ConcatChain r inner groups call) :
    (inner ++ [call]).map t.callArguments = groups := by
  induction h with
  | first hr h => simp [h.callArguments]
  | next h hcall ih => rw [List.map_append, ih, List.map_singleton, hcall.callArguments]

/-- Among the nodes of its walk the operands of a chain are the first receiver and all arguments, in
the order of the calls. -/
theorem concatOperands_eq (h : t.ConcatChain r inner groups call) :
    t.concatOperands (call :: (inner.reverse ++ [r])) = r :: groups.flatten := by
  rw [concatOperands, ← List.cons_append, List.getLast?_concat, List.dropLast_concat,
    List.reverse_cons, List.reverse_reverse, List.flatMap_def, h.map_callArguments]
  rfl

/-- On each call of a chain but the outermost one another call is made. -/
theorem exists_call_of_mem (h : t.ConcatChain r inner groups call) (hi : i ∈ inner) :
    ∃ outer arguments, t.Reaches call outer ∧ t.IsConcatCall outer i arguments := by
  induction h with
  | first => cases hi
  | @next inner groups last call arguments h hcall ih =>
    rcases List.mem_append.mp hi with hi | hi
    · obtain ⟨outer, arguments, hreaches, houter⟩ := ih hi
      exact ⟨outer, arguments, (reaches_of_concatReceiver? hcall.concatReceiver?).trans hreaches,
        houter⟩
    · cases List.mem_singleton.mp hi
      exact ⟨call, arguments, .refl, hcall⟩

theorem reaches_of_mem (h : t.ConcatChain r inner groups call) (hi : i ∈ inner) :
    t.Reaches call i := by
  obtain ⟨outer, arguments, hreaches, houter⟩ := h.exists_call_of_mem hi
  exact hreaches.trans (reaches_of_concatReceiver? houter.concatReceiver?)

end ConcatChain

end Tree

section Items

variable {α : Type} (item : List Char → α) (list : List Char → List α)

/-- What an entry of an array literal adds to the array, by its text: after three dots all items of
a list, else one item. -/
def addedItems : List Char → List α
  | '.' :: '.' :: '.' :: text => list text
  | text => [item text]

/-- The items of an operand: those that the entries of an array literal add, else those of a
list. -/
def Document.operandItems (d : Document) (operand : NodeId) : List α :=
  match d.tree.node operand with
  | .arrayExpression elements =>
    (elements.filterMap id).flatMap fun element => addedItems item list (d.text element)
  | _ => list (d.text operand)

end Items

namespace Document

variable {α : Type} {item : List Char → α} {list : List Char → List α} {d : Document}
  {operand : NodeId} {operands : List NodeId} {parts : List SpreadPart}

theorem text_of_text? {text : List Char} {i : NodeId} (h : d.text? i = some text) :
    d.text i = text := by
  rw [Document.text, h, Option.getD_some]

/-- What is collected from all that was found is what belongs to the items it was found for. -/
theorem flatMap_of_mapM_eq_some {β γ : Type} {f : β → Option γ} {items : List β} {found : List γ}
    {value : γ → List α} {value' : β → List α} (h : items.mapM f = some found)
    (hvalue : ∀ x y, f x = some y → value y = value' x) :
    found.flatMap value = items.flatMap value' := by
  have hfound := forall₂_of_mapM_eq_some h
  clear h
  induction hfound with
  | nil => rfl
  | cons hx _ ih => rw [List.flatMap_cons, List.flatMap_cons, ih, hvalue _ _ hx]

theorem operandItems_of_array {elements : List (Option NodeId)}
    (h : d.tree.node operand = .arrayExpression elements) : d.operandItems item list operand =
      (elements.filterMap id).flatMap fun element => addedItems item list (d.text element) := by
  rw [operandItems, h]

theorem operandItems_of_ne (h : ∀ elements, d.tree.node operand ≠ .arrayExpression elements) :
    d.operandItems item list operand = list (d.text operand) := by
  unfold operandItems
  split
  · next elements harray => exact absurd harray (h elements)
  · rfl

/-- The entries for one operand add its items. -/
theorem flatMap_addedItems_of_spreadParts? (h : d.spreadParts? operand = some parts) :
    parts.flatMap (fun part => addedItems item list part.render) =
      d.operandItems item list operand := by
  unfold spreadParts? at h
  split at h
  · next elements hnode =>
    rw [operandItems_of_array hnode]
    refine flatMap_of_mapM_eq_some h fun element part hpart => ?_
    obtain ⟨text, htext, rfl⟩ := Option.map_eq_some_iff.mp hpart
    rw [text_of_text? htext]
    rfl
  · next hnode =>
    obtain ⟨text, htext, rfl⟩ := Option.map_eq_some_iff.mp h
    rw [operandItems_of_ne hnode]
    simp [SpreadPart.render, addedItems, text_of_text? htext]

/-- The entries for all operands add the items of each of them, one operand after the other. -/
theorem flatMap_addedItems_of_concatParts? (h : d.concatParts? operands = some parts) :
    parts.flatMap (fun part => addedItems item list part.render) =
      operands.flatMap (d.operandItems item list) := by
  obtain ⟨groups, hgroups, rfl⟩ := Option.map_eq_some_iff.mp h
  rw [← List.flatMap_id, List.flatMap_assoc]
  exact flatMap_of_mapM_eq_some hgroups fun _ _ => flatMap_addedItems_of_spreadParts?

/-- Every operand in the tree of a text has entries. -/
theorem isSome_concatParts? (hd : d.Sound) (hoperands : ∀ i ∈ operands, d.tree.Reachable i) :
    (d.concatParts? operands).isSome := by
  have htext : ∀ i, d.tree.Reachable i → (d.text? i).isSome := by
    intro i hi
    obtain ⟨r, text, hr, htext⟩ := hd.exists_text hi
    rw [text?, hr, Option.bind_some, htext]
    rfl
  rw [concatParts?, Option.isSome_map]
  refine isSome_mapM fun i hi => ?_
  unfold spreadParts?
  split
  · next elements hnode =>
    refine isSome_mapM fun element helement => ?_
    rw [Option.isSome_map]
    refine htext element ((hoperands i hi).child ?_)
    simpa [Tree.children, hnode, Node.children] using helement
  · rw [Option.isSome_map]
    exact htext i (hoperands i hi)

end Document

section Texts

variable {source : List Char} {t : Tree} {r call : NodeId} {inner operands : List NodeId}
  {groups : List (List NodeId)}

/-- The walk along the receivers ends in the tree of a text. -/
theorem chainEnds_concatReceiver? (h : parse source = .ok t) (hcall : t.Reachable call) :
    t.chainEnds t.concatReceiver? call :=
  Document.ends_trail_of_parse h "" hcall .concat

/-- In the tree of a text every plain call of the method is the last one of a chain. -/
theorem exists_concatChain (h : parse source = .ok t) (hcall : t.Reachable call)
    (hconcat : (t.concatReceiver? call).isSome) :
    ∃ r inner groups, t.ConcatChain r inner groups call := by
  have hhalts := Tree.halts_of_endsWithin (chainEnds_concatReceiver? h hcall)
  clear hcall
  induction hhalts with
  | intro call _ ih =>
    obtain ⟨last, hlast⟩ := Option.isSome_iff_exists.mp hconcat
    obtain ⟨arguments, hcall⟩ := Tree.concatReceiver?_eq_some_iff.mp hlast
    cases hmore : t.concatReceiver? last with
    | none => exact ⟨last, [], [arguments], .first hmore hcall⟩
    | some _ =>
      obtain ⟨r, inner, groups, hchain⟩ := ih last (Option.mem_toList.mpr hlast) (by simp [hmore])
      exact ⟨r, inner ++ [last], groups ++ [arguments], .next hchain hcall⟩

/-- A chain is followed to its beginning. -/
theorem chain_eq_of_concatChain (h : parse source = .ok t) (hcall : t.Reachable call)
    (hchain : t.ConcatChain r inner groups call) :
    t.chain t.concatReceiver? call = call :: (inner.reverse ++ [r]) := by
  rw [← hchain.follow_eq (Nat.le_max_right (t.size + 1) (inner.length + 2))]
  exact (Tree.follow_eq_of_endsWithin (chainEnds_concatReceiver? h hcall)
    (Nat.le_max_left _ _)).symm

theorem concatOperands_of_concatChain (h : parse source = .ok t) (hcall : t.Reachable call)
    (hchain : t.ConcatChain r inner groups call) :
    t.concatOperands (t.chain t.concatReceiver? call) = r :: groups.flatten := by
  rw [chain_eq_of_concatChain h hcall hchain, hchain.concatOperands_eq]

/-- The last call of a chain has operands exactly if no further call is made on it and each of the
operands can be spread. They are the receiver and all arguments. -/
theorem concatChain?_eq_some_iff (h : parse source = .ok t) (hcall : t.Reachable call)
    (hchain : t.ConcatChain r inner groups call) :
    t.concatChain? call = some operands ↔
      (∀ outer arguments, t.Reachable outer → ¬ t.IsConcatCall outer call arguments) ∧
        (∀ i ∈ operands, t.isSpreadable i = true) ∧ operands = r :: groups.flatten := by
  obtain ⟨root, -, ht⟩ := Tree.exists_root_of_parse h
  have houter : t.isConcatReceiver call = true ↔ _ := Tree.isConcatReceiver_iff ht hcall
  have hplain : (t.concatReceiver? call).isNone = false := by
    cases hchain with
    | first _ hcall => simp [hcall.concatReceiver?]
    | next _ hcall => simp [hcall.concatReceiver?]
  simp only [Tree.concatChain?, hplain, Bool.false_or,
    concatOperands_of_concatChain h hcall hchain]
  split_ifs with hinner hall
  · obtain ⟨outer, arguments, hreachable, hconcat⟩ := houter.mp hinner
    exact ⟨nofun, fun hnot => absurd hconcat (hnot.1 outer arguments hreachable)⟩
  · rw [List.all_eq_true] at hall
    constructor
    · rintro ⟨⟩
      exact ⟨fun outer arguments hreachable hconcat =>
        hinner (houter.mpr ⟨outer, arguments, hreachable, hconcat⟩), hall, rfl⟩
    · rintro ⟨-, -, rfl⟩
      rfl
  · refine ⟨nofun, ?_⟩
    rintro ⟨-, hspread, rfl⟩
    exact absurd (List.all_eq_true.mpr hspread) hall

/-- Only the last call of a chain can have operands. They are the receiver and then all arguments in
source order, and whatever one item or a list is taken to be, the array literal that is written for
them has the items of the operands, one after the other. -/
theorem items_of_concatChain (h : parse source = .ok t) (hcall : t.Reachable call)
    (hchain : t.ConcatChain r inner groups call) (path : String) :
    (∀ i ∈ inner, t.concatChain? i = none) ∧
      ∀ operands, t.concatChain? call = some operands → operands = r :: groups.flatten ∧
        ∃ parts entries, (Document.mk path source t).concatParts? operands = some parts ∧
          spreadArray parts = '[' :: [',', ' '].intercalate entries ++ [']'] ∧
          ∀ (α : Type) (item : List Char → α) (list : List Char → List α),
            entries.flatMap (addedItems item list) =
              operands.flatMap ((Document.mk path source t).operandItems item list) := by
  obtain ⟨root, -, ht⟩ := Tree.exists_root_of_parse h
  constructor
  · intro i hi
    obtain ⟨outer, arguments, hreaches, houter⟩ := hchain.exists_call_of_mem hi
    have hreceiver : t.isConcatReceiver i = true :=
      (Tree.isConcatReceiver_iff ht (hcall.trans (hchain.reaches_of_mem hi))).mpr
        ⟨outer, arguments, hcall.trans hreaches, houter⟩
    simp [Tree.concatChain?, hreceiver]
  · intro operands hoperands
    obtain ⟨-, -, rfl⟩ := (concatChain?_eq_some_iff h hcall hchain).mp hoperands
    have hreachable : ∀ i ∈ r :: groups.flatten, t.Reachable i := by
      intro i hi
      rw [← concatOperands_of_concatChain h hcall hchain] at hi
      exact hcall.trans (Tree.reaches_of_mem_concatOperands hi)
    obtain ⟨parts, hparts⟩ := Option.isSome_iff_exists.mp
      (Document.isSome_concatParts? (Document.sound_of_parse h path) hreachable)
    exact ⟨rfl, parts, parts.map SpreadPart.render, hparts, rfl,
      fun α item list => by
        rw [List.flatMap_map, Document.flatMap_addedItems_of_concatParts? hparts]⟩

theorem items_of_concatChain_nested : ∃ t r inner groups call operands,
    parse "a.concat(b, [c, ...d]).concat().concat([[e.concat(f)]]);".toList = .ok t ∧
      t.Reachable call ∧ t.ConcatChain r inner groups call ∧ inner.length = 2 ∧
      groups.map List.length = [2, 0, 1] ∧ t.concatChain? call = some operands ∧
      operands = r :: groups.flatten ∧ ∀ i ∈ inner, t.concatChain? i = none := by
  have hcheck :
      (parse "a.concat(b, [c, ...d]).concat().concat([[e.concat(f)]]);".toList).toOption.any
      (fun t => t.preorder.any fun call =>
        ((t.chain t.concatReceiver? call).map fun i => (t.callArguments i).length)
          == [1, 0, 2, 0] &&
          (t.concatReceiver? call).isSome && (t.concatChain? call).isSome) = true := by
    decide +kernel
  obtain ⟨t, h, hcheck⟩ := exists_tree_of_any hcheck
  obtain ⟨call, hcall, hcheck⟩ := List.any_eq_true.mp hcheck
  simp only [Bool.and_eq_true, beq_iff_eq] at hcheck
  obtain ⟨⟨hlengths, hconcat⟩, hoperands⟩ := hcheck
  have hcall := ((Document.sound_of_parse h "").mem_preorder call).mp hcall
  obtain ⟨r, inner, groups, hchain⟩ := exists_concatChain h hcall hconcat
  obtain ⟨operands, hoperands⟩ := Option.isSome_iff_exists.mp hoperands
  obtain ⟨hinner, hitems⟩ := items_of_concatChain h hcall hchain ""
  have hgroups : groups.map List.length = [2, 0, 1] := by
    rw [chain_eq_of_concatChain h hcall hchain] at hlengths
    have hcalls := congrArg (fun lengths => lengths.reverse.tail) hlengths
    simpa [← hchain.map_callArguments, Function.comp_def] using hcalls
  have hinner' : inner.length + 1 = groups.length := by
    simpa using congrArg List.length hchain.map_callArguments
  refine ⟨t, r, inner, groups, call, operands, h, hcall, hchain, ?_, hgroups, hoperands,
    (hitems operands hoperands).1, hinner⟩
  rw [← List.length_map List.length, hgroups] at hinner'
  exact Nat.succ.inj hinner'

end Texts
end ScriptLint
