import ScriptLint.Tree.Record
import Mathlib.Data.List.Forall2

namespace ScriptLint

/-- What is found for each of some items, item by item. -/
theorem forall₂_of_mapM_eq_some {β γ : Type} {f : β → Option γ} {items : List β} {found : List γ}
    (h : items.mapM f = some found) : List.Forall₂ (fun y x => f x = some y) found items := by
  induction items generalizing found with
  | nil =>
    cases h
    exact .nil
  | cons x items ih =>
    simp only [List.mapM_cons, Option.bind_eq_bind, Option.bind_eq_some_iff, Option.pure_def,
      Option.some.injEq] at h
    obtain ⟨y, hy, ys, hys, rfl⟩ := h
    exact .cons hy (ih hys)

/-- Whatever was found was found for one of the items. -/
theorem exists_mem_of_mapM_eq_some {β γ : Type} {f : β → Option γ} {items : List β}
    {found : List γ} (h : items.mapM f = some found) {y : γ} (hy : y ∈ found) :
    ∃ x ∈ items, f x = some y := by
  have hfound := forall₂_of_mapM_eq_some h
  clear h
  induction hfound with
  | nil => cases hy
  | cons hx _ ih =>
    rcases List.mem_cons.mp hy with rfl | hy
    · exact ⟨_, List.mem_cons_self, hx⟩
    · obtain ⟨x, hmem, hx⟩ := ih hy
      exact ⟨x, List.mem_cons_of_mem _ hmem, hx⟩

/-- Items are found if each one is. -/
theorem isSome_mapM {β γ : Type} {f : β → Option γ} {items : List β}
    (h : ∀ x ∈ items, (f x).isSome) : (items.mapM f).isSome := by
  induction items with
  | nil => rfl
  | cons x items ih =>
    obtain ⟨y, hy⟩ := Option.isSome_iff_exists.mp (h x List.mem_cons_self)
    obtain ⟨ys, hys⟩ := Option.isSome_iff_exists.mp (ih fun z hz => h z (List.mem_cons_of_mem _ hz))
    simp [List.mapM_cons, hy, hys]

namespace Field

/-- The nodes that a field names. -/
def nodeIds : Field → List NodeId
  | .id node => [node]
  | .ids nodes => nodes.filterMap (·)
  | .absent | .flag _ | .text _ | .literal _ => []

@[simp] theorem nodeIds_id (node : NodeId) : (Field.id node).nodeIds = [node] := rfl

@[simp] theorem nodeIds_ids (nodes : List (Option NodeId)) :
    (Field.ids nodes).nodeIds = nodes.filterMap fun node => node := rfl

@[simp] theorem nodeIds_flag (value : Bool) : (Field.flag value).nodeIds = [] := rfl

@[simp] theorem nodeIds_text (value : String) : (Field.text value).nodeIds = [] := rfl

@[simp] theorem nodeIds_literal (value : LiteralValue) : (Field.literal value).nodeIds = [] := rfl

@[simp] theorem nodeIds_ofId? (node : Option NodeId) : (ofId? node).nodeIds = node.toList := by
  cases node <;> rfl

@[simp] theorem nodeIds_ofIds (nodes : List NodeId) : (ofIds nodes).nodeIds = nodes := by
  simp only [ofIds, nodeIds_ids, List.filterMap_map, Function.comp_def, List.filterMap_some]

end Field

namespace Node

/-- Every identifier that a node holds, in the order of its fields. -/
def ids (node : Node) : List NodeId := node.fields.flatMap fun field => field.2.nodeIds

/-- Nodes whose children do not name every field once: a member of an object, whose value may
hold its key, and a template, whose quasis and expressions are children in turn. -/
def sharesFields : Node → Bool
  | .property p => p.shorthand
  | .templateLiteral _ _ => true
  | _ => false

theorem mem_distinct {a b i : NodeId} : i ∈ distinct a b ↔ i = a ∨ i = b := by
  unfold distinct
  split <;> simp_all

/-- Every node that is named in a field is one of the children, the shared fields of members and
templates apart. -/
theorem mem_children_of_mem_ids {node : Node} (hshares : node.sharesFields = false) {i : NodeId}
    (hi : i ∈ node.ids) : i ∈ node.children := by
  cases node <;>
    simp_all [ids, fields, functionFields, classFields, pairFields, children, sharesFields,
      mem_distinct, or_comm, or_left_comm]

end Node
end ScriptLint
