import ScriptLint.Tree.Basic

namespace ScriptLint
namespace Tree

/-- Links each child of `id` that has no parent yet, and returns those children, first one
first. -/
def adopt (root id : NodeId) : Tree → List NodeId → Tree × List NodeId
  | t, [] => (t, [])
  | t, child :: rest =>
    match t.entry? child with
    | some entry =>
      if entry.parent.isNone ∧ child ≠ root then
        let (t, adopted) := adopt root id (t.setParent child (some id)) rest
        (t, child :: adopted)
      else adopt root id t rest
    | none => adopt root id t rest

/-- Links parents from a stack of nodes whose children are still to be seen. -/
def linkFrom (root : NodeId) : Nat → List NodeId → Tree → Tree
  | 0, _, t => t
  | _ + 1, [], t => t
  | fuel + 1, id :: stack, t =>
    let (t, adopted) := adopt root id t (t.children id)
    linkFrom root fuel (adopted.reverse ++ stack) t

/-- Gives every node reachable from the root its parent, and takes it from all others. A node is
put on the stack when it is linked, so each is taken from it once. -/
def linkParents (t : Tree) : Tree :=
  let t := { t with entries := t.entries.map fun (e : Entry) => { e with parent := none } }
  match t.root with
  | none => t
  | some root => linkFrom root (t.size + 1) [root] t

/-- Depth-first walk along `next` from a stack, leaving out what was seen and what is not in the
tree. The fuel counts entries of the stack. -/
def walkFrom (next : NodeId → List NodeId) : Nat → List NodeId → Array Bool → List NodeId
  | 0, _, _ => []
  | _ + 1, [], _ => []
  | fuel + 1, id :: stack, seen =>
    match seen[id]? with
    | some false => id :: walkFrom next fuel (next id ++ stack) (seen.set! id true)
    | _ => walkFrom next fuel stack seen

/-- The number of child fields in a tree: each is put on the stack at most once. -/
def links (t : Tree) : Nat := t.entries.foldl (fun n e => n + e.node.children.length) 0

/-- The nodes that `next` leads to from `id`, itself included, each once. Here `next` gives no more
nodes than there are children. -/
def walk (t : Tree) (next : NodeId → List NodeId) (id : NodeId) : List NodeId :=
  walkFrom next (t.links + 2) [id] (Array.replicate t.size false)

/-- The nodes below and including `id`, parents before children, children in source order. -/
def descendants (t : Tree) (id : NodeId) : List NodeId := t.walk t.children id

/-- The nodes reachable from the root. -/
def preorder (t : Tree) : List NodeId := (t.root.map t.descendants).getD []

/-- Parent, grandparent and so on, at most `fuel` of them. -/
def ancestorsUpTo (t : Tree) : Nat → NodeId → List NodeId
  | 0, _ => []
  | fuel + 1, id =>
    match t.parent id with
    | none => []
    | some parent => parent :: ancestorsUpTo t fuel parent

/-- Parent, grandparent and so on up to the root. -/
def ancestors (t : Tree) (id : NodeId) : List NodeId := t.ancestorsUpTo t.size id

end Tree
end ScriptLint
