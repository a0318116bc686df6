import ScriptLint.Source.Span
import ScriptLint.Tree.Node

namespace ScriptLint

/-- A node with its range in the source and its parent. -/
structure Entry where
  node : Node
  /-- Nodes that a host makes may have no range. -/
  range : Option Span
  parent : Option NodeId := none

instance : Inhabited Entry := ⟨⟨default, none, none⟩⟩

/-- Nodes by their identifiers, one of them the root. -/
structure Tree where
  entries : Array Entry := #[]
  root : Option NodeId := none

namespace Tree

def empty : Tree := {}

def size (t : Tree) : Nat := t.entries.size

/-- Adds a node; its identifier is the old size. -/
def alloc (t : Tree) (node : Node) (range : Option Span) : NodeId × Tree :=
  (t.size, { t with entries := t.entries.push { node, range } })

def entry? (t : Tree) (id : NodeId) : Option Entry := t.entries[id]?

/-- The node with an identifier; one outside the tree stands for a foreign node. -/
def node (t : Tree) (id : NodeId) : Node := ((t.entry? id).map (·.node)).getD .missing

def nodeType (t : Tree) (id : NodeId) : NodeType := (t.node id).nodeType

def range (t : Tree) (id : NodeId) : Option Span := (t.entry? id).bind (·.range)

def parent (t : Tree) (id : NodeId) : Option NodeId := (t.entry? id).bind (·.parent)

def children (t : Tree) (id : NodeId) : List NodeId := (t.node id).children

def modify (t : Tree) (id : NodeId) (f : Entry → Entry) : Tree :=
  { t with entries := t.entries.modify id f }

def setNode (t : Tree) (id : NodeId) (node : Node) : Tree :=
  t.modify id fun e => { e with node }

def setRange (t : Tree) (id : NodeId) (range : Option Span) : Tree :=
  t.modify id fun e => { e with range }

def setParent (t : Tree) (id : NodeId) (parent : Option NodeId) : Tree :=
  t.modify id fun e => { e with parent }

/-- Forgets every node from identifier `size` on. -/
def truncate (t : Tree) (size : Nat) : Tree := { t with entries := t.entries.take size }

def withRoot (t : Tree) (id : NodeId) : Tree := { t with root := some id }

end Tree
end ScriptLint
