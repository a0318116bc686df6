import ScriptLint.Source.Lines
import ScriptLint.Tree.Shape

namespace ScriptLint

/-- A file under inspection. -/
structure Document where
  path : String := ""
  source : List Char
  tree : Tree

/-- Exchange the text of a span for another text. -/
structure Fix where
  span : Span
  replacement : List Char
  deriving DecidableEq

namespace Document

/-- The exact text of a node. -/
def text? (d : Document) (id : NodeId) : Option (List Char) :=
  (d.tree.range id).bind fun range => slice? d.source range.start range.stop

/-- The exact text of a node, empty where it has none. -/
def text (d : Document) (id : NodeId) : List Char := (d.text? id).getD []

/-- The text between two offsets, empty where they are no places of the text in this order. -/
def slice (d : Document) (start stop : Nat) : List Char := (slice? d.source start stop).getD []

/-- Two nodes are written alike if both have a text and the texts are equal. -/
def writtenAlike (d : Document) (a b : NodeId) : Bool :=
  match d.text? a, d.text? b with
  | some s, some t => s == t
  | _, _ => false

/-- Replaces the text between two offsets, if they are places of the text in this order. -/
def replaceRange? (d : Document) (start stop : Nat) (replacement : List Char) : Option Fix :=
  (slice? d.source start stop).map fun _ => ⟨spanAt d.source start stop, replacement⟩

/-- Replaces the text of a node. -/
def replace? (d : Document) (id : NodeId) (replacement : List Char) : Option Fix :=
  (d.tree.range id).bind fun range => d.replaceRange? range.start range.stop replacement

end Document
end ScriptLint
