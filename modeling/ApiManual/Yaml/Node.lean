import ApiManual.Yaml.Tag

/-!
# Nodes

What a text consists of once its punctuation is gone: scalars, sequences and
mappings, each with a tag.  A node that has a name can be referred to from several
places, and even from inside itself, so the nodes of a text are a graph; a node is
known by its number.
-/

namespace ApiManual
namespace Yaml

/-- The three kinds of node. -/
inductive NodeKind where
  | scalar
  | sequence
  | mapping
  deriving DecidableEq

/-- What messages call a kind of node. -/
def NodeKind.name : NodeKind → String
  | .scalar => "scalar"
  | .sequence => "sequence"
  | .mapping => "mapping"

/-- What a node holds; its parts are numbers of nodes. -/
inductive Content where
  | scalar (text : String)
  | sequence (items : List Nat)
  | mapping (entries : List (Nat × Nat))
  deriving DecidableEq

/-- The kind of node that holds it. -/
def Content.kind : Content → NodeKind
  | .scalar _ => .scalar
  | .sequence _ => .sequence
  | .mapping _ => .mapping

/-- A node with its tag and the place where it starts. -/
structure Node where
  tag : String
  start : Mark
  content : Content
  deriving DecidableEq

/-- What kind of node it is. -/
def Node.kind (n : Node) : NodeKind := n.content.kind

/-- The nodes of a text by their numbers, and the outermost one, if there is one. -/
structure Graph where
  nodes : Array Node
  root : Option Nat

namespace Graph

/-- The entries of a mapping. -/
def entries (nodes : Array Node) (n : Nat) : List (Nat × Nat) :=
  match nodes[n]? with
  | some ⟨_, _, .mapping es⟩ => es
  | _ => []

end Graph
end Yaml
end ApiManual
