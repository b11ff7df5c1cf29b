/-
Example graphs. A node has tags, fields and a mark, and its fields refer to
other nodes by their identities, so nodes may be shared and refer back to
themselves. A graph gives the node of each identity.

Only relevant fields mean anything to a query, and only the scalars and nodes
in them: `Node.leaves` lists these in order, lists taken apart.
-/
import QueryByExample.Path.Basic

namespace QueryByExample

/-- Keys that describe a node itself. -/
def structuralKeys : List String := ["nodeName", "nodeTags", "address", "constructor"]

/-- A key that starts with `_` or `$` holds internal state. -/
def isInternalKey (key : String) : Bool :=
  match key.toList with
  | c :: _ => c == '_' || c == '$'
  | [] => false

/-- Whether a key takes part in a query. -/
def isRelevantKey (key : String) : Bool :=
  key ≠ "" && !structuralKeys.contains key && !isInternalKey key

/-- The value of a field, over the identities `ι` of nodes. -/
inductive FieldValue (ι : Type) where
  | scalar (value : Scalar)
  | node (id : ι)
  /-- Each item counts as if it were a value of the field. -/
  | list (items : List (FieldValue ι))
  /-- A value of which no query says anything. -/
  | hidden

structure Node (ι : Type) where
  name : String
  /-- The first tag is the one by which a query addresses the node. -/
  tags : List String
  /-- Names may repeat. -/
  fields : List (String × FieldValue ι)
  isMatch : Bool
  custom : List Predicate

abbrev Graph (ι : Type) := ι → Node ι

/-- What is left of a field's value without the lists. -/
inductive Leaf (ι : Type) where
  | scalar (value : Scalar)
  | node (id : ι)

variable {ι κ : Type}

mutual

def FieldValue.leaves : FieldValue ι → List (Leaf ι)
  | .scalar value => [.scalar value]
  | .node id => [.node id]
  | .list items => FieldValue.leavesOfItems items
  | .hidden => []

def FieldValue.leavesOfItems : List (FieldValue ι) → List (Leaf ι)
  | [] => []
  | item :: rest => item.leaves ++ FieldValue.leavesOfItems rest

end

/-- The scalars and nodes of the relevant fields, in order, each with the name
of its field. -/
def Node.leaves (node : Node ι) : List (String × Leaf ι) :=
  (node.fields.filter fun (name, _) => isRelevantKey name).flatMap fun (name, value) =>
    value.leaves.map fun leaf => (name, leaf)

/-- A node with an identity of its own, to which nothing in the graph refers. -/
structure Rooted (ι : Type) where
  graph : Graph ι
  root : Node ι

/-- The node of a graph as a separate object: what refers to the node of the
graph does not refer to it. -/
def Rooted.copyOf (graph : Graph ι) (id : ι) : Rooted ι :=
  ⟨graph, graph id⟩

end QueryByExample
