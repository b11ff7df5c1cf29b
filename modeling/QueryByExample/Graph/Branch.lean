/-
Compiling an example graph. A node becomes a step under its first tag: the
scalars of its relevant fields are equalities, its related nodes are steps of
their own, and a related node is a match if it is marked or something below
it is, and a condition otherwise.

A walk keeps the nodes that it is inside of. It does not enter one of them
again, which would be a cycle, and it does not go deeper than its limit.
-/
import QueryByExample.Graph.Basic

namespace QueryByExample

inductive CompileError where
  /-- A field of a node with the tag `owner` leads back to a node that is
  being compiled. -/
  | cycle (property owner : String)
  | recursionLimitExceeded
  | missingTypeTag (node : String)

def CompileError.message : CompileError → String
  | .cycle property owner =>
    "cycle detected processing property [" ++ property ++ "] of `" ++ owner ++ "`"
  | .recursionLimitExceeded => "recursion limit exceeded"
  | .missingTypeTag node => "node `" ++ node ++ "` has no type tags"

def defaultRecursionLimit : Nat := 256

/-- The step of a node, and whether the node is a match: marked itself, or
with a match below it. -/
structure Branch where
  step : Step
  isMatch : Bool

/-- What a leaf of a node's fields comes to. -/
inductive Part where
  | scalar (name : String) (value : Scalar)
  | branch (name : String) (branch : Branch)

namespace Part

def equality? : Part → Option Predicate
  | .scalar name value => some (.equals name value)
  | .branch .. => none

def condition? : Part → Option Predicate
  | .branch name b => if b.isMatch then none else some (.related ⟨name, b.step⟩)
  | .scalar .. => none

def match? : Part → Option Relation
  | .branch name b => if b.isMatch then some ⟨name, b.step⟩ else none
  | .scalar .. => none

end Part

/-- The branch of a node from its parts: equalities first, then conditions on
related nodes, then the node's custom predicates. -/
def Branch.ofParts (tag : String) (isMatch : Bool) (custom : List Predicate) (parts : List Part) :
    Branch where
  step :=
    { tag
      predicates := parts.filterMap Part.equality? ++ parts.filterMap Part.condition? ++ custom
      matched := parts.filterMap Part.match? }
  isMatch := isMatch || parts.any fun part => part.match?.isSome

variable {ι : Type}

/-- The part that a leaf of a field with that name comes to. -/
def Leaf.part (name : String) (visit : ι → Except CompileError Branch) : Leaf ι → Except CompileError Part
  | .scalar value => .ok (.scalar name value)
  | .node id => (visit id).map (.branch name)

/-- The branch of one node; `visit` gives the branch of a node in a field,
from the name of the field, the tag of this node and the identity found there. -/
def Node.branch (node : Node ι) (visit : String → String → ι → Except CompileError Branch) :
    Except CompileError Branch :=
  match node.tags with
  | [] => .error (.missingTypeTag node.name)
  | tag :: _ => do
    let parts ← node.leaves.mapM fun (name, leaf) => leaf.part name (visit name tag)
    return .ofParts tag node.isMatch node.custom parts

variable [DecidableEq ι]

/-- The branch of a node inside the nodes `above`, innermost first, where
`limit` more nodes may be entered. -/
def Graph.branchBelow (graph : Graph ι) :
    (limit : Nat) → (above : List ι) → ι → Except CompileError Branch
  | 0, _, _ => .error .recursionLimitExceeded
  | limit + 1, above, id =>
    (graph id).branch fun property owner next =>
      if next ∈ id :: above then .error (.cycle property owner)
      else Graph.branchBelow graph limit (id :: above) next

def Graph.compile (graph : Graph ι) (limit : Nat) (id : ι) : Except CompileError Branch :=
  graph.branchBelow limit [] id

/-- Nothing leads back to the root, so only the graph below it is watched. -/
def Rooted.compile (rooted : Rooted ι) (limit : Nat) : Except CompileError Branch :=
  match limit with
  | 0 => .error .recursionLimitExceeded
  | limit + 1 => rooted.root.branch fun _ _ id => rooted.graph.branchBelow limit [] id

end QueryByExample
