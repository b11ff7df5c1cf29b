/-
Nodes enriched with predicates. `not`, `or` and `optional` describe what they
are about by a change to the node: the constraints that the changed node has
beyond those of the node itself are the operand.

An enriched node is a node again, with its predicates after the node's own,
so it can be enriched once more.
-/
import QueryByExample.Graph.Branch

namespace QueryByExample

/-- Types whose values are nodes of example graphs, each an object of its own
above the nodes `ι` that it refers to. -/
class ExampleNode (α : Type) (ι : outParam Type) where
  rooted : α → Rooted ι

instance {ι : Type} : ExampleNode (Rooted ι) ι := ⟨id⟩

/-- The elements of `after` beyond those of `before`, in order. Each element
of `before` accounts for one equal element of `after`, the earliest. -/
def beyond {α : Type} [BEq α] (before : List α) : List α → List α
  | [] => []
  | x :: after =>
    if before.any (· == x) then beyond (before.eraseP (· == x)) after
    else x :: beyond before after

inductive CombinatorError where
  | compile (error : CompileError)
  /-- The operand of `not` adds nothing, so no node would be left. -/
  | misuse

def CombinatorError.message : CombinatorError → String
  | .compile error => error.message
  | .misuse => "combinator misuse: not() operand adds no predicates"

structure Enriched (α : Type) where
  base : α
  predicates : List Predicate
  isMatch : Bool
  /-- The limit under which operands are compiled. -/
  limit : Nat

namespace Enriched
variable {α ι : Type}

def of (base : α) : Enriched α :=
  ⟨base, [], false, defaultRecursionLimit⟩

def addPredicate (e : Enriched α) (p : Predicate) : Enriched α :=
  { e with predicates := e.predicates ++ [p] }

def addCustomPredicate (e : Enriched α) (text : String) : Enriched α :=
  e.addPredicate (.custom text)

def markMatch (e : Enriched α) : Enriched α :=
  { e with isMatch := true }

/-- The predicates and the mark on top of a node. -/
def onNode (e : Enriched α) (node : Node ι) : Node ι :=
  { node with isMatch := e.isMatch || node.isMatch, custom := node.custom ++ e.predicates }

variable [ExampleNode α ι]

instance : ExampleNode (Enriched α) ι where
  rooted e :=
    let base := ExampleNode.rooted e.base
    { base with root := e.onNode base.root }

variable [DecidableEq ι]

/-- The constraints that a change adds to the node. -/
def added (e : Enriched α) (change : α → α) : Except CombinatorError (List Predicate) := do
  let constraints (node : α) : Except CombinatorError (List Predicate) :=
    match (ExampleNode.rooted node).compile e.limit with
    | .ok branch => .ok branch.step.constraints
    | .error error => .error (.compile error)
  let before ← constraints e.base
  let after ← constraints (change e.base)
  return beyond before after

/-- Requires that what the change describes does not hold. -/
protected def not (e : Enriched α) (change : α → α) : Except CombinatorError (Enriched α) := do
  match Predicate.all? (← e.added change) with
  | some operand => return e.addPredicate (.negated operand)
  | none => throw .misuse

/-- Requires that what one of the changes describes holds. A side without
constraints always holds, and then nothing is required. -/
protected def or (e : Enriched α) (left right : α → α) : Except CombinatorError (Enriched α) := do
  let left ← e.added left
  let right ← e.added right
  match Predicate.all? left, Predicate.all? right with
  | some left, some right => return e.addPredicate (.either left right)
  | _, _ => return e

/-- Matches what the change describes where it is there. -/
protected def optional (e : Enriched α) (change : α → α) : Except CombinatorError (Enriched α) := do
  match Predicate.all? (← e.added change) with
  | some operand => return e.addPredicate (.optional operand)
  | none => return e

end Enriched
end QueryByExample
