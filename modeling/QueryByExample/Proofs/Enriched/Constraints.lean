/-
The constraints of an enriched node, and those that a change adds.

An enriched node compiles exactly when its base does, and to the branch of the
base with the predicates behind the base's own (`Enriched.compile_eq_map`). So
its constraints are those of the base and the predicates, and a combinator is
known by what it appends to the predicates.
-/
import QueryByExample.Enriched
import QueryByExample.Proofs.Graph.Branch

namespace QueryByExample
namespace Enriched
variable {α ι : Type}

/-- The predicates and the mark on top of a branch. -/
def onBranch (e : Enriched α) (b : Branch) : Branch where
  step := { b.step with predicates := b.step.predicates ++ e.predicates }
  isMatch := e.isMatch || b.isMatch

theorem onBranch_ofParts {e : Enriched α} {tag isMatch custom} (parts : List Part) :
    e.onBranch (.ofParts tag isMatch custom parts) =
      .ofParts tag (e.isMatch || isMatch) (custom ++ e.predicates) parts := by
  simp only [onBranch, Branch.ofParts, List.append_assoc, Bool.or_assoc]

theorem branch_onNode {e : Enriched α} {node : Node ι} {visit} :
    (e.onNode node).branch visit = (node.branch visit).map e.onBranch := by
  have htags : (e.onNode node).tags = node.tags := rfl
  have hleaves : (e.onNode node).leaves = node.leaves := rfl
  cases hnode : node.tags with
  | nil =>
    rw [Node.branch_of_untagged hnode, Node.branch_of_untagged (htags.trans hnode)]
    rfl
  | cons tag tags =>
    rw [Node.branch_of_tagged hnode, Node.branch_of_tagged (htags.trans hnode), hleaves]
    cases node.leaves.mapM fun (leaf : String × Leaf ι) => leaf.2.part leaf.1 (visit leaf.1 tag) with
    | error err => rfl
    | ok parts => exact congrArg Except.ok (onBranch_ofParts parts).symm

theorem mem_constraints_onBranch {e : Enriched α} {b : Branch} {p : Predicate} :
    p ∈ (e.onBranch b).step.constraints ↔ p ∈ b.step.constraints ∨ p ∈ e.predicates := by
  simp only [onBranch, Step.constraints, List.mem_append]
  exact or_right_comm

variable [ExampleNode α ι] [DecidableEq ι]

theorem compile_eq_map (e : Enriched α) (limit : Nat) :
    (ExampleNode.rooted e).compile limit = ((ExampleNode.rooted e.base).compile limit).map e.onBranch := by
  cases limit with
  | zero => rfl
  | succ limit =>
    simp only [Rooted.compile]
    exact branch_onNode

/-- However a node is enriched, it compiles when its base does. -/
theorem compile_of_base {e e' : Enriched α} {limit : Nat} {base : Branch} (hsame : e'.base = e.base)
    (hbase : (ExampleNode.rooted e.base).compile limit = .ok base) :
    (ExampleNode.rooted e').compile limit = .ok (e'.onBranch base) := by
  rw [compile_eq_map, hsame, hbase]
  rfl

theorem added_eq {e : Enriched α} {change : α → α} {before after : Branch}
    (hbefore : (ExampleNode.rooted e.base).compile e.limit = .ok before)
    (hafter : (ExampleNode.rooted (change e.base)).compile e.limit = .ok after) :
    e.added change = .ok (beyond before.step.constraints after.step.constraints) := by
  simp only [added, hbefore, hafter]
  rfl

theorem not_eq {e : Enriched α} {change : α → α} {operands : List Predicate}
    (h : e.added change = .ok operands) :
    e.not change = match Predicate.all? operands with
      | some operand => .ok (e.addPredicate (.negated operand))
      | none => .error .misuse := by
  simp only [Enriched.not, h, bind, Except.bind]
  cases Predicate.all? operands <;> rfl

theorem or_eq {e : Enriched α} {left right : α → α} {lefts rights : List Predicate}
    (hleft : e.added left = .ok lefts) (hright : e.added right = .ok rights) :
    e.or left right = match Predicate.all? lefts, Predicate.all? rights with
      | some p, some q => .ok (e.addPredicate (.either p q))
      | _, _ => .ok e := by
  simp only [Enriched.or, hleft, hright, bind, Except.bind]
  cases Predicate.all? lefts <;> cases Predicate.all? rights <;> rfl

theorem optional_eq {e : Enriched α} {change : α → α} {operands : List Predicate}
    (h : e.added change = .ok operands) :
    e.optional change = match Predicate.all? operands with
      | some operand => .ok (e.addPredicate (.optional operand))
      | none => .ok e := by
  simp only [Enriched.optional, h, bind, Except.bind]
  cases Predicate.all? operands <;> rfl

-- A combinator fails as the first of its changes that fails.
section Failing
variable {e : Enriched α} {error : CombinatorError}

theorem not_of_error {change : α → α} (h : e.added change = .error error) :
    e.not change = .error error := by
  simp only [Enriched.not, h, bind, Except.bind]

theorem optional_of_error {change : α → α} (h : e.added change = .error error) :
    e.optional change = .error error := by
  simp only [Enriched.optional, h, bind, Except.bind]

theorem or_of_left_error {left right : α → α} (h : e.added left = .error error) :
    e.or left right = .error error := by
  simp only [Enriched.or, h, bind, Except.bind]

theorem or_of_right_error {left right : α → α} {operands : List Predicate}
    (hleft : e.added left = .ok operands) (h : e.added right = .error error) :
    e.or left right = .error error := by
  simp only [Enriched.or, hleft, h, bind, Except.bind]

end Failing

end Enriched
end QueryByExample
