/-
Changes that mark and do nothing else.

What a change adds is found by comparing constraints, each with an equal one.
Where the constraints of the changed node are those of the node in another
order, nothing is added (`beyond_eq_nil_of_perm`), provided that they are equal
to themselves, which those that mention NaN are not. So marks on the nodes that
a node refers to add nothing. Marks further down do where they turn a condition
into a match inside of a condition (`constraints_remark_org`).
-/
import Mathlib.Data.List.Permutation
import QueryByExample.Proofs.Enriched.Constraints
import QueryByExample.Proofs.Graph.Remarked
import QueryByExample.Proofs.Path.Equality

namespace QueryByExample

section Beyond
variable {α : Type} [BEq α] [PartialEquivBEq α]

/-- An element taken out counts where it is equal, as any equal of it does. -/
theorem countP_eraseP_beq {x y : α} {xs : List α} (h : xs.any (· == x) = true) :
    (xs.eraseP (· == x)).countP (· == y) + (if x == y then 1 else 0) = xs.countP (· == y) := by
  obtain ⟨z, hz, hzx⟩ := List.any_eq_true.1 h
  obtain ⟨z, left, right, -, hzx, rfl, herase⟩ := List.exists_of_eraseP (p := (· == x)) hz hzx
  have hzy : (z == y) = (x == y) :=
    Bool.eq_iff_iff.2 ⟨fun hzy => BEq.trans (BEq.symm hzx) hzy, fun hxy => BEq.trans hzx hxy⟩
  rw [herase, List.countP_append, List.countP_append, List.countP_cons, hzy, Nat.add_assoc]

/-- Nothing is left where `before` has as many equals of each element as `after`. -/
theorem beyond_eq_nil_of_count {before after : List α} (hself : ∀ x ∈ after, x == x)
    (hcount : ∀ x ∈ after, after.countP (· == x) ≤ before.countP (· == x)) : beyond before after = [] := by
  induction after generalizing before with
  | nil => rfl
  | cons x after ih =>
    rw [List.forall_mem_cons] at hself
    simp only [List.countP_cons] at hcount
    have hany : before.any (· == x) = true := by
      have hx := hcount x List.mem_cons_self
      rw [if_pos hself.1] at hx
      obtain ⟨z, hz, hzx⟩ := List.countP_pos_iff.1 (Nat.lt_of_lt_of_le (Nat.succ_pos _) hx)
      exact List.any_eq_true.2 ⟨z, hz, hzx⟩
    rw [beyond, if_pos hany]
    refine ih hself.2 fun y hy => ?_
    have hle := hcount y (List.mem_cons_of_mem x hy)
    have herase : (before.eraseP (· == x)).countP (· == y) + (if x == y then 1 else 0) = before.countP (· == y) :=
      countP_eraseP_beq hany
    omega

theorem beyond_eq_nil_of_perm {before after : List α} (hperm : after.Perm before) (hself : ∀ x ∈ before, x == x) :
    beyond before after = [] :=
  beyond_eq_nil_of_count (fun x hx => hself x (hperm.mem_iff.1 hx)) fun _ _ => Nat.le_of_eq (hperm.countP_eq _)

end Beyond

namespace Enriched
variable {α ι : Type} [ExampleNode α ι] [DecidableEq ι] {e : Enriched α} {change : α → α}

/-- A change that adds nothing has no operand. -/
theorem not_of_added_nil (h : e.added change = .ok []) : e.not change = .error .misuse := not_eq h

theorem optional_of_added_nil (h : e.added change = .ok []) : e.optional change = .ok e := optional_eq h

theorem or_of_added_nil {other : α → α} {operands : List Predicate} (h : e.added change = .ok [])
    (hother : e.added other = .ok operands) : e.or change other = .ok e ∧ e.or other change = .ok e := by
  rw [or_eq h hother, or_eq hother h]
  cases Predicate.all? operands <;> exact ⟨rfl, rfl⟩

/-- Where the marks decide alike below the nodes that a node refers to, a
change of marks adds nothing. -/
theorem added_of_remark {isMatch : Bool} {marks : ι → Bool} {b : Branch}
    (hchange : ExampleNode.rooted (change e.base) = (ExampleNode.rooted e.base).remark isMatch marks)
    (hb : (ExampleNode.rooted e.base).compile e.limit = .ok b) (hself : ∀ p ∈ b.step.constraints, p == p)
    (hmarked : ∀ property next, (ExampleNode.rooted e.base).root.Refers property next →
      (ExampleNode.rooted e.base).graph.SameMarkedBelow ((ExampleNode.rooted e.base).graph.remark marks) next) :
    e.added change = .ok [] := by
  obtain ⟨b', hb', -, hperm⟩ := Rooted.compile_remark hb isMatch marks
  rw [← hchange] at hb'
  rw [added_eq hb hb', beyond_eq_nil_of_perm (hperm hmarked) hself]

/-- **Marks are no constraints, as far as they do not show in a condition.** A
graph that compiles does so under any other marks, to a step that asks the same
at every level. If below the nodes that the root refers to the same nodes lead
to a marked one as before, the constraints are the very same, up to their
order. A change to that effect of a node, none of whose constraints mentions
NaN, adds nothing: it is refused as an operand of `not`, and neither
`optional` nor `or`, on either side, appends anything for it. -/
theorem constraints_of_remark (α ι : Type) [ExampleNode α ι] [DecidableEq ι] :
    (∀ (graph : Graph ι) (marks : ι → Bool) (limit : Nat) (root : ι) (b : Branch),
      graph.compile limit root = .ok b → ∃ b', (graph.remark marks).compile limit root = .ok b' ∧
        b.step.AsksSame b'.step ∧
        ((∀ next, graph.Edge root next → graph.SameMarkedBelow (graph.remark marks) next) →
          b'.step.constraints.Perm b.step.constraints)) ∧
      ∀ (e : Enriched α) (change : α → α) (isMatch : Bool) (marks : ι → Bool) (b : Branch),
        ExampleNode.rooted (change e.base) = (ExampleNode.rooted e.base).remark isMatch marks →
        (ExampleNode.rooted e.base).compile e.limit = .ok b → (∀ p ∈ b.step.constraints, p == p) →
        (∀ property next, (ExampleNode.rooted e.base).root.Refers property next →
          (ExampleNode.rooted e.base).graph.SameMarkedBelow ((ExampleNode.rooted e.base).graph.remark marks) next) →
        e.not change = .error .misuse ∧ e.optional change = .ok e ∧
          ∀ other operands, e.added other = .ok operands → e.or change other = .ok e ∧ e.or other change = .ok e := by
  refine ⟨fun graph marks limit root b hb => Graph.compile_remark hb marks, ?_⟩
  intro e change isMatch marks b hchange hb hself hmarked
  have hadded : e.added change = .ok [] := added_of_remark hchange hb hself hmarked
  exact ⟨not_of_added_nil hadded, optional_of_added_nil hadded, fun _ _ => or_of_added_nil hadded⟩

/-- A build of a repository that an organisation owns. -/
def ownedBuild : Rooted (Fin 2) where
  root := ⟨"build", ["Build"], [("repo", .node 0)], false, []⟩
  graph
    | 0 => ⟨"repo", ["Repo"], [("org", .node 1)], false, []⟩
    | 1 => ⟨"org", ["Org"], [], false, []⟩

/-- The repository is marked. -/
theorem constraints_of_remark_repo :
    (Enriched.of ownedBuild).not (Rooted.remark false fun id => id = 0) = .error .misuse := by
  have hcompile : ownedBuild.compile defaultRecursionLimit =
      .ok ⟨⟨"Build", [.related ⟨"repo", ⟨"Repo", [.related ⟨"org", ⟨"Org", [], []⟩⟩], []⟩⟩], []⟩, false⟩ := rfl
  have hedge : ∀ {id next : Fin 2}, ownedBuild.graph.Edge id next → next = 1 := by
    rintro id next ⟨property, hrefers⟩
    have hmem := Node.mem_references_iff.2 hrefers
    match id with
    | 0 =>
      obtain ⟨-, rfl⟩ := Prod.mk.inj (List.mem_singleton.1 hmem)
      rfl
    | 1 => cases hmem
  have hbelow : ∀ property next, ownedBuild.root.Refers property next →
      ownedBuild.graph.SameMarkedBelow (ownedBuild.graph.remark fun id => id = 0) next := by
    refine fun property next _ => Graph.sameMarkedBelow_of_marks fun further hfurther => ?_
    obtain ⟨_, -, hlast⟩ := Relation.TransGen.tail'_iff.1 hfurther
    rw [hedge hlast]
    rfl
  obtain ⟨-, hchanges⟩ := constraints_of_remark (Rooted (Fin 2)) (Fin 2)
  obtain ⟨hnot, -⟩ := hchanges (.of ownedBuild) (Rooted.remark false fun id => id = 0) false (fun id => id = 0) _
    rfl hcompile (List.forall_mem_singleton.2 (by cbv)) hbelow
  exact hnot

/-- The organisation is marked: the condition on the repository is another one,
so its negation is taken for what the mark adds. -/
theorem constraints_remark_org :
    let mark := Rooted.remark false fun (id : Fin 2) => id = 1
    let org : Step := ⟨"Org", [], []⟩
    (ownedBuild.compile defaultRecursionLimit).map (fun b => b.step.constraints) =
        .ok [.related ⟨"repo", ⟨"Repo", [.related ⟨"org", org⟩], []⟩⟩] ∧
      ((mark ownedBuild).compile defaultRecursionLimit).map (fun b => b.step.constraints) =
        .ok [.related ⟨"repo", ⟨"Repo", [], [⟨"org", org⟩]⟩⟩] ∧
      (Enriched.of ownedBuild).not mark =
        .ok ((Enriched.of ownedBuild).addPredicate (.negated (.related ⟨"repo", ⟨"Repo", [], [⟨"org", org⟩]⟩⟩))) := by
  refine ⟨rfl, rfl, ?_⟩
  cbv

end Enriched
end QueryByExample
