/-
Marks and what a step asks.

Marks decide which related nodes are matches, not what is asked of a node: the
constraints are the equalities, one condition for each reference and the
custom predicates, in whatever order the marks put them
(`Node.constraints_unfold_perm`). So graphs that differ in their marks compile
to steps that ask the same (`Unfolds.asksSame_remark`).

As text they may still differ. A step inside a condition keeps its own matches
as matches, so a mark two levels down shows in the condition that leads there.
Where the marks decide alike below the nodes that a node refers to, its
constraints are the very same ones, in some order
(`Unfolds.constraints_remark_perm`).
-/
import QueryByExample.Proofs.Graph.Marks

namespace QueryByExample

mutual

/-- The steps ask the same of their nodes, whichever of the related nodes are
matches. -/
inductive Step.AsksSame : Step → Step → Prop
  | intro {s s' : Step} : s.tag = s'.tag → Predicate.AskSame s.constraints s'.constraints → Step.AsksSame s s'

/-- The predicates are the same ones in another order, apart from steps in
conditions, which ask the same. -/
inductive Predicate.AskSame : List Predicate → List Predicate → Prop
  | nil : Predicate.AskSame [] []
  | cons (p : Predicate) {ps qs : List Predicate} :
      Predicate.AskSame ps qs → Predicate.AskSame (p :: ps) (p :: qs)
  | related (name : String) {s s' : Step} {ps qs : List Predicate} :
      s.AsksSame s' → Predicate.AskSame ps qs →
      Predicate.AskSame (.related ⟨name, s⟩ :: ps) (.related ⟨name, s'⟩ :: qs)
  | swap (p q : Predicate) (ps : List Predicate) : Predicate.AskSame (q :: p :: ps) (p :: q :: ps)
  | trans {ps qs rs : List Predicate} : Predicate.AskSame ps qs → Predicate.AskSame qs rs → Predicate.AskSame ps rs

end

namespace Predicate.AskSame

theorem of_perm {ps qs : List Predicate} (h : ps.Perm qs) : AskSame ps qs := by
  induction h with
  | nil => exact .nil
  | cons p _ ih => exact .cons p ih
  | swap p q ps => exact .swap p q ps
  | trans _ _ ih ih' => exact .trans ih ih'

theorem refl (ps : List Predicate) : AskSame ps ps := of_perm (.refl ps)

theorem append_left (ps : List Predicate) {qs rs : List Predicate} (h : AskSame qs rs) :
    AskSame (ps ++ qs) (ps ++ rs) := by
  induction ps with
  | nil => exact h
  | cons p ps ih => exact .cons p ih

end Predicate.AskSame

variable {ι : Type}

def Node.remark (isMatch : Bool) (node : Node ι) : Node ι :=
  { node with isMatch }

/-- The graph with other marks. -/
def Graph.remark (marks : ι → Bool) (graph : Graph ι) : Graph ι :=
  fun id => (graph id).remark (marks id)

/-- The constraints of a node, in an order that owes nothing to the marks. -/
def Node.constraintsWith (node : Node ι) (step : ι → Step) : List Predicate :=
  equalities node.leaves ++ ((node.references.map fun r => .related ⟨r.1, step r.2⟩) ++ node.custom)

@[simp] theorem Node.leaves_remark (isMatch : Bool) (node : Node ι) : (node.remark isMatch).leaves = node.leaves := rfl

@[simp] theorem Node.constraintsWith_remark (isMatch : Bool) (node : Node ι) (step : ι → Step) :
    (node.remark isMatch).constraintsWith step = node.constraintsWith step := rfl

/-- Marks put the constraints of a node in order and do no more. -/
theorem Node.constraints_unfold_perm (node : Node ι) (tag : String) (child : ι → NodeTree) :
    (node.unfold tag child).branch.step.constraints.Perm
      (node.constraintsWith fun next => (child next).branch.step) := by
  let condition (r : String × ι) : Predicate := .related ⟨r.1, (child r.2).branch.step⟩
  let isMatch (r : String × ι) : Bool := (child r.2).branch.isMatch
  let conditions := (node.references.filter fun r => !isMatch r).map condition
  let matched := (node.references.filter isMatch).map condition
  have hreferences : (conditions ++ matched).Perm (node.references.map condition) := by
    rw [← List.map_append]
    exact (List.perm_append_comm.trans (List.filter_append_perm isMatch node.references)).map condition
  rw [branch_unfold, Step.constraints, List.map_map, List.append_assoc, List.append_assoc]
  refine .append_left (equalities node.leaves) ?_
  calc (conditions ++ (node.custom ++ matched)).Perm (conditions ++ (matched ++ node.custom)) :=
        List.perm_append_comm.append_left conditions
    _ = conditions ++ matched ++ node.custom := (List.append_assoc _ _ _).symm
    List.Perm _ (node.references.map condition ++ node.custom) := hreferences.append_right node.custom

section Levels
variable {node : Node ι} {child child' : ι → NodeTree}

/-- Whatever the mark on a node, it asks the same if the steps below do. -/
theorem Node.asksSame_remark (isMatch : Bool) (tag : String)
    (h : ∀ property next, node.Refers property next → (child next).branch.step.AsksSame (child' next).branch.step) :
    (node.unfold tag child).branch.step.AsksSame ((node.remark isMatch).unfold tag child').branch.step := by
  have hconditions : Predicate.AskSame (node.constraintsWith fun next => (child next).branch.step)
      (node.constraintsWith fun next => (child' next).branch.step) := by
    refine .append_left _ ?_
    have hall : ∀ r ∈ node.references, (child r.2).branch.step.AsksSame (child' r.2).branch.step :=
      fun r hr => h r.1 r.2 (mem_references_iff.1 hr)
    generalize node.references = references at hall
    induction references with
    | nil => exact .refl node.custom
    | cons r rest ih =>
      rw [List.forall_mem_cons] at hall
      exact .related r.1 hall.1 (ih hall.2)
  have hperm := node.constraints_unfold_perm tag child
  have hperm' := (node.remark isMatch).constraints_unfold_perm tag child'
  refine .intro (by rw [branch_unfold, branch_unfold]) ?_
  exact .trans (.of_perm hperm) (.trans hconditions (.of_perm hperm'.symm))

/-- Whatever the mark on a node, its constraints are the same if the steps
below are. -/
theorem Node.constraints_remark_perm (isMatch : Bool) (tag : String)
    (h : ∀ property next, node.Refers property next → (child next).branch.step = (child' next).branch.step) :
    ((node.remark isMatch).unfold tag child').branch.step.constraints.Perm
      (node.unfold tag child).branch.step.constraints := by
  have hconditions : (node.constraintsWith fun next => (child next).branch.step) =
      node.constraintsWith fun next => (child' next).branch.step := by
    rw [constraintsWith, List.map_congr_left fun r hr => by rw [h r.1 r.2 (mem_references_iff.1 hr)]]
    rfl
  have hperm' := (node.remark isMatch).constraints_unfold_perm tag child'
  rw [constraintsWith_remark, ← hconditions] at hperm'
  exact hperm'.trans (node.constraints_unfold_perm tag child).symm

/-- Whatever the mark on a node, its step is the same if the branches below are. -/
theorem Node.step_remark (isMatch : Bool) (tag : String)
    (h : ∀ property next, node.Refers property next → (child next).branch = (child' next).branch) :
    (node.unfold tag child).branch.step = ((node.remark isMatch).unfold tag child').branch.step := by
  have hnested : ((nodesAmong node.leaves).map fun r => (r.1, (child r.2).branch)) =
      (nodesAmong node.leaves).map fun r => (r.1, (child' r.2).branch) :=
    List.map_congr_left fun r hr => by rw [h r.1 r.2 (mem_references_iff.1 hr)]
  simp only [unfold, NodeTree.branch, NodeTree.nestedBranches_map, equalities_map, leaves_remark, hnested]
  rfl

end Levels

namespace Graph
variable {graph : Graph ι} {marks : ι → Bool} {id : ι} {t t' : NodeTree}

/-- Other marks leave the shape of an unfolding as it is. -/
theorem Unfolds.exists_remark (h : graph.Unfolds id t) (marks : ι → Bool) :
    ∃ t', (graph.remark marks).Unfolds id t' ∧ t'.height ≤ t.height := by
  induction h with
  | @node id tag tags child htags _ ih =>
    obtain ⟨child', hchild'⟩ := Node.exists_children ih
    refine ⟨_, .node child' htags fun property next hrefers => (hchild' property next hrefers).1, ?_⟩
    exact Node.height_unfold_le (fun property next hrefers => (hchild' property next hrefers).2) tag

/-- One level of an unfolding under other marks. -/
theorem Unfolds.remark_level {tag : String} {tags : List String} (htags : (graph id).tags = tag :: tags)
    (h : (graph.remark marks).Unfolds id t) : ∃ child, t = ((graph id).remark (marks id)).unfold tag child ∧
      ∀ property next, (graph id).Refers property next → (graph.remark marks).Unfolds next (child next) := by
  obtain ⟨tag', tags', child, htags', hchild, rfl⟩ := unfolds_iff.1 h
  obtain ⟨rfl, -⟩ := List.cons.inj (htags.symm.trans htags')
  exact ⟨child, rfl, hchild⟩

/-- Whatever the marks, a step asks the same. -/
theorem Unfolds.asksSame_remark (h : graph.Unfolds id t) (h' : (graph.remark marks).Unfolds id t') :
    t.branch.step.AsksSame t'.branch.step := by
  induction h generalizing t' with
  | @node id tag tags child htags _ ih =>
    obtain ⟨child', rfl, hchild'⟩ := h'.remark_level htags
    exact Node.asksSame_remark (marks id) tag fun property next hrefers =>
      ih property next hrefers (hchild' property next hrefers)

/-- Below the node, the same nodes lead to a marked one. -/
def SameMarkedBelow (graph other : Graph ι) (id : ι) : Prop :=
  ∀ next, Relation.TransGen graph.Edge id next → (graph.Marked next ↔ other.Marked next)

theorem sameMarkedBelow_of_marks
    (h : ∀ next, Relation.TransGen graph.Edge id next → marks next = (graph next).isMatch) :
    graph.SameMarkedBelow (graph.remark marks) id := by
  intro next hnext
  refine exists_congr fun other => and_congr_right fun hreach => ?_
  rw [← h other (hnext.trans_left hreach)]
  rfl

/-- Where the same nodes below lead to a marked one, the step is the same. -/
theorem Unfolds.step_remark (h : graph.Unfolds id t) (h' : (graph.remark marks).Unfolds id t')
    (hmarked : graph.SameMarkedBelow (graph.remark marks) id) : t.branch.step = t'.branch.step := by
  induction h generalizing t' with
  | @node id tag tags child htags hchild ih =>
    obtain ⟨child', rfl, hchild'⟩ := h'.remark_level htags
    refine Node.step_remark (marks id) tag fun property next hrefers => ?_
    have hedge : graph.Edge id next := ⟨property, hrefers⟩
    have hunfolds := hchild property next hrefers
    have hunfolds' := hchild' property next hrefers
    have hstep : (child next).branch.step = (child' next).branch.step :=
      ih property next hrefers hunfolds' fun further hfurther => hmarked further (.head hedge hfurther)
    have hmatch : (child next).branch.isMatch = (child' next).branch.isMatch :=
      Bool.eq_iff_iff.2 (hunfolds.isMatch_iff.trans ((hmarked next (.single hedge)).trans hunfolds'.isMatch_iff.symm))
    exact Branch.mk.injEq .. ▸ ⟨hstep, hmatch⟩

/-- Where the same nodes lead to a marked one below those that a node refers
to, the constraints of the node are the same, in an order of their own. -/
theorem Unfolds.constraints_remark_perm (h : graph.Unfolds id t) (h' : (graph.remark marks).Unfolds id t')
    (hmarked : ∀ next, graph.Edge id next → graph.SameMarkedBelow (graph.remark marks) next) :
    t'.branch.step.constraints.Perm t.branch.step.constraints := by
  obtain ⟨tag, tags, child, htags, hchild, rfl⟩ := unfolds_iff.1 h
  obtain ⟨child', rfl, hchild'⟩ := h'.remark_level htags
  exact Node.constraints_remark_perm (marks id) tag fun property next hrefers =>
    (hchild property next hrefers).step_remark (hchild' property next hrefers) (hmarked next ⟨property, hrefers⟩)

variable [DecidableEq ι]

/-- A graph that compiles does so under other marks too, to a step that asks
the same, and with the very same constraints where the marks decide alike
below the nodes that the root refers to. -/
theorem compile_remark {limit : Nat} {b : Branch} (h : graph.compile limit id = .ok b) (marks : ι → Bool) :
    ∃ b', (graph.remark marks).compile limit id = .ok b' ∧ b.step.AsksSame b'.step ∧
      ((∀ next, graph.Edge id next → graph.SameMarkedBelow (graph.remark marks) next) →
        b'.step.constraints.Perm b.step.constraints) := by
  obtain ⟨t, ht, hheight, rfl⟩ := compile_eq_ok_iff.1 h
  obtain ⟨t', ht', hle⟩ := ht.exists_remark marks
  exact ⟨t'.branch, compile_eq_ok_iff.2 ⟨t', ht', Nat.le_trans hle hheight, rfl⟩, ht.asksSame_remark ht',
    ht.constraints_remark_perm ht'⟩

end Graph

namespace Rooted

/-- The object and the graph below it with other marks. -/
def remark (isMatch : Bool) (marks : ι → Bool) (rooted : Rooted ι) : Rooted ι :=
  ⟨rooted.graph.remark marks, rooted.root.remark isMatch⟩

theorem compile_remark [DecidableEq ι] {rooted : Rooted ι} {limit : Nat} {b : Branch}
    (h : rooted.compile limit = .ok b) (isMatch : Bool) (marks : ι → Bool) :
    ∃ b', (rooted.remark isMatch marks).compile limit = .ok b' ∧ b.step.AsksSame b'.step ∧
      ((∀ property next, rooted.root.Refers property next →
          rooted.graph.SameMarkedBelow (rooted.graph.remark marks) next) →
        b'.step.constraints.Perm b.step.constraints) := by
  obtain ⟨tag, tags, child, htags, hchild, hheight, rfl⟩ := compile_eq_ok_iff.1 h
  obtain ⟨child', hchild'⟩ := Node.exists_children fun property next hrefers =>
    (hchild property next hrefers).exists_remark marks
  have hunfolds' : ∀ property next, rooted.root.Refers property next →
      (rooted.graph.remark marks).Unfolds next (child' next) := fun property next hrefers =>
    (hchild' property next hrefers).1
  have hheight' : (rooted.root.unfold tag child').height ≤ limit := Nat.le_trans
    (Node.height_unfold_le (fun property next hrefers => (hchild' property next hrefers).2) tag) hheight
  refine ⟨_, compile_eq_ok_iff.2 ⟨tag, tags, child', htags, hunfolds', hheight', rfl⟩, ?_, fun hmarked => ?_⟩
  · exact Node.asksSame_remark isMatch tag fun property next hrefers =>
      (hchild property next hrefers).asksSame_remark (hunfolds' property next hrefers)
  · exact Node.constraints_remark_perm isMatch tag fun property next hrefers =>
      (hchild property next hrefers).step_remark (hunfolds' property next hrefers) (hmarked property next hrefers)

end Rooted
end QueryByExample
