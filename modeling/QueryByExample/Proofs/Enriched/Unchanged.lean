/-
Changes that change nothing.

Such a change gives a node that answers as before and so has the constraints
that it had. Each of them accounts for itself, one for one, but for those that
are not equal to themselves: what the change adds are exactly the constraints
that mention NaN (`added_of_alike`). So it is recognised as adding nothing
exactly when NaN is nowhere in the graph (`unchanged_adds_nothing_iff`).
-/
import QueryByExample.Example.Basic
import QueryByExample.Proofs.Enriched.Remarked
import QueryByExample.Proofs.Graph.Alike
import QueryByExample.Proofs.Graph.Wrapped
import QueryByExample.Proofs.Path.NaN

namespace QueryByExample

section Beyond
variable {α : Type} [BEq α] [PartialEquivBEq α]

/-- Nothing is equal to what is not equal to itself. -/
theorem beq_eq_false_of_self {x : α} (hx : (x == x) = false) (y : α) : (y == x) = false := by
  refine Bool.eq_false_iff.2 fun h => ?_
  have hself : (x == x) = true := BEq.trans (BEq.symm h) h
  rw [hx] at hself
  cases hself

/-- Elements that are not equal to themselves account for nothing. -/
theorem beyond_append_self {idle : List α} (hidle : ∀ y ∈ idle, (y == y) = false) (xs : List α) :
    beyond (idle ++ xs) xs = xs.filter fun x => !(x == x) := by
  induction xs generalizing idle with
  | nil => rfl
  | cons x xs ih =>
    rw [beyond]
    by_cases hx : (x == x) = true
    · have hothers : ∀ y ∈ idle, ¬ (y == x) = true := fun y hy => by
        rw [BEq.comm, beq_eq_false_of_self (hidle y hy) x]
        exact Bool.false_ne_true
      have hany : (idle ++ x :: xs).any (· == x) = true := List.any_eq_true.2 ⟨x, by simp, hx⟩
      have herase : (idle ++ x :: xs).eraseP (· == x) = idle ++ xs := by
        rw [List.eraseP_append_right _ hothers, List.eraseP_cons, hx]
        rfl
      rw [if_pos hany, herase, ih hidle, List.filter_cons_of_neg (by simp [hx])]
    · rw [Bool.not_eq_true] at hx
      have hany : ¬ (idle ++ x :: xs).any (· == x) = true := by
        simp [beq_eq_false_of_self hx]
      have hidle' : ∀ y ∈ idle ++ [x], (y == y) = false := fun y hy => by
        rcases List.mem_append.1 hy with hy | hy
        · exact hidle y hy
        · rwa [List.mem_singleton.1 hy]
      have hrest := ih hidle'
      rw [List.append_assoc, List.singleton_append] at hrest
      rw [if_neg hany, hrest, List.filter_cons_of_pos (by simp [hx])]

theorem beyond_self (xs : List α) : beyond xs xs = xs.filter fun x => !(x == x) := by
  have hidle : ∀ y ∈ ([] : List α), (y == y) = false := by simp
  exact beyond_append_self hidle xs

end Beyond

variable {α ι : Type}

/-- NaN is in a relevant field of the node, or in one of its custom predicates. -/
def Node.MentionsNaN (node : Node ι) : Prop :=
  (∃ property value, (property, Leaf.scalar value) ∈ node.leaves ∧ value.isNaN = true) ∨
    ∃ p ∈ node.custom, p.mentionsNaN = true

/-- NaN is in a node in reach. -/
def Graph.MentionsNaN (graph : Graph ι) (id : ι) : Prop :=
  ∃ other, graph.Reaches id other ∧ (graph other).MentionsNaN

/-- NaN is in the object itself or in a node in reach of it. -/
def Rooted.MentionsNaN (rooted : Rooted ι) : Prop :=
  rooted.root.MentionsNaN ∨ ∃ property next, rooted.root.Refers property next ∧ rooted.graph.MentionsNaN next

theorem any_equalities_iff {leaves : List (String × Leaf ι)} :
    (equalities leaves).any Predicate.mentionsNaN = true ↔
      ∃ property value, (property, Leaf.scalar value) ∈ leaves ∧ value.isNaN = true := by
  induction leaves with
  | nil => simp [equalities]
  | cons leaf rest ih =>
    obtain ⟨name, value | id⟩ := leaf
    · rw [equalities, List.any_cons, Bool.or_eq_true, ih, Predicate.mentionsNaN]
      simp only [List.mem_cons, Prod.mk.injEq, Leaf.scalar.injEq]
      constructor
      · rintro (h | ⟨property, other, hmem, h⟩)
        · exact ⟨name, value, .inl ⟨rfl, rfl⟩, h⟩
        · exact ⟨property, other, .inr hmem, h⟩
      · rintro ⟨property, other, ⟨rfl, rfl⟩ | hmem, h⟩
        · exact .inl h
        · exact .inr ⟨property, other, hmem, h⟩
    · rw [equalities, ih]
      simp

theorem any_filter_or_any_filter {β : Type} (p f : β → Bool) (l : List β) :
    ((l.filter fun x => !p x).any f || (l.filter p).any f) = l.any f := by
  rw [List.any_filter, List.any_filter]
  induction l with
  | nil => rfl
  | cons x l ih =>
    simp only [List.any_cons, ← ih]
    cases p x <;> cases f x <;> simp

/-- The step of a node mentions NaN when the node does or a step below it. -/
theorem Node.mentionsNaN_unfold (node : Node ι) (tag : String) (child : ι → NodeTree) :
    (node.unfold tag child).branch.step.mentionsNaN = true ↔ node.MentionsNaN ∨
      ∃ property next, node.Refers property next ∧ (child next).branch.step.mentionsNaN = true := by
  have hcondition : ∀ r : String × ι, (Predicate.related ⟨r.1, (child r.2).branch.step⟩).mentionsNaN =
      (child r.2).branch.step.mentionsNaN := fun r => by rw [Predicate.mentionsNaN, Relation.mentionsNaN]
  have hbelow := any_filter_or_any_filter (fun r : String × ι => (child r.2).branch.isMatch)
    (fun r => (child r.2).branch.step.mentionsNaN) node.references
  rw [Step.mentionsNaN_eq, Node.branch_unfold, Step.constraints]
  simp only [List.any_append, List.any_map, Function.comp_def, hcondition, Bool.or_assoc]
  rw [Bool.or_left_comm _ (node.custom.any _), hbelow, ← Bool.or_assoc, Bool.or_eq_true, Bool.or_eq_true,
    any_equalities_iff, List.any_eq_true, List.any_eq_true, Node.MentionsNaN]
  refine or_congr_right ?_
  constructor
  · rintro ⟨⟨property, next⟩, hmem, h⟩
    exact ⟨property, next, Node.mem_references_iff.1 hmem, h⟩
  · rintro ⟨property, next, hrefers, h⟩
    exact ⟨(property, next), Node.mem_references_iff.2 hrefers, h⟩

namespace Graph
variable {graph : Graph ι} {id : ι}

theorem mentionsNaN_iff : graph.MentionsNaN id ↔ (graph id).MentionsNaN ∨
    ∃ property next, (graph id).Refers property next ∧ graph.MentionsNaN next := by
  constructor
  · rintro ⟨other, hreach, h⟩
    rcases Relation.ReflTransGen.cases_head hreach with rfl | ⟨next, ⟨property, hrefers⟩, hreach⟩
    · exact .inl h
    · exact .inr ⟨property, next, hrefers, other, hreach, h⟩
  · rintro (h | ⟨property, next, hrefers, other, hreach, h⟩)
    · exact ⟨id, .refl, h⟩
    · exact ⟨other, .head ⟨property, hrefers⟩ hreach, h⟩

theorem Unfolds.mentionsNaN_iff {t : NodeTree} (h : graph.Unfolds id t) :
    t.branch.step.mentionsNaN = true ↔ graph.MentionsNaN id := by
  induction h with
  | @node id tag tags child _ _ ih =>
    rw [Node.mentionsNaN_unfold, Graph.mentionsNaN_iff]
    refine or_congr_right (exists₂_congr fun property next => and_congr_right fun hrefers => ?_)
    exact ih property next hrefers

end Graph

theorem Rooted.mentionsNaN_iff [DecidableEq ι] {rooted : Rooted ι} {limit : Nat} {b : Branch}
    (h : rooted.compile limit = .ok b) : b.step.mentionsNaN = true ↔ rooted.MentionsNaN := by
  obtain ⟨tag, tags, child, -, hchild, -, rfl⟩ := Rooted.compile_eq_ok_iff.1 h
  rw [Node.mentionsNaN_unfold, Rooted.MentionsNaN]
  refine or_congr_right (exists₂_congr fun property next => and_congr_right fun hrefers => ?_)
  exact (hchild property next hrefers).mentionsNaN_iff

namespace Enriched
variable [ExampleNode α ι] [DecidableEq ι] {e : Enriched α} {change : α → α} {b : Branch}

theorem added_of_alike (hb : (ExampleNode.rooted e.base).compile e.limit = .ok b)
    (hsame : (ExampleNode.rooted e.base).Alike (ExampleNode.rooted (change e.base))) :
    e.added change = .ok (b.step.constraints.filter Predicate.mentionsNaN) := by
  have hself : (fun p : Predicate => !(p == p)) = Predicate.mentionsNaN := funext fun p => by
    rw [Predicate.beq_self, Bool.not_not]
  rw [added_eq hb (hsame.compile_eq_ok hb), beyond_self, hself]

/-- It adds nothing when NaN is nowhere, and only then. -/
theorem added_eq_nil_iff (hb : (ExampleNode.rooted e.base).compile e.limit = .ok b) :
    b.step.constraints.filter Predicate.mentionsNaN = [] ↔ ¬ (ExampleNode.rooted e.base).MentionsNaN := by
  rw [← Rooted.mentionsNaN_iff hb, Step.mentionsNaN_eq, List.filter_eq_nil_iff, List.any_eq_true]
  simp

theorem addPredicate_ne (e : Enriched α) (p : Predicate) : e.addPredicate p ≠ e := fun h => by
  have hlength := congrArg (fun e : Enriched α => e.predicates.length) h
  simp [addPredicate] at hlength

/-- A change that adds something is taken for an operand. -/
theorem all?_isSome_of_ne_nil {ps : List Predicate} (h : ps ≠ []) : ∃ p, Predicate.all? ps = some p := by
  match ps, h with
  | [p], _ => exact ⟨p, rfl⟩
  | p :: q :: ps, _ => exact ⟨.every (p :: q :: ps), rfl⟩

theorem not_eq_misuse_iff {operands : List Predicate} (h : e.added change = .ok operands) :
    e.not change = .error .misuse ↔ operands = [] := by
  refine ⟨fun hnot => Classical.byContradiction fun hne => ?_, fun hnil => not_of_added_nil (hnil ▸ h)⟩
  obtain ⟨p, hp⟩ := all?_isSome_of_ne_nil hne
  rw [not_eq h, hp] at hnot
  cases hnot

theorem optional_eq_self_iff {operands : List Predicate} (h : e.added change = .ok operands) :
    e.optional change = .ok e ↔ operands = [] := by
  refine ⟨fun hoptional => Classical.byContradiction fun hne => ?_, fun hnil => optional_of_added_nil (hnil ▸ h)⟩
  obtain ⟨p, hp⟩ := all?_isSome_of_ne_nil hne
  rw [optional_eq h, hp] at hoptional
  exact addPredicate_ne e _ (Except.ok.inj hoptional)

/-- **A change that changes nothing adds nothing, as long as NaN is nowhere.**
Let a node compile and let a change give one that answers alike. What the change
adds are the constraints of the node that mention NaN, and no others. So it is
refused as an operand of `not`, and `optional` leaves the enriched node as it
is, exactly when NaN is neither in the node nor in a node in reach of it, and
then so does `or` with such a change on either side and any other change that
compiles on the other side. -/
theorem unchanged_adds_nothing_iff (e : Enriched α) (change : α → α)
    (hb : (ExampleNode.rooted e.base).compile e.limit = .ok b)
    (hsame : (ExampleNode.rooted e.base).Alike (ExampleNode.rooted (change e.base))) :
    e.added change = .ok (b.step.constraints.filter Predicate.mentionsNaN) ∧
      (e.not change = .error .misuse ↔ ¬ (ExampleNode.rooted e.base).MentionsNaN) ∧
      (e.optional change = .ok e ↔ ¬ (ExampleNode.rooted e.base).MentionsNaN) ∧
      (¬ (ExampleNode.rooted e.base).MentionsNaN → ∀ (other : α → α) (b' : Branch),
        (ExampleNode.rooted (other e.base)).compile e.limit = .ok b' →
          e.or change other = .ok e ∧ e.or other change = .ok e) := by
  have hadded : e.added change = .ok (b.step.constraints.filter Predicate.mentionsNaN) := added_of_alike hb hsame
  refine ⟨hadded, ?_, ?_, fun hnone other b' hb' => ?_⟩
  · rw [not_eq_misuse_iff hadded, added_eq_nil_iff hb]
  · rw [optional_eq_self_iff hadded, added_eq_nil_iff hb]
  · rw [(added_eq_nil_iff hb).2 hnone] at hadded
    exact or_of_added_nil hadded (added_eq hb hb')

/-- A build of a repository that has a fork which answers alike, with both zeros
in one list. A node is the fork or it is not. -/
def forkedBuild : Rooted Bool where
  root := ⟨"build", ["Build"],
    [("repo", .node false), ("drift", .list [.scalar (.float (.zero true)), .scalar (.float (.zero false))])], false,
    [.custom "[@tagged]"]⟩
  graph
    | false => ⟨"repo", ["Repo"], [("stars", .scalar (.int 3))], true, []⟩
    | true => ⟨"fork", ["Repo"], [("stars", .scalar (.int 3)), ("_cache", .node false)], true, []⟩

/-- The build refers to the fork. -/
def ofFork (build : Rooted Bool) : Rooted Bool :=
  { build with root := build.root.map fun _ => true }

theorem unchanged_adds_nothing_iff_fork :
    (Enriched.of forkedBuild).not ofFork = .error .misuse ∧
      (Enriched.of forkedBuild).optional ofFork = .ok (Enriched.of forkedBuild) ∧
      (Enriched.of forkedBuild).or id ofFork = .ok (Enriched.of forkedBuild) := by
  have hcompile : forkedBuild.compile defaultRecursionLimit = .ok
      { step :=
          { tag := "Build"
            predicates := [.equals "drift" (.float (.zero true)), .equals "drift" (.float (.zero false)),
              .custom "[@tagged]"]
            matched := [⟨"repo", ⟨"Repo", [.equals "stars" (.int 3)], []⟩⟩] }
        isMatch := true } := rfl
  have hsame : forkedBuild.Alike (ofFork forkedBuild) := by
    refine ⟨fun id id' => id = false ∧ id' = true, ⟨rfl, rfl, rfl, ?_⟩, ?_⟩
    · exact .cons ⟨rfl, .node ⟨rfl, rfl⟩⟩ (.cons ⟨rfl, .scalar _⟩ (.cons ⟨rfl, .scalar _⟩ .nil))
    · rintro _ _ ⟨rfl, rfl⟩
      exact ⟨rfl, rfl, rfl, .cons ⟨rfl, .scalar _⟩ .nil⟩
  have hnone : ¬ forkedBuild.MentionsNaN := by
    rw [← Rooted.mentionsNaN_iff hcompile, Bool.not_eq_true]
    cbv
  obtain ⟨-, hnot, hoptional, hor⟩ :=
    unchanged_adds_nothing_iff (Enriched.of forkedBuild) ofFork hcompile hsame
  exact ⟨hnot.2 hnone, hoptional.2 hnone, (hor hnone id _ hcompile).2⟩

/-- A build with a score that is no number: what is not changed at all is taken
for the operand. -/
theorem unchanged_nan_adds :
    let build := (Example.ofTag "Build").set "score" (.scalar (.float .nan))
    let score : Predicate := .equals "score" (.float .nan)
    (build.compile defaultRecursionLimit).map (fun b => b.step.constraints) = .ok [score] ∧
      (ExampleNode.rooted build).Alike (ExampleNode.rooted (id build)) ∧
      (Enriched.of build).not id = .ok ((Enriched.of build).addPredicate (.negated score)) ∧
      (Enriched.of build).optional id = .ok ((Enriched.of build).addPredicate (.optional score)) ∧
      (Enriched.of build).or id id = .ok ((Enriched.of build).addPredicate (.either score score)) := by
  refine ⟨rfl, .of_eq rfl rfl rfl rfl rfl, ?_, ?_, ?_⟩ <;> cbv

end Enriched
end QueryByExample
