/-
Which related nodes are matches.

The branch of a node is a match when a marked node is in reach of it
(`Unfolds.isMatch_iff`). So at every level of a compiled step the related
nodes are sorted by what they reach, into matches and conditions
(`Sorted`): what leads to a marked node is a chain of matches from the root
on, and there is no match in a condition (`compile_sorted`).
-/
import Mathlib.Tactic.Choose
import QueryByExample.Proofs.Graph.Unfolding

namespace QueryByExample

mutual

/-- No match leaves from the step, nor from any step in its predicates. -/
def Step.isMatchFree : Step → Bool
  | ⟨_, predicates, matched⟩ => matched.isEmpty && Predicate.allMatchFree predicates

def Predicate.isMatchFree : Predicate → Bool
  | .equals .. => true
  | .related ⟨_, step⟩ => step.isMatchFree
  | .negated p => p.isMatchFree
  | .either p q => p.isMatchFree && q.isMatchFree
  | .every ps => Predicate.allMatchFree ps
  | .optional p => p.isMatchFree
  | .custom _ => true

def Predicate.allMatchFree : List Predicate → Bool
  | [] => true
  | p :: ps => p.isMatchFree && Predicate.allMatchFree ps

end

theorem Predicate.allMatchFree_iff (ps : List Predicate) :
    allMatchFree ps = true ↔ ∀ p ∈ ps, p.isMatchFree = true := by
  induction ps with
  | nil => simp [allMatchFree]
  | cons p ps ih => rw [allMatchFree, Bool.and_eq_true, ih, List.forall_mem_cons]

/-- The relations are matches, the first of the step and each of the step
before. -/
def Step.MatchesAlong : Step → List Relation → Prop
  | _, [] => True
  | s, r :: rest => r ∈ s.matched ∧ r.step.MatchesAlong rest

variable {ι : Type}

theorem isMatchFree_of_mem_equalities {leaves : List (String × Leaf ι)} :
    ∀ p ∈ equalities leaves, p.isMatchFree = true := by
  induction leaves with
  | nil => simp [equalities]
  | cons leaf rest ih =>
    obtain ⟨name, value | id⟩ := leaf
    · exact List.forall_mem_cons.2 ⟨rfl, ih⟩
    · exact ih

namespace Graph

/-- A marked node is in reach. -/
def Marked (graph : Graph ι) (id : ι) : Prop :=
  ∃ other, graph.Reaches id other ∧ (graph other).isMatch = true

/-- From node to node along references, each the name of a field and the node
that it leads to. -/
inductive Along (graph : Graph ι) : ι → List (String × ι) → ι → Prop
  | here (id : ι) : Along graph id [] id
  | step {id next last : ι} {property : String} {path : List (String × ι)} :
      (graph id).Refers property next → Along graph next path last →
      Along graph id ((property, next) :: path) last

open Classical in
/-- The branches of the nodes that a node refers to are sorted by what they
reach: those with a marked node in reach are matches of its step, the others
conditions on it, without a match in them. -/
structure Sorted (graph : Graph ι) (branch : ι → Branch) (id : ι) : Prop where
  isMatch_iff : (branch id).isMatch = true ↔ graph.Marked id
  matched_eq : (branch id).step.matched =
    ((graph id).references.filter fun r => graph.Marked r.2).map fun r => ⟨r.1, (branch r.2).step⟩
  predicates_eq : (branch id).step.predicates = equalities (graph id).leaves ++
    ((graph id).references.filter fun r => ¬ graph.Marked r.2).map fun r =>
      .related ⟨r.1, (branch r.2).step⟩
  isMatchFree : ¬ graph.Marked id → (branch id).step.isMatchFree = true

variable {graph : Graph ι} {root id next last : ι} {t : NodeTree}

theorem Marked.of_reaches (hreach : graph.Reaches id next) (h : graph.Marked next) : graph.Marked id := by
  obtain ⟨other, hreach', hmark⟩ := h
  exact ⟨other, hreach.trans hreach', hmark⟩

theorem marked_iff : graph.Marked id ↔
    (graph id).isMatch = true ∨ ∃ r ∈ (graph id).references, graph.Marked r.2 := by
  constructor
  · rintro ⟨other, hreach, hmark⟩
    rcases Relation.ReflTransGen.cases_head hreach with rfl | ⟨next, ⟨property, hrefers⟩, hreach⟩
    · exact .inl hmark
    · exact .inr ⟨(property, next), Node.mem_references_iff.2 hrefers, other, hreach, hmark⟩
  · rintro (hmark | ⟨⟨property, next⟩, hmem, hmarked⟩)
    · exact ⟨id, .refl, hmark⟩
    · exact hmarked.of_reaches (.single ⟨property, Node.mem_references_iff.1 hmem⟩)

theorem Along.reaches {path : List (String × ι)} (h : graph.Along id path last) :
    graph.Reaches id last := by
  induction h with
  | here => exact .refl
  | step hrefers _ ih => exact .head ⟨_, hrefers⟩ ih

theorem Unfolds.isMatch_iff (h : graph.Unfolds id t) : t.branch.isMatch = true ↔ graph.Marked id := by
  induction h with
  | @node id tag tags child _ _ ih =>
    rw [Node.branch_unfold, marked_iff, Bool.or_eq_true, List.any_eq_true]
    refine or_congr_right (exists_congr fun r => and_congr_right fun hr => ?_)
    exact ih r.1 r.2 (Node.mem_references_iff.1 hr)

/-- Without custom predicates and with no marked node in reach, nothing in the
step is a match. -/
theorem Unfolds.isMatchFree (h : graph.Unfolds id t) (hmarked : ¬ graph.Marked id)
    (hcustom : ∀ other, graph.Reaches id other → (graph other).custom = []) :
    t.branch.step.isMatchFree = true := by
  induction h with
  | @node id tag tags child _ hchild ih =>
    have hedge : ∀ r ∈ (graph id).references, graph.Edge id r.2 := fun r hr =>
      ⟨r.1, Node.mem_references_iff.1 hr⟩
    have hnone : ∀ r ∈ (graph id).references, ¬ graph.Marked r.2 := fun r hr hnext =>
      hmarked (hnext.of_reaches (.single (hedge r hr)))
    have hfree : ∀ r ∈ (graph id).references, (child r.2).branch.step.isMatchFree = true :=
      fun r hr => ih r.1 r.2 (Node.mem_references_iff.1 hr) (hnone r hr) fun other hreach =>
        hcustom other (.head (hedge r hr) hreach)
    have hmatched : (graph id).references.filter (fun r => (child r.2).branch.isMatch) = [] := by
      refine List.filter_eq_nil_iff.2 fun r hr hmatch => hnone r hr ?_
      exact (hchild r.1 r.2 (Node.mem_references_iff.1 hr)).isMatch_iff.1 hmatch
    rw [Node.branch_unfold, hcustom id .refl, hmatched]
    simp only [Step.isMatchFree, List.map_nil, List.isEmpty_nil, Bool.true_and, List.append_nil,
      Predicate.allMatchFree_iff, List.forall_mem_append, List.forall_mem_map]
    refine ⟨isMatchFree_of_mem_equalities, fun r hr => ?_⟩
    exact hfree r (List.mem_filter.1 hr).1

/-- Every level of an unfolding is sorted. -/
theorem sorted_of_unfolds {tree : ι → NodeTree}
    (htree : ∀ id, graph.Reaches root id → graph.Unfolds id (tree id))
    (hcustom : ∀ id, graph.Reaches root id → (graph id).custom = []) (hid : graph.Reaches root id) :
    graph.Sorted (fun id => (tree id).branch) id := by
  have hun := htree id hid
  obtain ⟨tag, tags, child, -, hchild, heq⟩ := unfolds_iff.1 hun
  have hbelow : ∀ property next, (graph id).Refers property next → graph.Unfolds next (tree next) :=
    fun property next hrefers => htree next (.tail hid ⟨property, hrefers⟩)
  have hlevel : tree id = (graph id).unfold tag tree := heq.trans <| Node.unfold_congr
    fun property next hrefers => (hchild property next hrefers).unique (hbelow property next hrefers)
  have hmatch : ∀ r ∈ (graph id).references, (tree r.2).branch.isMatch = true ↔ graph.Marked r.2 :=
    fun r hr => (hbelow r.1 r.2 (Node.mem_references_iff.1 hr)).isMatch_iff
  refine ⟨hun.isMatch_iff, ?_, ?_, fun hmarked => hun.isMatchFree hmarked ?_⟩
  · simp only [hlevel, Node.branch_unfold]
    exact congrArg _ (List.filter_congr fun r hr => by simp [← hmatch r hr])
  · simp only [hlevel, Node.branch_unfold, hcustom id hid, List.append_nil]
    exact congrArg (_ ++ List.map _ ·) (List.filter_congr fun r hr => by simp [← hmatch r hr])
  · exact fun other hreach => hcustom other (hid.trans hreach)

theorem Along.marked {path : List (String × ι)} (h : graph.Along id path last)
    (hmarked : graph.Marked last) : ∀ r ∈ path, graph.Marked r.2 := by
  induction h with
  | here => simp
  | step _ hpath ih =>
    exact List.forall_mem_cons.2 ⟨hmarked.of_reaches hpath.reaches, ih hmarked⟩

/-- What leads to a marked node is compiled as matches. -/
theorem Along.matchesAlong {branch : ι → Branch}
    (hsorted : ∀ id, graph.Reaches root id → graph.Sorted branch id) {path : List (String × ι)}
    (h : graph.Along id path last) (hid : graph.Reaches root id) (hmarked : graph.Marked last) :
    (branch id).step.MatchesAlong (path.map fun r => ⟨r.1, (branch r.2).step⟩) := by
  induction h with
  | here => trivial
  | @step id next last property path hrefers hpath ih =>
    have hnext : graph.Marked next := hmarked.of_reaches hpath.reaches
    refine ⟨?_, ih (.tail hid ⟨property, hrefers⟩) hmarked⟩
    rw [(hsorted id hid).matched_eq]
    refine List.mem_map_of_mem (a := (property, next)) (List.mem_filter.2 ⟨?_, by simpa using hnext⟩)
    exact Node.mem_references_iff.2 hrefers

variable [DecidableEq ι]

theorem compile_reaches {limit : Nat} {b : Branch} (h : graph.compile limit root = .ok b)
    (hreach : graph.Reaches root id) : ∃ t, graph.Unfolds id t ∧ graph.compile limit id = .ok t.branch := by
  obtain ⟨t, ht, hheight, -⟩ := compile_eq_ok_iff.1 h
  obtain ⟨t', ht', hle⟩ := ht.reaches hreach
  exact ⟨t', ht', compile_eq_ok_iff.2 ⟨t', ht', Nat.le_trans hle hheight, rfl⟩⟩

/-- **Matches are what leads to a marked node.** A branch is a match exactly
when its node has a marked node in reach. Without custom predicates every level
of it is sorted that way, and the references on any way from the root to a
marked node are compiled, one after the other, as matches and none of them as a
condition. -/
theorem compile_sorted {limit : Nat} {b : Branch} (h : graph.compile limit root = .ok b) :
    (b.isMatch = true ↔ graph.Marked root) ∧
      ((∀ id, graph.Reaches root id → (graph id).custom = []) →
        ∃ branch : ι → Branch, branch root = b ∧
          (∀ id, graph.Reaches root id →
            graph.compile limit id = .ok (branch id) ∧ graph.Sorted branch id) ∧
          ∀ path last, graph.Along root path last → graph.Marked last →
            b.step.MatchesAlong (path.map fun r => ⟨r.1, (branch r.2).step⟩) ∧
              ∀ r ∈ path, graph.Marked r.2) := by
  -- Each node in reach has one unfolding, wherever it stands in that of the root.
  have hall : ∀ id, graph.Reaches root id →
      ∃ t, graph.Unfolds id t ∧ graph.compile limit id = .ok t.branch := fun _ hid => compile_reaches h hid
  choose! tree htree hcompile using hall
  obtain rfl : (tree root).branch = b := Except.ok.inj ((hcompile root .refl).symm.trans h)
  refine ⟨(htree root .refl).isMatch_iff, fun hcustom => ?_⟩
  have hsorted : ∀ id, graph.Reaches root id → graph.Sorted (fun id => (tree id).branch) id :=
    fun _ hid => sorted_of_unfolds htree hcustom hid
  refine ⟨fun id => (tree id).branch, rfl, fun id hid => ⟨hcompile id hid, hsorted id hid⟩, ?_⟩
  exact fun path last hpath hmarked => ⟨hpath.matchesAlong hsorted .refl hmarked, hpath.marked hmarked⟩

/-- A build with three jobs, the last one by way of the first and marked. -/
def nightly : Graph (Fin 4)
  | 0 => ⟨"nightly", ["Build"],
      [("state", .scalar (.string "failed")), ("jobs", .list [.node 1, .list [.node 2]])], false, []⟩
  | 1 => ⟨"compile", ["Job"], [("after", .node 2), ("before", .node 3)], false, []⟩
  | 2 => ⟨"fetch", ["Job"], [("_log", .node 3)], false, []⟩
  | 3 => ⟨"test", ["Job"], [("log", .hidden)], true, []⟩

/-- The step of `nightly`. -/
def nightlyStep : Step :=
  let fetch : Step := ⟨"Job", [], []⟩
  let compile : Step := ⟨"Job", [.related ⟨"after", fetch⟩], [⟨"before", ⟨"Job", [], []⟩⟩]⟩
  ⟨"Build", [.equals "state" (.string "failed"), .related ⟨"jobs", fetch⟩], [⟨"jobs", compile⟩]⟩

theorem compile_sorted_nightly : nightly.compile defaultRecursionLimit 0 = .ok ⟨nightlyStep, true⟩ ∧
    nightly.Marked 0 ∧ ∃ branch, branch 0 = ⟨nightlyStep, true⟩ ∧ nightly.Sorted branch 0 := by
  have hcompile : nightly.compile defaultRecursionLimit 0 = .ok ⟨nightlyStep, true⟩ := rfl
  obtain ⟨hmarked, hlevels⟩ := compile_sorted hcompile
  obtain ⟨branch, hroot, hsorted, -⟩ := hlevels fun id _ => match id with | 0 | 1 | 2 | 3 => rfl
  exact ⟨hcompile, hmarked.1 rfl, branch, hroot, (hsorted 0 .refl).2⟩

end Graph
end QueryByExample
