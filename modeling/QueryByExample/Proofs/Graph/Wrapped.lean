/-
Nodes that stand for others.

A reference to a node, a copy of it and an enriched node without anything on
top answer as the node does and are yet objects of their own. What refers to
the node does not refer to them, so a walk that starts at one of them goes
round a cycle through the node once more before it sees it, and may reach its
limit instead. It fails all the same (`compile_wrapped`): nodes that answer
alike have the same unfolding or both none (`unfolds_congr`).

An object above a graph is the one more node of a larger graph, and compiling
it is compiling that node (`Rooted.compile_eq`).
-/
import QueryByExample.Proofs.Enriched.Constraints
import QueryByExample.Proofs.Graph.Unfolding

namespace QueryByExample
variable {ι κ : Type}

mutual

def FieldValue.map (f : ι → κ) : FieldValue ι → FieldValue κ
  | .scalar value => .scalar value
  | .node id => .node (f id)
  | .list items => .list (FieldValue.mapItems f items)
  | .hidden => .hidden

def FieldValue.mapItems (f : ι → κ) : List (FieldValue ι) → List (FieldValue κ)
  | [] => []
  | item :: rest => item.map f :: FieldValue.mapItems f rest

end

mutual

theorem FieldValue.leaves_map (f : ι → κ) :
    (v : FieldValue ι) → (v.map f).leaves = v.leaves.map (Leaf.map f)
  | .scalar _ => rfl
  | .node _ => rfl
  | .list items => by
    rw [FieldValue.map, FieldValue.leaves, FieldValue.leaves, FieldValue.leavesOfItems_map f items]
  | .hidden => rfl

theorem FieldValue.leavesOfItems_map (f : ι → κ) : (items : List (FieldValue ι)) →
    FieldValue.leavesOfItems (FieldValue.mapItems f items) = (FieldValue.leavesOfItems items).map (Leaf.map f)
  | [] => rfl
  | item :: rest => by
    rw [FieldValue.mapItems, FieldValue.leavesOfItems, FieldValue.leavesOfItems, List.map_append,
      FieldValue.leaves_map f item, FieldValue.leavesOfItems_map f rest]

end

namespace Node

/-- The node, where the nodes that it refers to go by other identities. -/
def map (f : ι → κ) (node : Node ι) : Node κ where
  name := node.name
  tags := node.tags
  fields := node.fields.map fun (name, value) => (name, value.map f)
  isMatch := node.isMatch
  custom := node.custom

theorem leaves_map (f : ι → κ) (node : Node ι) :
    (node.map f).leaves = node.leaves.map fun leaf => (leaf.1, leaf.2.map f) := by
  simp only [Node.leaves, Node.map, List.filter_map, List.flatMap_map, List.map_flatMap,
    FieldValue.leaves_map, List.map_map]
  rfl

theorem branch_map (f : ι → κ) (node : Node ι) {visit} :
    (node.map f).branch visit = node.branch fun property owner id => visit property owner (f id) := by
  have htags : (node.map f).tags = node.tags := rfl
  cases hnode : node.tags with
  | nil =>
    rw [branch_of_untagged hnode, branch_of_untagged (htags.trans hnode)]
    rfl
  | cons tag tags =>
    rw [branch_of_tagged hnode, branch_of_tagged (htags.trans hnode), leaves_map, List.mapM_map]
    have hpart : ∀ leaf : String × Leaf ι, (leaf.2.map f).part leaf.1 (visit leaf.1 tag) =
        leaf.2.part leaf.1 fun id => visit leaf.1 tag (f id) := by
      rintro ⟨name, value | id⟩ <;> rfl
    simp only [Function.comp_def, hpart]
    rfl

end Node

namespace Rooted
variable {rooted : Rooted ι}

/-- The graph and, as a node to which none of it refers, the root. -/
def wholeGraph (rooted : Rooted ι) : Graph (Option ι)
  | none => rooted.root.map some
  | some id => (rooted.graph id).map some

variable [DecidableEq ι]

/-- Below the root the walk is that of the graph, whatever else it is inside of
that is no node of it. -/
theorem branchBelow_some (further : List (Option ι)) (hfurther : ∀ id, some id ∉ further) :
    ∀ limit above (id : ι), rooted.wholeGraph.branchBelow limit (above.map some ++ further) (some id) =
      rooted.graph.branchBelow limit above id
  | 0, _, _ => rfl
  | limit + 1, above, id => by
    rw [Graph.branchBelow, Graph.branchBelow, wholeGraph, Node.branch_map]
    congr 1
    funext property owner next
    have hmem : some next ∈ some id :: (above.map some ++ further) ↔ next ∈ id :: above := by
      simp [hfurther next]
    have hnext := branchBelow_some further hfurther limit (id :: above) next
    rw [List.map_cons, List.cons_append] at hnext
    simp only [hnext, hmem]

theorem wholeGraph_compile_some (limit : Nat) (id : ι) :
    rooted.wholeGraph.compile limit (some id) = rooted.graph.compile limit id :=
  branchBelow_some [] (by simp) limit [] id

/-- An object of its own compiles as the node of the whole graph that it is. -/
theorem compile_eq (rooted : Rooted ι) (limit : Nat) :
    rooted.compile limit = rooted.wholeGraph.compile limit none := by
  cases limit with
  | zero => rfl
  | succ limit =>
    rw [compile, Graph.compile, Graph.branchBelow, wholeGraph, Node.branch_map]
    congr 1
    funext property owner next
    rw [if_neg (by simp)]
    exact (branchBelow_some [none] (by simp) limit [] next).symm

end Rooted

namespace Graph
variable {graph : Graph ι} {id id' : ι} {limit : Nat} {b : Branch}

/-- An unfolding tells the node by its answers alone. -/
theorem unfolds_congr {t : NodeTree} (h : graph id = graph id') :
    graph.Unfolds id t ↔ graph.Unfolds id' t := by
  rw [unfolds_iff, unfolds_iff, h]

variable [DecidableEq ι]

theorem compile_eq_ok_congr (h : graph id = graph id') :
    graph.compile limit id = .ok b ↔ graph.compile limit id' = .ok b := by
  simp only [compile_eq_ok_iff, unfolds_congr h]

end Graph

theorem Rooted.compile_copyOf_eq_ok_iff [DecidableEq ι] {graph : Graph ι} {id : ι} {limit : Nat}
    {b : Branch} : (Rooted.copyOf graph id).compile limit = .ok b ↔ graph.compile limit id = .ok b := by
  have halike : (copyOf graph id).wholeGraph none = (copyOf graph id).wholeGraph (some id) := rfl
  rw [Rooted.compile_eq, Graph.compile_eq_ok_congr halike, Rooted.wholeGraph_compile_some]
  rfl

theorem Enriched.rooted_of_plain {α : Type} [ExampleNode α ι] {e : Enriched α}
    (hpredicates : e.predicates = []) (hmark : e.isMatch = false) :
    ExampleNode.rooted e = ExampleNode.rooted e.base := by
  simp only [ExampleNode.rooted, Enriched.onNode, hpredicates, hmark, List.append_nil, Bool.false_or]

/-- **Standing for a node makes no difference.** A node of the graph that
answers as another one does, an object of its own that is a copy of it, and
however many layers of enrichment with nothing on top compile to the branch to
which the node itself does, or like it to none. -/
theorem Graph.compile_wrapped [DecidableEq ι] (graph : Graph ι) (root : ι) (limit : Nat) (b : Branch) :
    (∀ wrapper, graph wrapper = graph root →
        (graph.compile limit wrapper = .ok b ↔ graph.compile limit root = .ok b)) ∧
      ((Rooted.copyOf graph root).compile limit = .ok b ↔ graph.compile limit root = .ok b) ∧
      ∀ (α : Type) [ExampleNode α ι] (e : Enriched α), ExampleNode.rooted e.base = Rooted.copyOf graph root →
        e.predicates = [] → e.isMatch = false → ExampleNode.rooted e = Rooted.copyOf graph root ∧
          ((ExampleNode.rooted e).compile limit = .ok b ↔ graph.compile limit root = .ok b) := by
  refine ⟨fun _ halike => Graph.compile_eq_ok_congr halike, Rooted.compile_copyOf_eq_ok_iff, ?_⟩
  intro α _ e hbase hpredicates hmark
  have hrooted := (Enriched.rooted_of_plain hpredicates hmark).trans hbase
  rw [hrooted]
  exact ⟨rfl, Rooted.compile_copyOf_eq_ok_iff⟩

/-- A repository and builds of it that answer alike. -/
def Graph.twins : Graph Nat
  | 1 => ⟨"repo", ["Repo"], [], true, []⟩
  | _ => ⟨"build", ["Build"], [("repo", .node 1), ("branch", .scalar (.string "main"))], false, []⟩

theorem Graph.compile_wrapped_twins :
    let step : Step := ⟨"Build", [.equals "branch" (.string "main")], [⟨"repo", ⟨"Repo", [], []⟩⟩]⟩
    Graph.twins.compile 2 2 = .ok ⟨step, true⟩ ∧
      (ExampleNode.rooted (Enriched.of (Enriched.of (Rooted.copyOf Graph.twins 0)))).compile 2 =
        .ok ⟨step, true⟩ := by
  intro step
  have hroot : Graph.twins.compile 2 0 = .ok ⟨step, true⟩ := rfl
  obtain ⟨hwrapper, -, hplain⟩ := Graph.compile_wrapped Graph.twins 0 2 ⟨step, true⟩
  obtain ⟨honce, -⟩ := hplain _ (Enriched.of (Rooted.copyOf Graph.twins 0)) rfl rfl rfl
  obtain ⟨-, htwice⟩ := hplain _ (Enriched.of (Enriched.of (Rooted.copyOf Graph.twins 0))) honce rfl rfl
  exact ⟨(hwrapper 2 rfl).2 hroot, htwice.2 hroot⟩

end QueryByExample
