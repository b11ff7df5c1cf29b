/-
What compiling sees of a graph.

Of a node it sees the first tag, the mark, the custom predicates and the
relevant fields, without the hidden values that are in them or in their lists.
The name counts where there is no tag, since the error tells it. All else may
differ from one graph to another, irrelevant fields with whatever is behind
them included: where the nodes in reach show the same, the graphs compile to
the same branch or fail with the same error (`compile_eq_of_resembles`).
-/
import QueryByExample.Proofs.Graph.Branch
import QueryByExample.Proofs.Graph.Reach

namespace QueryByExample
variable {ι : Type}

mutual

/-- What a value shows; nothing is left of a hidden one. -/
def FieldValue.shown? : FieldValue ι → Option (FieldValue ι)
  | .hidden => none
  | .list items => some (.list (FieldValue.shownItems items))
  | .scalar value => some (.scalar value)
  | .node id => some (.node id)

def FieldValue.shownItems : List (FieldValue ι) → List (FieldValue ι)
  | [] => []
  | item :: rest => item.shown?.toList ++ FieldValue.shownItems rest

end

/-- The relevant fields that are not hidden, with what their values show. -/
def Node.shownFields (node : Node ι) : List (String × FieldValue ι) :=
  (node.fields.filter fun (name, _) => isRelevantKey name).flatMap fun (name, value) =>
    value.shown?.toList.map fun shown => (name, shown)

mutual

theorem FieldValue.leaves_shown? : (v : FieldValue ι) → v.shown?.elim [] FieldValue.leaves = v.leaves
  | .scalar _ => rfl
  | .node _ => rfl
  | .list items => FieldValue.leavesOfItems_shownItems items
  | .hidden => rfl

theorem FieldValue.leavesOfItems_shownItems : (items : List (FieldValue ι)) →
    FieldValue.leavesOfItems (FieldValue.shownItems items) = FieldValue.leavesOfItems items
  | [] => rfl
  | item :: rest => by
    have hitem := FieldValue.leaves_shown? item
    have hrest := FieldValue.leavesOfItems_shownItems rest
    rw [FieldValue.shownItems, FieldValue.leavesOfItems, ← hitem, ← hrest]
    cases item.shown? <;> rfl

end

/-- The leaves of a node are those of the fields that it shows. -/
theorem Node.leaves_eq_shown (node : Node ι) :
    node.leaves = node.shownFields.flatMap fun (name, value) => value.leaves.map fun leaf => (name, leaf) := by
  rw [Node.leaves, Node.shownFields, List.flatMap_assoc]
  congr 1
  funext field
  obtain ⟨name, value⟩ := field
  dsimp only
  rw [← FieldValue.leaves_shown? value]
  cases value.shown? <;> simp

structure Node.Resembles (node other : Node ι) : Prop where
  tag : node.tags.head? = other.tags.head?
  name : node.tags = [] → node.name = other.name
  isMatch : node.isMatch = other.isMatch
  custom : node.custom = other.custom
  fields : node.shownFields = other.shownFields

namespace Node.Resembles
variable {node other : Node ι}

theorem leaves_eq (h : node.Resembles other) : node.leaves = other.leaves := by
  rw [leaves_eq_shown, leaves_eq_shown, h.fields]

/-- Nodes that show the same have the same branch, if only the visits to the
nodes that they refer to end alike. -/
theorem branch_eq (h : node.Resembles other) {visit visit' : String → String → ι → Except CompileError Branch}
    (hvisit : ∀ property owner id, node.Refers property id → visit property owner id = visit' property owner id) :
    node.branch visit = other.branch visit' := by
  have htag := h.tag
  cases hnode : node.tags with
  | nil =>
    rw [hnode, List.head?_nil, eq_comm, List.head?_eq_none_iff] at htag
    rw [branch_of_untagged hnode, branch_of_untagged htag, h.name hnode]
  | cons tag tags =>
    rw [hnode, List.head?_cons, eq_comm, List.head?_eq_some_iff] at htag
    obtain ⟨tags', hother⟩ := htag
    rw [branch_of_tagged hnode, branch_of_tagged hother, ← h.leaves_eq, h.isMatch, h.custom]
    congr 1
    refine mapM_congr_mem ?_
    rintro ⟨property, value | id⟩ hleaf
    · rfl
    · rw [Leaf.part, Leaf.part, hvisit property tag id (mem_leaves_iff_refers.1 hleaf)]

end Node.Resembles

namespace Graph
variable [DecidableEq ι] {graph other : Graph ι} {root : ι}

theorem branchBelow_eq_of_resembles :
    ∀ limit above (id : ι), (∀ next, graph.Reaches id next → (graph next).Resembles (other next)) →
      graph.branchBelow limit above id = other.branchBelow limit above id
  | 0, _, _, _ => rfl
  | limit + 1, above, id, h => by
    rw [branchBelow, branchBelow]
    refine (h id .refl).branch_eq fun property owner next hrefers => ?_
    have hedge : graph.Edge id next := ⟨property, hrefers⟩
    rw [branchBelow_eq_of_resembles limit (id :: above) next fun further hreach => h further (.head hedge hreach)]

/-- **Only what is shown counts.** Two graphs whose nodes in reach show the
same compile, at any limit, to the same branch or fail with the same error. -/
theorem compile_eq_of_resembles (limit : Nat)
    (h : ∀ id, graph.Reaches root id → (graph id).Resembles (other id)) :
    graph.compile limit root = other.compile limit root :=
  branchBelow_eq_of_resembles limit [] root h

/-- A release with a list of builds. -/
def release : Graph Nat
  | 0 => ⟨"release", ["Release"],
      [("builds", .list [.node 1, .list []]), ("stage", .scalar (.string "beta"))], false, []⟩
  | 1 => ⟨"build", ["Build"], [("state", .scalar (.string "failed"))], true, []⟩
  | _ => ⟨"", [], [], false, []⟩

/-- The same release with internal state: fields that lead back up and to a
node without a tag, and hidden values in the list of builds. -/
def cachedRelease : Graph Nat
  | 0 => ⟨"release 0", ["Release", "Cached"],
      [("_owner", .node 0), ("builds", .list [.hidden, .node 1, .list [.hidden]]), ("address", .node 2),
        ("render", .hidden), ("stage", .scalar (.string "beta"))], false, []⟩
  | 1 => ⟨"build 1", ["Build"], [("$release", .list [.node 0]), ("state", .scalar (.string "failed"))], true, []⟩
  | _ => ⟨"", [], [("_next", .node 3)], false, []⟩

theorem compile_eq_of_resembles_release :
    let build : Step := ⟨"Build", [.equals "state" (.string "failed")], []⟩
    (∀ id, release.Reaches 0 id → (release id).Resembles (cachedRelease id)) ∧
      cachedRelease.compile 2 0 =
        .ok ⟨⟨"Release", [.equals "stage" (.string "beta")], [⟨"builds", build⟩]⟩, true⟩ := by
  intro build
  have h : ∀ id, release.Reaches 0 id → (release id).Resembles (cachedRelease id)
    | 0, _ => ⟨rfl, nofun, rfl, rfl, rfl⟩
    | 1, _ => ⟨rfl, nofun, rfl, rfl, rfl⟩
    | _ + 2, _ => ⟨rfl, fun _ => rfl, rfl, rfl, rfl⟩
  exact ⟨h, (compile_eq_of_resembles 2 h).symm⟩

end Graph
end QueryByExample
