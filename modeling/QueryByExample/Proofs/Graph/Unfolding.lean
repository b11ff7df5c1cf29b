/-
Compiling a graph is compiling its unfolding.

The unfolding of a graph is a tree: every node is written out where it is
referred to, as often as it is. `NodeTree.branch` compiles a tree by plain
recursion, with no record of what lies above and no limit. The walk through
the graph agrees with it exactly when there is an unfolding that is no higher
than the limit (`branchBelow_of_unfolds`), and there is one when nothing leads
back to itself, every node has a tag and no path is longer than the limit
(`Compilable.exists_unfolds`).
-/
import Mathlib.Tactic.Choose
import QueryByExample.Proofs.Graph.Branch
import QueryByExample.Proofs.Graph.Reach

namespace QueryByExample

/-- An example without identities. -/
inductive NodeTree where
  | node (tag : String) (isMatch : Bool) (custom : List Predicate) (leaves : List (String × Leaf NodeTree))

instance : Inhabited NodeTree := ⟨.node "" false [] []⟩

variable {ι κ : Type}

def Leaf.map (f : ι → κ) : Leaf ι → Leaf κ
  | .scalar value => .scalar value
  | .node id => .node (f id)

@[simp] theorem Leaf.map_scalar (f : ι → κ) (value : Scalar) : (Leaf.scalar value).map f = .scalar value := rfl
@[simp] theorem Leaf.map_node (f : ι → κ) (id : ι) : (Leaf.node id).map f = .node (f id) := rfl

/-- The scalar leaves as equalities, in order. -/
def equalities : List (String × Leaf ι) → List Predicate
  | [] => []
  | (name, .scalar value) :: rest => .equals name value :: equalities rest
  | (_, .node _) :: rest => equalities rest

theorem equalities_map (f : ι → κ) (leaves : List (String × Leaf ι)) :
    equalities (leaves.map fun leaf => (leaf.1, leaf.2.map f)) = equalities leaves := by
  induction leaves with
  | nil => rfl
  | cons leaf rest ih =>
    obtain ⟨name, value | id⟩ := leaf
    all_goals simp only [List.map_cons, Leaf.map_scalar, Leaf.map_node, equalities, ih]

namespace NodeTree

mutual

/-- The step of a tree: the equalities of its scalars, the nested branches
that are no matches as conditions, the custom predicates, and the nested
branches that are matches. -/
def branch : NodeTree → Branch
  | .node tag isMatch custom leaves =>
    let nested := nestedBranches leaves
    let conditions := nested.filter fun (_, b) => !b.isMatch
    let matched := nested.filter fun (_, b) => b.isMatch
    { step :=
        { tag
          predicates := equalities leaves ++ conditions.map (fun (name, b) => .related ⟨name, b.step⟩) ++ custom
          matched := matched.map fun (name, b) => ⟨name, b.step⟩ }
      isMatch := isMatch || nested.any fun (_, b) => b.isMatch }

/-- The branches of the nodes among the leaves, in order. -/
def nestedBranches : List (String × Leaf NodeTree) → List (String × Branch)
  | [] => []
  | (_, .scalar _) :: rest => nestedBranches rest
  | (name, .node t) :: rest => (name, t.branch) :: nestedBranches rest

end

mutual

def height : NodeTree → Nat
  | .node _ _ _ leaves => heightOfAll leaves + 1

def heightOfAll : List (String × Leaf NodeTree) → Nat
  | [] => 0
  | (_, .scalar _) :: rest => heightOfAll rest
  | (_, .node t) :: rest => max t.height (heightOfAll rest)

end

end NodeTree

/-- A node with that first tag, and trees for the nodes that it refers to. -/
def Node.unfold (node : Node ι) (tag : String) (child : ι → NodeTree) : NodeTree :=
  .node tag node.isMatch node.custom (node.leaves.map fun leaf => (leaf.1, leaf.2.map child))

theorem NodeTree.nestedBranches_map (child : ι → NodeTree) (leaves : List (String × Leaf ι)) :
    nestedBranches (leaves.map fun leaf => (leaf.1, leaf.2.map child)) =
      (nodesAmong leaves).map fun r => (r.1, (child r.2).branch) := by
  induction leaves with
  | nil => rfl
  | cons leaf rest ih =>
    obtain ⟨name, value | id⟩ := leaf
    all_goals simp only [List.map_cons, Leaf.map_scalar, Leaf.map_node, nestedBranches, nodesAmong, ih]

theorem Node.unfold_congr {node : Node ι} {tag : String} {child child' : ι → NodeTree}
    (h : ∀ property next, node.Refers property next → child next = child' next) :
    node.unfold tag child = node.unfold tag child' := by
  refine congrArg (NodeTree.node tag _ _) (List.map_congr_left ?_)
  rintro ⟨property, value | next⟩ hleaf
  · rfl
  · rw [Leaf.map_node, Leaf.map_node, h property next (Node.mem_leaves_iff_refers.1 hleaf)]

/-- The branch of a node from those of the nodes that it refers to. -/
theorem Node.branch_unfold (node : Node ι) (tag : String) (child : ι → NodeTree) :
    (node.unfold tag child).branch =
      { step :=
          { tag
            predicates := equalities node.leaves ++
              ((node.references.filter fun r => !(child r.2).branch.isMatch).map fun r =>
                .related ⟨r.1, (child r.2).branch.step⟩) ++ node.custom
            matched := (node.references.filter fun r => (child r.2).branch.isMatch).map fun r =>
              ⟨r.1, (child r.2).branch.step⟩ }
        isMatch := node.isMatch || node.references.any fun r => (child r.2).branch.isMatch } := by
  simp only [Node.unfold, NodeTree.branch, NodeTree.nestedBranches_map, equalities_map, Node.references,
    List.filter_map, List.map_map, List.any_map]
  rfl

/-- A tree is the unfolding of a graph from a node on. -/
inductive Graph.Unfolds (graph : Graph ι) : ι → NodeTree → Prop
  | node {id : ι} {tag : String} {tags : List String} (child : ι → NodeTree) :
      (graph id).tags = tag :: tags →
      (∀ property next, (graph id).Refers property next → Unfolds graph next (child next)) →
      Unfolds graph id ((graph id).unfold tag child)

/-! ## The parts of a tree -/

namespace NodeTree

def part : String × Leaf NodeTree → Part
  | (name, .scalar value) => .scalar name value
  | (name, .node t) => .branch name t.branch

section Parts
variable (leaves : List (String × Leaf NodeTree))

theorem equality?_parts : (leaves.map part).filterMap Part.equality? = equalities leaves := by
  induction leaves with
  | nil => rfl
  | cons leaf rest ih =>
    obtain ⟨name, value | t⟩ := leaf
    all_goals simp only [List.map_cons, List.filterMap_cons, part, Part.equality?, equalities, ih]

theorem condition?_parts : (leaves.map part).filterMap Part.condition? =
    ((nestedBranches leaves).filter fun (_, b) => !b.isMatch).map
      fun (name, b) => .related ⟨name, b.step⟩ := by
  induction leaves with
  | nil => rfl
  | cons leaf rest ih =>
    obtain ⟨name, value | t⟩ := leaf
    · simp only [List.map_cons, List.filterMap_cons, part, Part.condition?, nestedBranches, ih]
    · cases hb : t.branch.isMatch <;>
        simp [-List.filterMap_map, part, Part.condition?, nestedBranches, hb, ih]

theorem match?_parts : (leaves.map part).filterMap Part.match? =
    ((nestedBranches leaves).filter fun (_, b) => b.isMatch).map fun (name, b) => ⟨name, b.step⟩ := by
  induction leaves with
  | nil => rfl
  | cons leaf rest ih =>
    obtain ⟨name, value | t⟩ := leaf
    · simp only [List.map_cons, List.filterMap_cons, part, Part.match?, nestedBranches, ih]
    · cases hb : t.branch.isMatch <;>
        simp [-List.filterMap_map, part, Part.match?, nestedBranches, hb, ih]

theorem any_match?_parts : ((leaves.map part).any fun p => p.match?.isSome) =
    (nestedBranches leaves).any fun (_, b) => b.isMatch := by
  induction leaves with
  | nil => rfl
  | cons leaf rest ih =>
    obtain ⟨name, value | t⟩ := leaf
    · simpa [part, Part.match?, nestedBranches] using ih
    · cases hb : t.branch.isMatch
      · simpa [part, Part.match?, nestedBranches, hb] using ih
      · simp [part, Part.match?, nestedBranches, hb]

theorem ofParts_parts (tag : String) (isMatch : Bool) (custom : List Predicate) :
    Branch.ofParts tag isMatch custom (leaves.map part) = (NodeTree.node tag isMatch custom leaves).branch := by
  simp only [Branch.ofParts, branch, equality?_parts, condition?_parts, match?_parts, any_match?_parts]

end Parts

/-! ## Height -/

def leafHeight : Leaf NodeTree → Nat
  | .scalar _ => 0
  | .node t => t.height

theorem heightOfAll_le_iff {leaves : List (String × Leaf NodeTree)} {n : Nat} :
    heightOfAll leaves ≤ n ↔ ∀ leaf ∈ leaves, leafHeight leaf.2 ≤ n := by
  induction leaves with
  | nil => simp [heightOfAll]
  | cons leaf rest ih =>
    obtain ⟨name, value | t⟩ := leaf
    · simpa only [heightOfAll, List.forall_mem_cons, leafHeight, Nat.zero_le, true_and] using ih
    · simp only [heightOfAll, List.forall_mem_cons, leafHeight, Nat.max_le, ih]

end NodeTree

theorem Node.height_lt_unfold {node : Node ι} {property : String} {next : ι}
    (hrefers : node.Refers property next) (tag : String) (child : ι → NodeTree) :
    (child next).height < (node.unfold tag child).height := by
  have hmem := List.mem_map_of_mem (f := fun leaf => (leaf.1, leaf.2.map child))
    (Node.mem_leaves_iff_refers.2 hrefers)
  exact Nat.lt_succ_of_le (NodeTree.heightOfAll_le_iff.1 (Nat.le_refl _) _ hmem)

/-- Trees for all nodes that a node refers to, from one for each. -/
theorem Node.exists_children {node : Node ι} {P : ι → NodeTree → Prop}
    (h : ∀ property next, node.Refers property next → ∃ t, P next t) :
    ∃ child : ι → NodeTree, ∀ property next, node.Refers property next → P next (child next) := by
  have hnext : ∀ next, (∃ property, node.Refers property next) → ∃ t, P next t :=
    fun next ⟨property, hrefers⟩ => h property next hrefers
  choose! child hchild using hnext
  exact ⟨child, fun property next hrefers => hchild next ⟨property, hrefers⟩⟩

/-- A node whose trees are less high is less high. -/
theorem Node.height_unfold_le {node : Node ι} {child child' : ι → NodeTree}
    (h : ∀ property next, node.Refers property next → (child' next).height ≤ (child next).height) (tag : String) :
    (node.unfold tag child').height ≤ (node.unfold tag child).height := by
  refine Nat.succ_le_succ (NodeTree.heightOfAll_le_iff.2 fun leaf hleaf => ?_)
  obtain ⟨⟨property, value | next⟩, hmem, rfl⟩ := List.mem_map.1 hleaf
  · exact Nat.zero_le _
  · have hrefers := Node.mem_leaves_iff_refers.1 hmem
    exact Nat.le_trans (h property next hrefers) (Nat.le_of_lt_succ (Node.height_lt_unfold hrefers tag child))

/-- One leaf, where a visit succeeds as far as the limit lets it. -/
theorem Leaf.part_of_visit {visit : ι → Except CompileError Branch} {child : ι → NodeTree} {limit : Nat}
    (property : String) (leaf : Leaf ι) (hvisit : ∀ next, leaf = .node next → visit next =
      if (child next).height ≤ limit then .ok (child next).branch else .error .recursionLimitExceeded) :
    leaf.part property visit =
      if NodeTree.leafHeight (leaf.map child) ≤ limit then .ok (NodeTree.part (property, leaf.map child))
      else .error .recursionLimitExceeded := by
  cases leaf with
  | scalar value => rfl
  | node next =>
    show (visit next).map (Part.branch property) =
      if (child next).height ≤ limit then .ok (Part.branch property (child next).branch) else _
    rw [hvisit next rfl]
    by_cases hle : (child next).height ≤ limit
    · rw [if_pos hle, if_pos hle]
      rfl
    · rw [if_neg hle, if_neg hle]
      rfl

/-- One node of a tree, where each visit below it succeeds as far as the limit
lets it. -/
theorem Node.branch_of_visits {node : Node ι} {tag : String} {tags : List String}
    (htags : node.tags = tag :: tags) (child : ι → NodeTree) (limit : Nat)
    {visit : String → String → ι → Except CompileError Branch}
    (hvisit : ∀ property next, node.Refers property next → visit property tag next =
      if (child next).height ≤ limit then .ok (child next).branch else .error .recursionLimitExceeded) :
    node.branch visit =
      if (node.unfold tag child).height ≤ limit + 1 then .ok (node.unfold tag child).branch
      else .error .recursionLimitExceeded := by
  have hleaves : ∀ leaf ∈ node.leaves, leaf.2.part leaf.1 (visit leaf.1 tag) =
      if NodeTree.leafHeight (leaf.2.map child) ≤ limit then .ok (NodeTree.part (leaf.1, leaf.2.map child))
      else .error .recursionLimitExceeded := by
    rintro ⟨property, leaf⟩ hleaf
    refine leaf.part_of_visit property fun next hnext => hvisit property next ?_
    exact Node.mem_leaves_iff_refers.1 (hnext ▸ hleaf)
  have hheight : (∀ leaf ∈ node.leaves, NodeTree.leafHeight (leaf.2.map child) ≤ limit) ↔
      (node.unfold tag child).height ≤ limit + 1 := by
    simp only [Node.unfold, NodeTree.height, Nat.add_le_add_iff_right, NodeTree.heightOfAll_le_iff,
      List.forall_mem_map]
  rw [Node.branch_of_tagged htags, mapM_eq_ite _ hleaves]
  by_cases h : ∀ leaf ∈ node.leaves, NodeTree.leafHeight (leaf.2.map child) ≤ limit
  · rw [if_pos h, if_pos (hheight.1 h), Node.unfold, ← NodeTree.ofParts_parts, List.map_map]
    rfl
  · rw [if_neg h, if_neg (mt hheight.2 h)]
    rfl

/-! ## Unfoldings and paths -/

namespace Graph
variable {graph : Graph ι} {id next : ι} {t : NodeTree}

theorem unfolds_iff : graph.Unfolds id t ↔ ∃ tag tags, ∃ child : ι → NodeTree,
    (graph id).tags = tag :: tags ∧
      (∀ property next, (graph id).Refers property next → graph.Unfolds next (child next)) ∧
      t = (graph id).unfold tag child := by
  constructor
  · intro h
    cases h with
    | @node _ tag tags child htags hchild => exact ⟨tag, tags, child, htags, hchild, rfl⟩
  · rintro ⟨tag, tags, child, htags, hchild, rfl⟩
    exact .node child htags hchild

/-- From a node on there is at most one unfolding. -/
theorem Unfolds.unique {t' : NodeTree} (h : graph.Unfolds id t) (h' : graph.Unfolds id t') : t = t' := by
  induction h generalizing t' with
  | @node id tag tags child htags _ ih =>
    obtain ⟨tag', tags', child', htags', hchild', rfl⟩ := unfolds_iff.1 h'
    obtain ⟨rfl, -⟩ := List.cons.inj (htags.symm.trans htags')
    exact Node.unfold_congr fun property next hrefers =>
      ih property next hrefers (hchild' property next hrefers)

theorem Unfolds.tags_ne_nil (h : graph.Unfolds id t) : (graph id).tags ≠ [] := by
  cases h with
  | node child htags _ => simp [htags]

/-- Below a node the unfoldings are less high. -/
theorem Unfolds.edge (h : graph.Unfolds id t) (hedge : graph.Edge id next) :
    ∃ t', graph.Unfolds next t' ∧ t'.height < t.height := by
  obtain ⟨property, hrefers⟩ := hedge
  obtain ⟨tag, tags, child, -, hchild, rfl⟩ := unfolds_iff.1 h
  exact ⟨_, hchild property next hrefers, Node.height_lt_unfold hrefers tag child⟩

theorem Unfolds.reaches (h : graph.Unfolds id t) (hreach : graph.Reaches id next) :
    ∃ t', graph.Unfolds next t' ∧ t'.height ≤ t.height := by
  induction hreach with
  | refl => exact ⟨t, h, Nat.le_refl _⟩
  | tail _ hedge ih =>
    obtain ⟨t', ht', hle⟩ := ih
    obtain ⟨t'', ht'', hlt⟩ := ht'.edge hedge
    exact ⟨t'', ht'', Nat.le_trans (Nat.le_of_lt hlt) hle⟩

/-- A cycle would have no unfolding. -/
theorem Unfolds.not_onCycle (h : graph.Unfolds id t) : ¬ graph.OnCycle id := by
  induction h with
  | node child _ _ ih =>
    intro hcycle
    obtain ⟨next, ⟨property, hrefers⟩, hback⟩ := Relation.TransGen.head'_iff.1 hcycle
    exact ih property next hrefers (.tail' hback ⟨property, hrefers⟩)

/-- No path is longer than the unfolding is high. -/
theorem Unfolds.path_length_le (h : graph.Unfolds id t) :
    ∀ path, graph.PathFrom id path → path.length ≤ t.height := by
  induction h with
  | @node id tag tags child _ _ ih =>
    intro path hpath
    cases hpath with
    | here => simp [Node.unfold, NodeTree.height]
    | @along _ next path hedge hpath =>
      obtain ⟨property, hrefers⟩ := hedge
      have hlen := ih property next hrefers path hpath
      have hchild := Node.height_lt_unfold hrefers tag child
      rw [List.length_cons]
      omega

/-- An unfolding is no higher than its paths are long. -/
theorem Unfolds.height_le (h : graph.Unfolds id t) :
    ∀ n, (∀ path, graph.PathFrom id path → path.length ≤ n) → t.height ≤ n := by
  induction h with
  | @node id tag tags child _ _ ih =>
    intro n hn
    have hpos : 1 ≤ n := hn [id] (.here id)
    have hleaves : NodeTree.heightOfAll
        ((graph id).leaves.map fun leaf => (leaf.1, leaf.2.map child)) ≤ n - 1 := by
      refine NodeTree.heightOfAll_le_iff.2 fun leaf hleaf => ?_
      obtain ⟨⟨property, value | next⟩, hmem, rfl⟩ := List.mem_map.1 hleaf
      · exact Nat.zero_le _
      · have hrefers := Node.mem_leaves_iff_refers.1 hmem
        refine ih property next hrefers (n - 1) fun path hpath => ?_
        have := hn (id :: path) (.along ⟨property, hrefers⟩ hpath)
        simp only [List.length_cons] at this
        omega
    simp only [Node.unfold, NodeTree.height]
    omega

/-- What it takes to compile a graph from a node on. -/
structure Compilable (graph : Graph ι) (limit : Nat) (root : ι) : Prop where
  acyclic : ∀ id, graph.Reaches root id → ¬ graph.OnCycle id
  tagged : ∀ id, graph.Reaches root id → (graph id).tags ≠ []
  shallow : ∀ path, graph.PathFrom root path → path.Nodup → path.length ≤ limit

theorem Unfolds.compilable_iff (h : graph.Unfolds id t) {limit : Nat} :
    graph.Compilable limit id ↔ t.height ≤ limit := by
  constructor
  · intro hc
    exact h.height_le limit fun path hpath => hc.shallow path hpath (hpath.nodup hc.acyclic)
  · intro hheight
    refine ⟨fun other hreach => ?_, fun other hreach => ?_, fun path hpath _ => ?_⟩
    · obtain ⟨t', ht', -⟩ := h.reaches hreach
      exact ht'.not_onCycle
    · obtain ⟨t', ht', -⟩ := h.reaches hreach
      exact ht'.tags_ne_nil
    · exact Nat.le_trans (h.path_length_le path hpath) hheight

theorem exists_unfolds_of_edges {tag : String} {tags : List String} (htags : (graph id).tags = tag :: tags)
    (h : ∀ next, graph.Edge id next → ∃ t, graph.Unfolds next t) : ∃ t, graph.Unfolds id t := by
  classical
  let child (next : ι) : NodeTree := if hedge : graph.Edge id next then (h next hedge).choose else default
  refine ⟨_, .node child htags fun property next hrefers => ?_⟩
  have hedge : graph.Edge id next := ⟨property, hrefers⟩
  simp only [child, hedge, dif_pos]
  exact (h next hedge).choose_spec

/-- Where every path is short enough and every node tagged, there is an
unfolding. -/
theorem exists_unfolds_of_paths : ∀ limit (id : ι),
    (∀ other, graph.Reaches id other → (graph other).tags ≠ []) →
    (∀ path, graph.PathFrom id path → path.length ≤ limit) → ∃ t, graph.Unfolds id t
  | 0, id, _, hpaths => by
    have := hpaths [id] (.here id)
    simp at this
  | limit + 1, id, htagged, hpaths => by
    obtain ⟨tag, tags, htags⟩ := List.exists_cons_of_ne_nil (htagged id .refl)
    refine exists_unfolds_of_edges htags fun next hedge => ?_
    refine exists_unfolds_of_paths limit next (fun other h => htagged other (.head hedge h)) ?_
    intro path hpath
    have := hpaths (id :: path) (.along hedge hpath)
    simpa using this

theorem Compilable.exists_unfolds {limit : Nat} {root : ι} (h : graph.Compilable limit root) :
    ∃ t, graph.Unfolds root t :=
  exists_unfolds_of_paths limit root h.tagged fun path hpath => h.shallow path hpath (hpath.nodup h.acyclic)

/-! ## The walk -/

variable [DecidableEq ι]

/-- Where there is an unfolding and nothing leads back up, the walk gives the
branch of the unfolding, if only the limit lets it. -/
theorem branchBelow_of_unfolds (h : graph.Unfolds id t) :
    ∀ limit above, (∀ a ∈ above, ¬ graph.Reaches id a) → graph.branchBelow limit above id =
      if t.height ≤ limit then .ok t.branch else .error .recursionLimitExceeded := by
  induction h with
  | @node id tag tags child htags hchild ih =>
    intro limit above habove
    have hcycle : ¬ graph.OnCycle id := (Unfolds.node child htags hchild).not_onCycle
    cases limit with
    | zero => simp [branchBelow, Node.unfold, NodeTree.height]
    | succ limit =>
      rw [branchBelow]
      refine Node.branch_of_visits htags child limit fun property next hrefers => ?_
      have hedge : graph.Edge id next := ⟨property, hrefers⟩
      -- What is below the node leads neither back to it nor to anything above it.
      have hfree : ∀ a ∈ id :: above, ¬ graph.Reaches next a := by
        refine List.forall_mem_cons.2 ⟨fun hback => hcycle (.head' hedge hback), fun a ha hreach => ?_⟩
        exact habove a ha (.head hedge hreach)
      rw [if_neg fun hmem => hfree next hmem .refl]
      exact ih property next hrefers limit (id :: above) hfree

/-- What the walk compiles has an unfolding. -/
theorem exists_unfolds_of_branchBelow : ∀ limit above (id : ι) (b : Branch),
    graph.branchBelow limit above id = .ok b → ∃ t, graph.Unfolds id t
  | 0, _, _, _, h => by simp [branchBelow] at h
  | limit + 1, above, id, b, h => by
    rw [branchBelow] at h
    obtain ⟨tag, tags, htags, hvisit⟩ := Node.ok_of_branch_eq_ok h
    refine exists_unfolds_of_edges htags fun next hedge => ?_
    obtain ⟨property, hrefers⟩ := hedge
    obtain ⟨b', hb'⟩ := hvisit property next (Node.mem_leaves_iff_refers.2 hrefers)
    split at hb'
    · cases hb'
    · exact exists_unfolds_of_branchBelow limit (id :: above) next b' hb'

theorem compile_eq_ok_iff {limit : Nat} {b : Branch} :
    graph.compile limit id = .ok b ↔ ∃ t, graph.Unfolds id t ∧ t.height ≤ limit ∧ t.branch = b := by
  constructor
  · intro hb
    obtain ⟨t, ht⟩ := exists_unfolds_of_branchBelow limit [] id b hb
    rw [compile, branchBelow_of_unfolds ht limit [] (by simp)] at hb
    split at hb
    next hheight => exact ⟨t, ht, hheight, Except.ok.inj hb⟩
    next => cases hb
  · rintro ⟨t, ht, hheight, rfl⟩
    rw [compile, branchBelow_of_unfolds ht limit [] (by simp), if_pos hheight]

/-- **Compiling is compiling the unfolding.** A graph compiles from a node on
exactly when nothing in reach leads back to itself, every node in reach is
tagged, and no path has more nodes than the limit. What it compiles to is the
branch of its unfolding, and graphs with the same unfolding compile alike, so
that a shared node is as good as copies of it. -/
theorem compile_unfolding [DecidableEq κ] (graph : Graph ι) (limit : Nat) (root : ι) :
    ((∃ b, graph.compile limit root = .ok b) ↔ graph.Compilable limit root) ∧
      (∀ b, graph.compile limit root = .ok b →
        (∃ t, graph.Unfolds root t) ∧ ∀ t, graph.Unfolds root t → b = t.branch) ∧
      (∀ (other : Graph κ) (root' : κ) (t : NodeTree), graph.Unfolds root t → other.Unfolds root' t →
        graph.compile limit root = other.compile limit root') := by
  have hcompile {t : NodeTree} (h : graph.Unfolds root t) := branchBelow_of_unfolds h limit [] (by simp)
  refine ⟨⟨?_, ?_⟩, ?_, ?_⟩
  · rintro ⟨b, hb⟩
    obtain ⟨t, ht⟩ := exists_unfolds_of_branchBelow limit [] root b hb
    rw [compile, hcompile ht] at hb
    split at hb
    · next hheight => exact ht.compilable_iff.2 hheight
    · cases hb
  · intro hc
    obtain ⟨t, ht⟩ := hc.exists_unfolds
    exact ⟨t.branch, by rw [compile, hcompile ht, if_pos (ht.compilable_iff.1 hc)]⟩
  · intro b hb
    refine ⟨exists_unfolds_of_branchBelow limit [] root b hb, fun t ht => ?_⟩
    rw [compile, hcompile ht] at hb
    split at hb
    · exact (Except.ok.inj hb).symm
    · cases hb
  · intro other root' t ht ht'
    rw [compile, compile, hcompile ht, branchBelow_of_unfolds ht' limit [] (by simp)]

end Graph

/-! ## An object above a graph -/

namespace Rooted
variable [DecidableEq ι] {rooted : Rooted ι}

theorem compile_of_unfolds {tag : String} {tags : List String} {child : ι → NodeTree}
    (htags : rooted.root.tags = tag :: tags)
    (hchild : ∀ property next, rooted.root.Refers property next → rooted.graph.Unfolds next (child next))
    (limit : Nat) : rooted.compile limit =
      if (rooted.root.unfold tag child).height ≤ limit then .ok (rooted.root.unfold tag child).branch
      else .error .recursionLimitExceeded := by
  cases limit with
  | zero => simp [compile, Node.unfold, NodeTree.height]
  | succ limit =>
    rw [compile]
    refine Node.branch_of_visits htags child limit fun property next hrefers => ?_
    exact Graph.branchBelow_of_unfolds (hchild property next hrefers) limit [] (by simp)

/-- An object above a graph compiles when it has a tag and the nodes that it
refers to have unfoldings, if only the limit lets it. -/
theorem compile_eq_ok_iff {limit : Nat} {b : Branch} :
    rooted.compile limit = .ok b ↔ ∃ tag tags, ∃ child : ι → NodeTree, rooted.root.tags = tag :: tags ∧
      (∀ property next, rooted.root.Refers property next → rooted.graph.Unfolds next (child next)) ∧
      (rooted.root.unfold tag child).height ≤ limit ∧ (rooted.root.unfold tag child).branch = b := by
  constructor
  · intro hb
    cases limit with
    | zero => cases hb
    | succ limit =>
      have hroot : rooted.root.branch (fun _ _ id => rooted.graph.branchBelow limit [] id) = .ok b := hb
      obtain ⟨tag, tags, htags, hvisit⟩ := Node.ok_of_branch_eq_ok hroot
      obtain ⟨child, hchild⟩ : ∃ child : ι → NodeTree, ∀ property next, rooted.root.Refers property next →
          rooted.graph.Unfolds next (child next) := by
        refine Node.exists_children fun property next hrefers => ?_
        obtain ⟨b', hb'⟩ := hvisit property next (Node.mem_leaves_iff_refers.2 hrefers)
        exact Graph.exists_unfolds_of_branchBelow limit [] next b' hb'
      rw [compile_of_unfolds htags hchild] at hb
      split at hb
      next hheight => exact ⟨tag, tags, child, htags, hchild, hheight, Except.ok.inj hb⟩
      next => cases hb
  · rintro ⟨tag, tags, child, htags, hchild, hheight, rfl⟩
    rw [compile_of_unfolds htags hchild, if_pos hheight]

end Rooted
end QueryByExample
