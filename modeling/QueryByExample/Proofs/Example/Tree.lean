/-
Examples as trees.

An example refers to the examples in its properties, and these unfold the same
way: to a tree of tags, marks, custom predicates and of what the relevant
properties hold, lists taken apart (`Example.tree`). What an example compiles
to is the branch of its tree (`Example.compile_eq_tree`).
-/
import QueryByExample.Proofs.Example.Nested
import QueryByExample.Proofs.Graph.Unfolding

namespace QueryByExample

mutual

/-- What a property holds, lists taken apart. -/
def Property.leaves : Property → List (Leaf NodeTree)
  | .scalar value => [.scalar value]
  | .node e => [.node e.tree]
  | .list items => Property.leavesOfItems items

def Property.leavesOfItems : List Property → List (Leaf NodeTree)
  | [] => []
  | item :: rest => item.leaves ++ Property.leavesOfItems rest

def Example.tree : Example → NodeTree
  | ⟨_, tags, properties, isMatch, custom⟩ => .node (tags.headD "") isMatch custom (Property.leavesOfAll properties)

/-- The leaves of the relevant properties, each with the key of its property. -/
def Property.leavesOfAll : List (String × Property) → List (String × Leaf NodeTree)
  | [] => []
  | (key, p) :: rest => (if isRelevantKey key then p.leaves.map (key, ·) else []) ++ Property.leavesOfAll rest

end

theorem Property.leavesOfItems_eq (items : List Property) : leavesOfItems items = items.flatMap Property.leaves := by
  induction items with
  | nil => rfl
  | cons item rest ih => rw [leavesOfItems, ih, List.flatMap_cons]

theorem Property.leavesOfAll_eq (properties : List (String × Property)) : leavesOfAll properties =
    (properties.filter fun p => isRelevantKey p.1).flatMap fun p => p.2.leaves.map (p.1, ·) := by
  induction properties with
  | nil => rfl
  | cons p rest ih =>
    rw [leavesOfAll, ih, List.filter_cons]
    cases isRelevantKey p.1 <;> rfl

mutual

/-- The leaves of a property, with the trees of its examples for these. -/
theorem Property.leaves_value : (p : Property) → p.value.leaves.map (Leaf.map Example.tree) = p.leaves
  | .scalar _ => rfl
  | .node _ => rfl
  | .list items => Property.leaves_values items

theorem Property.leaves_values : (items : List Property) →
    (FieldValue.leavesOfItems (Property.values items)).map (Leaf.map Example.tree) = Property.leavesOfItems items
  | [] => rfl
  | item :: rest => by
    rw [values, FieldValue.leavesOfItems, List.map_append, leaves_value item, leaves_values rest, leavesOfItems]

end

namespace Example
variable {e : Example} {limit : Nat} {b : Branch}

/-- An example unfolds to its tree when the examples in it do. -/
theorem unfold_node (e : Example) : e.node.unfold (e.tags.headD "") tree = e.tree := by
  have hleaves : (e.node.leaves.map fun leaf => (leaf.1, leaf.2.map tree)) = Property.leavesOfAll e.properties := by
    simp only [Property.leavesOfAll_eq, ← Property.leaves_value, leaves_node, relevant, List.map_flatMap, List.map_map]
    rfl
  rw [Node.unfold, hleaves]
  cases e
  rfl

theorem compile_eq_tree (h : e.compile limit = .ok b) : b = e.tree.branch := by
  induction limit generalizing e b with
  | zero => cases h
  | succ limit ih =>
    rw [compile_succ_eq] at h
    obtain ⟨tag, tags, parts, htags, hparts, rfl⟩ := Node.eq_ofParts_of_branch_eq_ok h
    have htag : tag = e.tags.headD "" := by rw [show e.tags = tag :: tags from htags]; rfl
    have hpart : ∀ (leaf : String × Leaf Example) part, leaf.2.part leaf.1 (fun n => n.compile limit) = .ok part →
        part = NodeTree.part (leaf.1, leaf.2.map tree) := by
      rintro ⟨name, value | n⟩ part hpart
      · exact (Except.ok.inj hpart).symm
      · obtain ⟨b', hb', rfl⟩ := Leaf.ok_of_part_node hpart
        rw [ih hb']
        rfl
    rw [eq_map_of_mapM_eq_ok hparts fun leaf _ => hpart leaf, htag, ← unfold_node, Node.unfold,
      ← NodeTree.ofParts_parts, List.map_map]
    rfl

end Example
end QueryByExample
