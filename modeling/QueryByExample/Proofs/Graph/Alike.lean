/-
Objects that answer alike.

Two objects answer alike when they have the same first tag, mark, custom
predicates and scalars in their relevant fields, and the nodes in these fields
correspond and answer alike in turn, whatever their identities are. A deep copy
answers as the original does, and so does an object that refers to the very
same nodes (`Rooted.Alike.of_eq`). What answers alike compiles to the same
branch (`Rooted.Alike.compile_eq_ok`).
-/
import Mathlib.Data.List.Forall2
import QueryByExample.Proofs.Graph.Unfolding

namespace QueryByExample
variable {ι : Type} {R : ι → ι → Prop}

/-- The same scalar, or nodes that correspond. -/
inductive Leaf.Alike (R : ι → ι → Prop) : Leaf ι → Leaf ι → Prop
  | scalar (value : Scalar) : Leaf.Alike R (.scalar value) (.scalar value)
  | node {id id' : ι} : R id id' → Leaf.Alike R (.node id) (.node id')

structure Node.Alike (R : ι → ι → Prop) (node other : Node ι) : Prop where
  tag : node.tags.head? = other.tags.head?
  isMatch : node.isMatch = other.isMatch
  custom : node.custom = other.custom
  leaves : List.Forall₂ (fun leaf leaf' => leaf.1 = leaf'.1 ∧ leaf.2.Alike R leaf'.2) node.leaves other.leaves

/-- There is a correspondence of nodes under which all that corresponds, and
the two objects themselves, show the same. -/
def Rooted.Alike (rooted other : Rooted ι) : Prop :=
  ∃ R : ι → ι → Prop, rooted.root.Alike R other.root ∧
    ∀ id id', R id id' → (rooted.graph id).Alike R (other.graph id')

/-- Objects with the same tags, fields, mark and custom predicates over the
same nodes answer alike. -/
theorem Rooted.Alike.of_eq {rooted other : Rooted ι} (hgraph : rooted.graph = other.graph)
    (htags : rooted.root.tags = other.root.tags) (hfields : rooted.root.fields = other.root.fields)
    (hmark : rooted.root.isMatch = other.root.isMatch) (hcustom : rooted.root.custom = other.root.custom) :
    rooted.Alike other := by
  have hleaf : ∀ leaf : Leaf ι, leaf.Alike Eq leaf := fun
    | .scalar value => .scalar value
    | .node _ => .node rfl
  have hleaves : ∀ leaves : List (String × Leaf ι),
      List.Forall₂ (fun leaf leaf' => leaf.1 = leaf'.1 ∧ leaf.2.Alike Eq leaf'.2) leaves leaves :=
    fun leaves => List.forall₂_same.2 fun leaf _ => ⟨rfl, hleaf leaf.2⟩
  refine ⟨Eq, ⟨by rw [htags], hmark, hcustom, ?_⟩, ?_⟩
  · rw [Node.leaves, Node.leaves, ← hfields]
    exact hleaves _
  · rintro id _ rfl
    rw [hgraph]
    exact ⟨rfl, rfl, rfl, hleaves _⟩

theorem exists_left_of_forall₂ {α β : Type} {S : α → β → Prop} {l : List α} {l' : List β}
    (h : List.Forall₂ S l l') {b : β} (hb : b ∈ l') : ∃ a ∈ l, S a b := by
  induction h with
  | nil => cases hb
  | @cons a b' _ _ hab _ ih =>
    rcases List.mem_cons.1 hb with rfl | hb
    · exact ⟨a, List.mem_cons_self, hab⟩
    · obtain ⟨a', ha', hab'⟩ := ih hb
      exact ⟨a', List.mem_cons_of_mem a ha', hab'⟩

namespace Node.Alike
variable {node other : Node ι} (h : node.Alike R other)
include h

/-- What the one refers to corresponds to what the other refers to. -/
theorem exists_refers {property : String} {next' : ι} (hrefers : other.Refers property next') :
    ∃ next, R next next' ∧ node.Refers property next := by
  have hleaf : (property, Leaf.node next') ∈ other.leaves := Node.mem_leaves_iff_refers.2 hrefers
  obtain ⟨⟨name, leaf⟩, hmem, hname, halike⟩ := exists_left_of_forall₂ h.leaves hleaf
  obtain rfl : name = property := hname
  cases halike with
  | node hnext => exact ⟨_, hnext, Node.mem_leaves_iff_refers.1 hmem⟩

/-- With the same trees for nodes that correspond, the two are the same tree. -/
theorem unfold_eq {child child' : ι → NodeTree}
    (hchild : ∀ property next next', node.Refers property next → R next next' → child next = child' next')
    (tag : String) : node.unfold tag child = other.unfold tag child' := by
  have hleaves : List.Forall₂ (fun leaf leaf' : String × Leaf ι => leaf ∈ node.leaves ∧ leaf.1 = leaf'.1 ∧
      leaf.2.Alike R leaf'.2) node.leaves other.leaves :=
    (List.forall₂_and_left _ _).2 ⟨fun _ hleaf => hleaf, h.leaves⟩
  have hmap : node.leaves.map (fun leaf => (leaf.1, leaf.2.map child)) =
      other.leaves.map fun leaf => (leaf.1, leaf.2.map child') := by
    rw [← List.forall₂_eq_eq_eq, List.forall₂_map_left_iff, List.forall₂_map_right_iff]
    refine hleaves.imp ?_
    rintro ⟨name, leaf⟩ ⟨name', leaf'⟩ ⟨hmem, hname, halike⟩
    obtain rfl : name = name' := hname
    cases halike with
    | scalar value => rfl
    | node hnext => rw [Leaf.map_node, Leaf.map_node, hchild name _ _ (Node.mem_leaves_iff_refers.1 hmem) hnext]
  rw [Node.unfold, Node.unfold, h.isMatch, h.custom, hmap]

theorem tags_eq_cons {tag : String} {tags : List String} (htags : node.tags = tag :: tags) :
    ∃ tags', other.tags = tag :: tags' := by
  have htag := h.tag
  rw [htags, List.head?_cons, eq_comm, List.head?_eq_some_iff] at htag
  exact htag

/-- Trees for the nodes that the other refers to, the same as for the nodes to
which these correspond. -/
theorem exists_children {graph : Graph ι} {child : ι → NodeTree}
    (hchild : ∀ property next next', node.Refers property next → R next next' → graph.Unfolds next' (child next)) :
    ∃ child' : ι → NodeTree,
      (∀ property next, other.Refers property next → graph.Unfolds next (child' next)) ∧
      ∀ property next next', node.Refers property next → R next next' → child next = child' next' := by
  have hnext : ∀ next', (∃ property next, R next next' ∧ node.Refers property next) →
      ∃ t, graph.Unfolds next' t :=
    fun next' ⟨property, next, hR, hrefers⟩ => ⟨_, hchild property next next' hrefers hR⟩
  choose! child' hchild' using hnext
  refine ⟨child', fun property next' hrefers => ?_, fun property next next' hrefers hR => ?_⟩
  · obtain ⟨next, hR, hrefers'⟩ := h.exists_refers hrefers
    exact hchild' next' ⟨property, next, hR, hrefers'⟩
  · exact (hchild property next next' hrefers hR).unique (hchild' next' ⟨property, next, hR, hrefers⟩)

end Node.Alike

/-- Nodes that correspond have the same unfolding. -/
theorem Graph.Unfolds.of_alike {graph other : Graph ι} (h : ∀ id id', R id id' → (graph id).Alike R (other id'))
    {id id' : ι} {t : NodeTree} (ht : graph.Unfolds id t) (hR : R id id') : other.Unfolds id' t := by
  induction ht generalizing id' with
  | @node id tag tags child htags _ ih =>
    have halike := h id id' hR
    obtain ⟨tags', htags'⟩ := halike.tags_eq_cons htags
    obtain ⟨child', hchild', heq⟩ := halike.exists_children fun property _ _ hrefers hR => ih property _ hrefers hR
    rw [halike.unfold_eq heq]
    exact .node child' htags' hchild'

/-- What answers alike compiles alike. -/
theorem Rooted.Alike.compile_eq_ok [DecidableEq ι] {rooted other : Rooted ι} (h : rooted.Alike other) {limit : Nat}
    {b : Branch} (hb : rooted.compile limit = .ok b) : other.compile limit = .ok b := by
  obtain ⟨R, hroot, hbelow⟩ := h
  obtain ⟨tag, tags, child, htags, hchild, hheight, rfl⟩ := Rooted.compile_eq_ok_iff.1 hb
  obtain ⟨tags', htags'⟩ := hroot.tags_eq_cons htags
  obtain ⟨child', hchild', heq⟩ := hroot.exists_children fun property next next' hrefers hR =>
    (hchild property next hrefers).of_alike hbelow hR
  rw [hroot.unfold_eq heq] at hheight ⊢
  exact Rooted.compile_eq_ok_iff.2 ⟨tag, tags', child', htags', hchild', hheight, rfl⟩

end QueryByExample
