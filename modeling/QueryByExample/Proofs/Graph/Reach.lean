/-
What a node of an example graph refers to, and the paths along references.

Only relevant fields refer to anything, and lists in them are looked into to
any depth. A path is a list of nodes each of which refers to the next, and
where nothing leads back to itself, no path comes by a node twice
(`PathFrom.nodup`).
-/
import Mathlib.Logic.Relation
import QueryByExample.Graph.Basic

namespace QueryByExample
variable {ι : Type}

/-- A node is a value, or is held in its items. -/
inductive FieldValue.Holds : FieldValue ι → ι → Prop
  | node (id : ι) : Holds (.node id) id
  | item {items : List (FieldValue ι)} {v : FieldValue ι} {id : ι} :
      v ∈ items → Holds v id → Holds (.list items) id

mutual

theorem FieldValue.mem_leaves_iff_holds (id : ι) :
    (v : FieldValue ι) → (Leaf.node id ∈ v.leaves ↔ v.Holds id)
  | .scalar _ => by
    simp only [FieldValue.leaves, List.mem_singleton, reduceCtorEq, false_iff]
    exact fun h => nomatch h
  | .node other => by
    simp only [FieldValue.leaves, List.mem_singleton, Leaf.node.injEq]
    exact ⟨fun h => h ▸ .node id, fun h => by cases h; rfl⟩
  | .list items => by
    rw [FieldValue.leaves, FieldValue.mem_leavesOfItems_iff id items]
    exact ⟨fun ⟨_, hv, hid⟩ => .item hv hid, fun h => by cases h with | item hv hid => exact ⟨_, hv, hid⟩⟩
  | .hidden => by
    simp only [FieldValue.leaves, List.not_mem_nil, false_iff]
    exact fun h => nomatch h

theorem FieldValue.mem_leavesOfItems_iff (id : ι) : (items : List (FieldValue ι)) →
    (Leaf.node id ∈ FieldValue.leavesOfItems items ↔ ∃ v ∈ items, v.Holds id)
  | [] => by simp [FieldValue.leavesOfItems]
  | v :: rest => by
    rw [FieldValue.leavesOfItems, List.mem_append, FieldValue.mem_leaves_iff_holds id v,
      FieldValue.mem_leavesOfItems_iff id rest]
    simp

end

/-- A relevant field with that name holds the node. -/
def Node.Refers (node : Node ι) (property : String) (id : ι) : Prop :=
  ∃ value, (property, value) ∈ node.fields ∧ isRelevantKey property = true ∧ value.Holds id

theorem Node.mem_leaves_iff_refers {node : Node ι} {property : String} {id : ι} :
    (property, Leaf.node id) ∈ node.leaves ↔ node.Refers property id := by
  simp only [Node.leaves, List.mem_flatMap, List.mem_filter, List.mem_map, Prod.mk.injEq, Node.Refers]
  constructor
  · rintro ⟨⟨name, value⟩, ⟨hmem, hrel⟩, leaf, hleaf, rfl, rfl⟩
    exact ⟨value, hmem, hrel, (value.mem_leaves_iff_holds id).1 hleaf⟩
  · rintro ⟨value, hmem, hrel, hid⟩
    exact ⟨(property, value), ⟨hmem, hrel⟩, _, (value.mem_leaves_iff_holds id).2 hid, rfl, rfl⟩

/-- The nodes among the leaves, each with the name of its field. -/
def nodesAmong : List (String × Leaf ι) → List (String × ι)
  | [] => []
  | (_, .scalar _) :: rest => nodesAmong rest
  | (name, .node id) :: rest => (name, id) :: nodesAmong rest

theorem mem_nodesAmong_iff {leaves : List (String × Leaf ι)} {property : String} {id : ι} :
    (property, id) ∈ nodesAmong leaves ↔ (property, Leaf.node id) ∈ leaves := by
  induction leaves with
  | nil => simp [nodesAmong]
  | cons leaf rest ih =>
    obtain ⟨name, value | other⟩ := leaf
    all_goals simp [nodesAmong, ih]

/-- The nodes that a node refers to, as often as it does. -/
def Node.references (node : Node ι) : List (String × ι) :=
  nodesAmong node.leaves

theorem Node.mem_references_iff {node : Node ι} {property : String} {id : ι} :
    (property, id) ∈ node.references ↔ node.Refers property id :=
  mem_nodesAmong_iff.trans Node.mem_leaves_iff_refers

namespace Graph
variable {graph : Graph ι} {id next : ι}

def Edge (graph : Graph ι) (id next : ι) : Prop :=
  ∃ property, (graph id).Refers property next

def Reaches (graph : Graph ι) : ι → ι → Prop := Relation.ReflTransGen graph.Edge

/-- A node that leads back to itself. -/
def OnCycle (graph : Graph ι) (id : ι) : Prop := Relation.TransGen graph.Edge id id

/-- A path from a node: the nodes that it comes by, in order. -/
inductive PathFrom (graph : Graph ι) : ι → List ι → Prop
  | here (id : ι) : PathFrom graph id [id]
  | along {id next : ι} {path : List ι} :
      graph.Edge id next → PathFrom graph next path → PathFrom graph id (id :: path)

theorem PathFrom.reaches {path : List ι} (h : graph.PathFrom id path) :
    ∀ other ∈ path, graph.Reaches id other := by
  induction h with
  | here id =>
    intro other hother
    rw [List.mem_singleton.1 hother]
    exact .refl
  | along hedge _ ih =>
    intro other hother
    rcases List.mem_cons.1 hother with rfl | hother
    · exact .refl
    · exact .head hedge (ih other hother)

/-- Where no cycle is in reach, no path comes by a node twice. -/
theorem PathFrom.nodup {path : List ι} (h : graph.PathFrom id path)
    (hacyclic : ∀ other, graph.Reaches id other → ¬ graph.OnCycle other) : path.Nodup := by
  induction h with
  | here id => simp
  | @along id next path hedge hpath ih =>
    refine List.nodup_cons.2 ⟨fun hid => ?_, ih fun other hother => hacyclic other (.head hedge hother)⟩
    exact hacyclic id .refl (.head' hedge (hpath.reaches id hid))

end Graph
end QueryByExample
