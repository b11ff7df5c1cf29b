/-
Examples without places.

A place serves to tell the nodes of an example from each other, and what stands
at it is an example again. So an example is a node that refers to the examples
in its properties themselves (`Example.node`), and it compiles as that node,
from what these compile to with a limit of one less
(`Example.compile_succ_eq`).
-/
import QueryByExample.Example.Basic
import QueryByExample.Proofs.Graph.Wrapped

namespace QueryByExample

/-- A node compiles from the nodes that it refers to. -/
theorem Node.branch_congr {ι : Type} {node : Node ι} {visit visit' : String → String → ι → Except CompileError Branch}
    (h : ∀ property owner next, node.Refers property next → visit property owner next = visit' property owner next) :
    node.branch visit = node.branch visit' := by
  cases htags : node.tags with
  | nil => rw [branch_of_untagged htags, branch_of_untagged htags]
  | cons tag tags =>
    rw [branch_of_tagged htags, branch_of_tagged htags]
    refine congrArg _ (mapM_congr_mem fun leaf hleaf => ?_)
    obtain ⟨property, value | next⟩ := leaf
    · rfl
    · rw [Leaf.part, Leaf.part, h property tag next (mem_leaves_iff_refers.1 hleaf)]

mutual

/-- A property as the value of a field that refers to the examples in it. -/
def Property.value : Property → FieldValue Example
  | .scalar value => .scalar value
  | .node e => .node e
  | .list items => .list (Property.values items)

def Property.values : List Property → List (FieldValue Example)
  | [] => []
  | item :: rest => item.value :: Property.values rest

end

theorem Property.values_eq_map (items : List Property) : Property.values items = items.map Property.value := by
  induction items with
  | nil => rfl
  | cons item rest ih => rw [values, ih, List.map_cons]

/-- An example as a node that refers to the examples in its properties. -/
def Example.node (e : Example) : Node Example where
  name := e.name
  tags := e.tags
  fields := e.properties.map fun p => (p.1, p.2.value)
  isMatch := e.isMatch
  custom := e.custom

namespace Example

/-- The properties of which a query says anything. -/
def relevant (e : Example) : List (String × Property) :=
  e.properties.filter fun p => isRelevantKey p.1

theorem leaves_node (e : Example) : e.node.leaves = e.relevant.flatMap fun p => p.2.value.leaves.map (p.1, ·) := by
  simp only [Node.leaves, node, relevant, List.filter_map, List.flatMap_map]
  rfl

end Example

theorem Property.at?_concat (p : Property) (place : Place) (number : Nat) :
    p.at? (place ++ [number]) = (p.at? place).bind fun below => below.child? number := by
  induction place generalizing p with
  | nil =>
    rw [List.nil_append, at?, at?, Option.bind_some]
    cases p.child? number <;> rfl
  | cons first rest ih =>
    rw [List.cons_append, at?, at?, Option.bind_assoc]
    exact congrArg _ (funext ih)

theorem Property.fieldValues_eq (place : Place) (number : Nat) (items : List Property) :
    Property.fieldValues place number items =
      items.mapIdx fun i p => p.fieldValue (place ++ [number + i]) := by
  induction items generalizing number with
  | nil => rfl
  | cons item rest ih =>
    rw [fieldValues, ih, List.mapIdx_cons]
    simp only [Nat.add_zero, Nat.add_right_comm, Nat.add_assoc]

theorem Example.fieldsAt_eq (place : Place) (number : Nat) (properties : List (String × Property)) :
    Example.fieldsAt place number properties =
      properties.mapIdx fun i p => (p.1, p.2.fieldValue (place ++ [number + i])) := by
  induction properties generalizing number with
  | nil => rfl
  | cons first rest ih =>
    rw [fieldsAt, ih, List.mapIdx_cons]
    simp only [Nat.add_zero, Nat.add_right_comm, Nat.add_assoc]

/-- The example at a place below a property. -/
def Property.exampleAt (root : Property) (place : Place) : Example :=
  match root.at? place with
  | some (.node e) => e
  | _ => ⟨"", [], [], false, []⟩

section Places
variable {root : Property} {place next : Place}

theorem Property.at?_item {items : List Property} (h : root.at? place = some (.list items)) {i : Nat}
    (hi : i < items.length) : root.at? (place ++ [i]) = some items[i] := by
  rw [at?_concat, h]
  exact List.getElem?_eq_getElem hi

theorem Property.at?_property {e : Example} (h : root.at? place = some (.node e)) {i : Nat}
    (hi : i < e.properties.length) : root.at? (place ++ [i]) = some e.properties[i].2 := by
  rw [at?_concat, h]
  exact congrArg (Option.map Prod.snd) (List.getElem?_eq_getElem hi)

/-- What the field of a property refers to is a node at its place or below. -/
theorem Property.at?_of_fieldValue {p : Property} (hat : root.at? place = some p)
    (h : (p.fieldValue place).Holds next) : ∃ n, root.at? next = some (.node n) ∧ place.length ≤ next.length := by
  generalize hv : p.fieldValue place = v at h
  induction h generalizing p place with
  | node =>
    cases p with
    | node e => cases hv; exact ⟨e, hat, Nat.le_refl _⟩
    | scalar | list => cases hv
  | item hmem _ ih =>
    cases p with
    | list items =>
      cases hv
      rw [fieldValues_eq, List.mem_mapIdx] at hmem
      obtain ⟨i, hi, heq⟩ := hmem
      rw [Nat.zero_add] at heq
      obtain ⟨n, hnext, hlength⟩ := ih (at?_item hat hi) heq
      rw [List.length_append] at hlength
      exact ⟨n, hnext, Nat.le_of_add_right_le hlength⟩
    | scalar | node => cases hv

mutual

theorem Property.fieldValue_map : (p : Property) → (place : Place) → root.at? place = some p →
    (p.fieldValue place).map root.exampleAt = p.value
  | .scalar _, _, _ => rfl
  | .node e, place, hat => by
    rw [fieldValue, FieldValue.map, value, exampleAt, hat]
  | .list items, place, hat => by
    rw [fieldValue, FieldValue.map, value, Property.fieldValues_map items 0 fun i hi => ?_]
    rw [Nat.zero_add]
    exact at?_item hat hi

theorem Property.fieldValues_map {place : Place} : (items : List Property) → (number : Nat) →
    (∀ i (hi : i < items.length), root.at? (place ++ [number + i]) = some items[i]) →
    FieldValue.mapItems root.exampleAt (Property.fieldValues place number items) = Property.values items
  | [], _, _ => rfl
  | item :: rest, number, hat => by
    have hitem := Property.fieldValue_map item (place ++ [number]) (hat 0 (Nat.zero_lt_succ _))
    have hrest := Property.fieldValues_map rest (number + 1) fun i hi => by
      have hnext := hat (i + 1) (Nat.succ_lt_succ hi)
      rwa [← Nat.add_assoc, Nat.add_right_comm] at hnext
    rw [fieldValues, FieldValue.mapItems, hitem, hrest, values]

end

namespace Example
variable {e : Example}

/-- A node at a place refers to nodes at longer places. -/
theorem at?_of_refers {property : String} (hat : root.at? place = some (.node e))
    (h : (e.nodeAt place).Refers property next) :
    ∃ n, root.at? next = some (.node n) ∧ place.length < next.length := by
  obtain ⟨value, hvalue, -, hnext⟩ := h
  rw [nodeAt, fieldsAt_eq, List.mem_mapIdx] at hvalue
  obtain ⟨i, hi, heq⟩ := hvalue
  cases heq
  rw [Nat.zero_add] at hnext
  obtain ⟨n, hfound, hlength⟩ := Property.at?_of_fieldValue (Property.at?_property hat hi) hnext
  rw [List.length_append] at hlength
  exact ⟨n, hfound, hlength⟩

theorem nodeAt_map (hat : root.at? place = some (.node e)) : (e.nodeAt place).map root.exampleAt = e.node := by
  have hfields : (e.nodeAt place).fields.map (fun (name, value) => (name, value.map root.exampleAt)) = e.node.fields := by
    rw [nodeAt, fieldsAt_eq, node]
    refine List.ext_getElem (by simp) fun i hi hi' => ?_
    simp only [List.length_map, List.length_mapIdx] at hi
    simp only [List.getElem_map, List.getElem_mapIdx, Nat.zero_add]
    rw [Property.fieldValue_map _ _ (Property.at?_property hat hi)]
  rw [Node.map, hfields]
  rfl

/-- A node at a place compiles as the example there, when the nodes at longer
places do. -/
theorem branch_nodeAt (hat : root.at? place = some (.node e)) (limit : Nat) {visit}
    (hvisit : ∀ property owner next n, root.at? next = some (.node n) → place.length < next.length →
      visit property owner next = n.compile limit) :
    (e.nodeAt place).branch visit = e.node.branch fun _ _ n => n.compile limit := by
  rw [← nodeAt_map hat, Node.branch_map]
  refine Node.branch_congr fun property owner next hrefers => ?_
  obtain ⟨n, hnext, hlonger⟩ := at?_of_refers hat hrefers
  rw [hvisit property owner next n hnext hlonger, Property.exampleAt, hnext]

theorem compile_succ (e : Example) (limit : Nat) : e.compile (limit + 1) =
    (e.nodeAt []).branch fun _ _ place => e.graph.branchBelow limit [] place := rfl

theorem branchBelow_eq_compile : ∀ limit above {root e : Example} {place : Place},
    (Property.node root).at? place = some (.node e) → (∀ a ∈ above, a.length < place.length) →
    root.graph.branchBelow limit above place = e.compile limit
  | 0, _, _, _, _, _, _ => rfl
  | limit + 1, above, root, e, place, hat, habove => by
    have hnode : root.graph place = e.nodeAt place := by rw [graph, hat]
    have hself : (Property.node e).at? [] = some (.node e) := rfl
    rw [Graph.branchBelow, hnode, compile_succ, branch_nodeAt hat limit, branch_nodeAt hself limit]
    · exact fun property owner next n hnext _ => branchBelow_eq_compile limit [] hnext (by simp)
    · intro property owner next n hnext hlonger
      -- Every place that the walk is inside of is shorter than the next one.
      have habove' : ∀ a ∈ place :: above, a.length < next.length :=
        List.forall_mem_cons.2 ⟨hlonger, fun a ha => Nat.lt_trans (habove a ha) hlonger⟩
      rw [if_neg fun hback => Nat.lt_irrefl _ (habove' next hback)]
      exact branchBelow_eq_compile limit (place :: above) hnext habove'

theorem compile_succ_eq (e : Example) (limit : Nat) :
    e.compile (limit + 1) = e.node.branch fun _ _ n => n.compile limit := by
  have hself : (Property.node e).at? [] = some (.node e) := rfl
  rw [compile_succ]
  exact branch_nodeAt hself limit fun property owner next n hnext _ => branchBelow_eq_compile limit [] hnext (by simp)

end Example
end Places
end QueryByExample
