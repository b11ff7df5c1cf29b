/-
Examples with a gap for a scalar.

A JSON value with a gap in it (`Json.Context`) is an example for each scalar in
the gap. If the objects around the gap are stored nodes, then the trees of these
examples differ in one leaf, and the steps of all nodes above it have the same
text but for the equality that the leaf comes to
(`Example.variesOnlyAt_of_fill`).
-/
import QueryByExample.Proofs.Example.Stored
import QueryByExample.Proofs.Example.Tree
import QueryByExample.Proofs.Path.Values

namespace QueryByExample

/-- For all values of one scalar below it a node is a match or not, and the
text of its step varies only at the equality for this scalar. -/
structure Branch.VariesOnlyAt (key : String) (b : Scalar → Branch) : Prop where
  isMatch : ∃ matched, ∀ value, (b value).isMatch = matched
  chars : QueryByExample.VariesOnlyAt key fun value => (b value).step.chars

namespace Branch
variable {key : String} (tag : String) (isMatch : Bool) (custom : List Predicate) (before after : List Part)

theorem variesOnlyAt_scalar (key : String) :
    VariesOnlyAt key fun value => .ofParts tag isMatch custom (before ++ .scalar key value :: after) where
  isMatch := by
    refine ⟨isMatch || (before ++ after).any fun part => part.match?.isSome, fun value => ?_⟩
    simp [ofParts, Part.match?]
  chars := by
    have hstep := (VariesOnlyAt.equality key).predicate (p := .equals key) tag (before.filterMap Part.equality?)
      (after.filterMap Part.equality? ++ (before ++ after).filterMap Part.condition? ++ custom)
      ((before ++ after).filterMap Part.match?)
    simpa [ofParts, List.filterMap_cons, Part.equality?, Part.condition?, Part.match?] using hstep

theorem VariesOnlyAt.below {b : Scalar → Branch} (h : VariesOnlyAt key b) (name : String) :
    VariesOnlyAt key fun value => .ofParts tag isMatch custom (before ++ .branch name (b value) :: after) := by
  obtain ⟨⟨matched, hmatched⟩, hchars⟩ := h
  refine ⟨⟨isMatch || matched || (before ++ after).any fun part => part.match?.isSome, fun value => ?_⟩, ?_⟩
  · cases matched <;> simp [ofParts, Part.match?, hmatched]
  cases matched with
  | false =>
    have hstep := (hchars.relation name).condition (r := fun value => ⟨name, (b value).step⟩) tag
      ((before ++ after).filterMap Part.equality? ++ before.filterMap Part.condition?)
      (after.filterMap Part.condition? ++ custom) ((before ++ after).filterMap Part.match?)
    simpa [ofParts, List.filterMap_cons, Part.equality?, Part.condition?, Part.match?, hmatched] using hstep
  | true =>
    have hstep := (hchars.relation name).matched (r := fun value => ⟨name, (b value).step⟩) tag
      ((before ++ after).filterMap Part.equality? ++ (before ++ after).filterMap Part.condition? ++ custom)
      (before.filterMap Part.match?) (after.filterMap Part.match?)
    simpa [ofParts, List.filterMap_cons, Part.equality?, Part.condition?, Part.match?, hmatched] using hstep

end Branch

/-- What varies in a leaf under a name: the leaf is the scalar or has it
somewhere below. -/
inductive Leaf.VariesOnlyAt (key : String) : String → (Scalar → Leaf NodeTree) → Prop
  | scalar : VariesOnlyAt key key .scalar
  | node {t : Scalar → NodeTree} (name : String) :
      Branch.VariesOnlyAt key (fun value => (t value).branch) → VariesOnlyAt key name fun value => .node (t value)

/-- What varies in a leaf varies in the node above. -/
theorem Leaf.VariesOnlyAt.below {key name : String} {leaf : Scalar → Leaf NodeTree}
    (h : Leaf.VariesOnlyAt key name leaf) (tag : String) (isMatch : Bool) (custom : List Predicate)
    (before after : List (String × Leaf NodeTree)) : Branch.VariesOnlyAt key fun value =>
      (NodeTree.node tag isMatch custom (before ++ (name, leaf value) :: after)).branch := by
  simp only [← NodeTree.ofParts_parts, List.map_append, List.map_cons]
  cases h with
  | scalar => exact Branch.variesOnlyAt_scalar tag isMatch custom _ _ key
  | node name h => exact h.below tag isMatch custom _ _ name

/-- A value with a gap in it, in items of arrays and members of objects. -/
inductive Json.Context where
  | hole
  | item (before : List Json) (inner : Context) (after : List Json)
  | member (before : List (String × Json)) (key : String) (inner : Context) (after : List (String × Json))

namespace Json.Context

def fill (v : Json) : Context → Json
  | .hole => v
  | .item before inner after => .array (before ++ inner.fill v :: after)
  | .member before key inner after => .object (before ++ (key, inner.fill v) :: after)

/-- The key under which the gap stands, directly or in arrays, in a value that
itself stands under `outer`. -/
def key (outer : String) : Context → String
  | .hole => outer
  | .item _ inner _ => inner.key outer
  | .member _ key inner _ => inner.key key

/-- The objects around the gap are nodes, and what holds it are properties. -/
def isStored : Context → Bool
  | .hole => true
  | .item _ inner _ => inner.isStored
  | .member before key inner after =>
    isRelevantKey key && Keyed.contains "nodeTags" (before ++ after) && inner.isStored

end Json.Context

theorem Json.itemProperties_append (items items' : List Json) :
    itemProperties (items ++ items') = itemProperties items ++ itemProperties items' := by
  rw [itemProperties_eq, itemProperties_eq, itemProperties_eq, List.filterMap_append]

theorem Json.memberProperties_append (members members' : List (String × Json)) :
    memberProperties (members ++ members') = memberProperties members ++ memberProperties members' := by
  rw [memberProperties_eq, memberProperties_eq, memberProperties_eq, List.filter_append, List.filterMap_append]

theorem Property.leavesOfItems_append (items items' : List Property) :
    leavesOfItems (items ++ items') = leavesOfItems items ++ leavesOfItems items' := by
  rw [leavesOfItems_eq, leavesOfItems_eq, leavesOfItems_eq, List.flatMap_append]

theorem Property.leavesOfAll_append (properties properties' : List (String × Property)) :
    leavesOfAll (properties ++ properties') = leavesOfAll properties ++ leavesOfAll properties' := by
  rw [leavesOfAll_eq, leavesOfAll_eq, leavesOfAll_eq, List.filter_append, List.flatMap_append]

/-- What stands under a relevant key has no influence on what the control keys say. -/
theorem Example.withControls_append_cons {key : String} (hkey : isRelevantKey key = true) (v : Json)
    (before after : List (String × Json)) (properties : List (String × Property)) :
    withControls (before ++ (key, v) :: after) properties = withControls (before ++ after) properties := by
  have hother (control : String) (h : isRelevantKey control = false) :
      Keyed.get? control (before ++ (key, v) :: after) = Keyed.get? control (before ++ after) := by
    refine Keyed.get?_append_cons_other (fun heq => ?_) v before after
    rw [heq, hkey] at h
    cases h
  simp only [withControls, hother "nodeTags" (by decide), hother "nodeName" (by decide), hother "$match" (by decide),
    hother "$predicate" (by decide)]

/-- With a scalar in the gap, one leaf of the property varies with the scalar. -/
theorem Json.Context.leaves_fill (outer : String) : (c : Context) → c.isStored = true →
    ∃ before leaf after, Leaf.VariesOnlyAt (c.key outer) outer leaf ∧
      ∀ v value, v.property? = some (.scalar value) →
        ∃ p, (c.fill v).property? = some p ∧ p.leaves = before ++ leaf value :: after
  | .hole, _ => ⟨[], .scalar, [], .scalar, fun v value hv => ⟨_, hv, rfl⟩⟩
  | .item before inner after, h => by
    obtain ⟨before', leaf, after', hvaries, hinner⟩ := leaves_fill outer inner h
    refine ⟨Property.leavesOfItems (itemProperties before) ++ before', leaf,
      after' ++ Property.leavesOfItems (itemProperties after), hvaries, fun v value hv => ?_⟩
    obtain ⟨p, hp, hleaves⟩ := hinner v value hv
    refine ⟨_, rfl, ?_⟩
    rw [itemProperties_append, itemProperties, hp, Option.toList_some, Property.leaves, Property.leavesOfItems_append,
      List.singleton_append, Property.leavesOfItems, hleaves]
    simp only [List.append_assoc, List.cons_append]
  | .member before key inner after, h => by
    simp only [isStored, Bool.and_eq_true] at h
    obtain ⟨⟨hkey, htags⟩, hinner⟩ := h
    obtain ⟨before', leaf, after', hvaries, hinner⟩ := leaves_fill key inner hinner
    let e : Example := .withControls (before ++ after) []
    refine ⟨[], fun value => .node (.node (e.tags.headD "") e.isMatch e.custom
        (Property.leavesOfAll (memberProperties before) ++ before'.map (key, ·) ++ (key, leaf value) ::
          (after'.map (key, ·) ++ Property.leavesOfAll (memberProperties after)))), [],
      .node outer (hvaries.below ..), fun v value hv => ?_⟩
    obtain ⟨p, hp, hleaves⟩ := hinner v value hv
    have htagged : Keyed.contains "nodeTags" (before ++ (key, inner.fill v) :: after) = true := by
      rwa [Keyed.contains, Keyed.get?_append_cons_other (fun heq => absurd (heq ▸ hkey) (by decide))]
    refine ⟨_, by rw [fill, property?, if_pos htagged], ?_⟩
    rw [Property.leaves, Example.withControls_append_cons hkey, memberProperties_append, memberProperties, if_pos hkey,
      hp, Example.withControls, Example.tree, Property.leavesOfAll_append, Option.toList_some, List.map_cons,
      List.map_nil, List.singleton_append, Property.leavesOfAll, if_pos hkey, hleaves]
    simp only [List.map_append, List.map_cons, List.append_assoc, List.cons_append, List.nil_append]
    rfl

namespace Example

/-- The example that a value is read as is the node that the value describes. -/
theorem property?_of_ofJson {v : Json} {e : Example} (hkeys : v.hasDistinctKeys = true) (hread : ofJson v = .ok e) :
    v.property? = some (.node e) := by
  cases v with
  | object members =>
    obtain ⟨hgood, rfl⟩ := (ofJson_okWhen hkeys).eq_ok_iff.1 hread
    rw [Json.isGood, Bool.and_eq_true, Option.any_eq_true_iff_get] at hgood
    obtain ⟨⟨htags, -⟩, -⟩ := hgood
    rw [Json.property?, Keyed.contains, if_pos htags, ofMembers]
  | _ => cases hread

/-- With a scalar in the gap, what a stored example compiles to varies only at
the equality for this scalar. -/
theorem variesOnlyAt_of_fill {c : Json.Context} (h : c.isStored = true) :
    ∃ before after, ∀ v value e limit b, v.property? = some (.scalar value) →
      (c.fill v).hasDistinctKeys = true → ofJson (c.fill v) = .ok e → e.compile limit = .ok b →
        b.step.chars = before ++ (Predicate.equals (c.key "") value).written.onStep ++ after := by
  obtain ⟨before, leaf, after, hvaries, hfill⟩ := c.leaves_fill "" h
  have hleaf {v value e} (hv : v.property? = some (.scalar value)) (hkeys : (c.fill v).hasDistinctKeys = true)
      (hread : ofJson (c.fill v) = .ok e) : leaf value = .node e.tree := by
    obtain ⟨p, hp, hleaves⟩ := hfill v value hv
    rw [property?_of_ofJson hkeys hread, Option.some.injEq] at hp
    rw [← hp, Property.leaves] at hleaves
    cases before with
    | nil => exact (List.cons.inj hleaves).1.symm
    | cons => simp at hleaves
  generalize c.key "" = key at hvaries ⊢
  generalize "" = name at hvaries
  cases hvaries with
  | scalar => exact ⟨[], [], fun v value e limit b hv hkeys hread _ => nomatch hleaf hv hkeys hread⟩
  | @node t _ hbranch =>
    obtain ⟨-, before, after, hchars⟩ := hbranch
    refine ⟨before, after, fun v value e limit b hv hkeys hread hcompile => ?_⟩
    have htree : t value = e.tree := Leaf.node.inj (hleaf hv hkeys hread)
    rw [compile_eq_tree hcompile, ← htree]
    exact hchars value

end Example
end QueryByExample
