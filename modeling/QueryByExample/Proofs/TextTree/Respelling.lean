/-
Different spellings of a tree.

A value can be respelled: as an array or as an object, with its members in
another order, with empty tags or children or without (`Respelled`). This
leaves what is read from it as it is (`Respelled.ofJson?_eq`), and it leads
from any value that is a tree to what is written of the tree
(`respelled_toJson`). So what is written is a canonical form: two values come
to the same when they are spellings of each other (`ofJson_shapes`).
-/
import QueryByExample.Proofs.TextTree.Shapes

namespace QueryByExample.TextTree

/-- The values differ, in themselves or in the children in them, in these ways
alone: an array stands for an object, the members stand in another order, and
tags or children that are empty are missing. -/
inductive Respelled : Json → Json → Prop
  | refl (v : Json) : Respelled v v
  | symm {v w : Json} : Respelled v w → Respelled w v
  | trans {u v w : Json} : Respelled u v → Respelled v w → Respelled u w
  | order {members members' : List (String × Json)} :
      members.Perm members' → Respelled (.object members) (.object members')
  | terminalArray (name value : String) (tags : Option (List String)) :
      Respelled (.array (.string name :: .string value :: tagsItem tags))
        (.object (("name", .string name) :: ("value", .string value) :: tagsMember tags))
  | nameArray (name : String) : Respelled (.array [.string name]) (.object [("name", .string name)])
  | containerArray (name : String) (children : List Json) (tags : Option (List String)) :
      Respelled (.array (.string name :: .array children :: tagsItem tags))
        (.object (("name", .string name) :: ("children", .array children) :: tagsMember tags))
  | noTags {members : List (String × Json)} : "tags" ∉ members.map Prod.fst →
      Respelled (.object (("tags", .array []) :: members)) (.object members)
  | noChildren {members : List (String × Json)} :
      "children" ∉ members.map Prod.fst → "value" ∉ members.map Prod.fst →
      Respelled (.object (("children", .array []) :: members)) (.object members)
  | child {item item' : Json} (before after : List Json) (members : List (String × Json)) :
      Respelled item item' →
      Respelled (.object (("children", .array (before ++ item :: after)) :: members))
        (.object (("children", .array (before ++ item' :: after)) :: members))

section Objects
variable {members members' : List (String × Json)}

theorem ofJson?_object_congr (hterminal : terminalIn? members = terminalIn? members')
    (hcontainer : containerOf? (childrenIn? members) members = containerOf? (childrenIn? members') members') :
    ofJson? (.object members) = ofJson? (.object members') := by
  rw [ofJson?_object, ofJson?_object, hterminal, hcontainer]

theorem ofJson?_of_perm {t : TextTree} (hperm : members.Perm members') (h : ofJson? (.object members) = some t) :
    ofJson? (.object members') = some t := by
  rw [ofJson?_eq_some_iff] at h ⊢
  rcases h with ⟨name, value, tags, ⟨hform⟩, rfl⟩ | ⟨name, items, tags, children, ⟨hform⟩, hitems, rfl⟩
  · exact .inl ⟨name, value, tags, .object (hperm.symm.trans hform), rfl⟩
  · exact .inr ⟨name, items, tags, children, .object (hperm.symm.trans hform), hitems, rfl⟩

theorem ofJson?_perm (hperm : members.Perm members') : ofJson? (.object members) = ofJson? (.object members') :=
  Option.ext fun _ => ⟨ofJson?_of_perm hperm, ofJson?_of_perm hperm.symm⟩

/-- Besides a key of its own, a member counts by its key alone. -/
theorem keysFit_cons {allowed : List String} {key : String} (value : Json) (hallowed : key ∈ allowed)
    (hnodup : allowed.Nodup) (hkey : key ∉ members.map Prod.fst) :
    keysFit allowed ((key, value) :: members) = keysFit allowed members := by
  rw [Bool.eq_iff_iff, keysFit_iff hnodup, keysFit_iff hnodup]
  simp [hallowed, List.nodup_cons, hkey]

theorem ofJson?_noTags (h : "tags" ∉ members.map Prod.fst) :
    ofJson? (.object (("tags", .array []) :: members)) = ofJson? (.object members) := by
  have hnone : Keyed.get? "tags" members = none := Keyed.get?_eq_none_iff.2 h
  have htags : tagsIn? (("tags", .array []) :: members) = tagsIn? members := by rw [tagsIn?, tagsIn?, hnone]; rfl
  have hname : nameIn? (("tags", .array []) :: members) = nameIn? members := rfl
  have hvalue : Keyed.get? "value" (("tags", Json.array []) :: members) = Keyed.get? "value" members := rfl
  have hchildren : childrenIn? (("tags", .array []) :: members) = childrenIn? members := by simp [childrenIn?]
  refine ofJson?_object_congr ?_ ?_
  · rw [terminalIn?, terminalIn?, hname, htags, hvalue, keysFit_cons _ (by decide) (by decide) h]
  · rw [containerOf?, containerOf?, hname, htags, hchildren, keysFit_cons _ (by decide) (by decide) h]

theorem ofJson?_noChildren (h : "children" ∉ members.map Prod.fst) (hvalue : "value" ∉ members.map Prod.fst) :
    ofJson? (.object (("children", .array []) :: members)) = ofJson? (.object members) := by
  have hnone : Keyed.get? "children" members = none := Keyed.get?_eq_none_iff.2 h
  have hchildren : childrenIn? (("children", .array []) :: members) = childrenIn? members := by
    rw [childrenIn?_eq members, hnone]
    rfl
  have hterminal : ∀ rest : List (String × Json), "value" ∉ rest.map Prod.fst → terminalIn? rest = none := by
    refine fun rest hrest => Option.eq_none_iff_forall_ne_some.2 fun t ht => ?_
    obtain ⟨-, _, _, _, -, -, hget, -⟩ := keysFit_of_terminalIn? ht
    exact hrest (List.mem_map.2 ⟨_, Keyed.mem_of_get? hget, rfl⟩)
  refine ofJson?_object_congr ?_ ?_
  · rw [hterminal members hvalue, hterminal _ (by simpa using hvalue)]
  · rw [containerOf?, containerOf?, hchildren, keysFit_cons _ (by decide) (by decide) h]
    rfl

theorem keysFit_congr {allowed : List String} (h : members.map Prod.fst = members'.map Prod.fst) :
    keysFit allowed members = keysFit allowed members' := by
  induction members generalizing allowed members' with
  | nil =>
    rw [List.map_nil, eq_comm, List.map_eq_nil_iff] at h
    rw [h]
  | cons m rest ih =>
    obtain ⟨m', rest', rfl⟩ : ∃ m' rest', members' = m' :: rest' :=
      List.exists_cons_of_ne_nil fun hnil => by simp [hnil] at h
    obtain ⟨hkey, hrest⟩ := List.cons.inj h
    rw [keysFit, keysFit, hkey, ih hrest]

theorem ofJson?_child {items items' : List Json} (h : ofItems? items = ofItems? items') :
    ofJson? (.object (("children", .array items) :: members)) =
      ofJson? (.object (("children", .array items') :: members)) := by
  have hfit : ∀ allowed, keysFit allowed (("children", .array items) :: members) =
      keysFit allowed (("children", .array items') :: members) := fun _ => keysFit_congr rfl
  have hchildren : childrenIn? (("children", .array items) :: members) =
      childrenIn? (("children", .array items') :: members) := by simp only [childrenIn?, if_true, h]
  refine ofJson?_object_congr ?_ ?_
  · rw [terminalIn?, terminalIn?, hfit]
    rfl
  · rw [containerOf?, containerOf?, hfit, hchildren]
    rfl

end Objects

theorem ofJson?_containerArray (name : String) (items : List Json) (tags : Option (List String)) :
    ofJson? (.array (.string name :: .array items :: tagsItem tags)) =
      ofJson? (.object (("name", .string name) :: ("children", .array items) :: tagsMember tags)) := by
  cases tags with
  | none =>
    simp [tagsItem, tagsMember, ofJson?, terminalIn?, nameIn?, tagsIn?, Keyed.get?, childrenIn?, keysFit]
  | some tags =>
    simp [tagsItem, tagsMember, ofJson?, terminalIn?, nameIn?, tagsIn?, Keyed.get?, childrenIn?, keysFit,
      strings?_array]

theorem Respelled.ofJson?_eq {v w : Json} (h : Respelled v w) : ofJson? v = ofJson? w := by
  induction h with
  | refl => rfl
  | symm _ ih => exact ih.symm
  | trans _ _ ih ih' => exact ih.trans ih'
  | order hperm => exact ofJson?_perm hperm
  | terminalArray name value tags =>
    have hread : ∀ {v}, TerminalForm name value tags v → ofJson? v = some (.terminal name value (tags.getD [])) :=
      fun hform => ofJson?_eq_some_iff.2 (.inl ⟨name, value, tags, hform, rfl⟩)
    exact (hread .array).trans (hread (.object (.refl _))).symm
  | nameArray name =>
    have hread : ∀ {v}, ContainerForm name none none v → ofJson? v = some (.container name [] []) :=
      fun hform => ofJson?_eq_some_iff.2 (.inr ⟨name, none, none, [], hform, rfl, rfl⟩)
    exact (hread .name).trans (hread (.object (.refl _))).symm
  | containerArray name items tags => exact ofJson?_containerArray name items tags
  | noTags h => exact ofJson?_noTags h
  | noChildren h hvalue => exact ofJson?_noChildren h hvalue
  | child before after members _ ih =>
    refine ofJson?_child ?_
    simp only [ofItems?_eq_mapM, List.mapM_append, List.mapM_cons, ih]

section Written
variable {members : List (String × Json)}

/-- Empty tags are as good as none, and other tags stand where they are written. -/
theorem respelled_head (name : String) (tags : Option (List String)) (key : String) (value : Json)
    (hkey : key ≠ "tags") :
    Respelled (.object (("name", .string name) :: (key, value) :: tagsMember tags))
      (.object (head name (tags.getD []) ++ [(key, value)])) := by
  match tags with
  | none => exact .refl _
  | some [] =>
    have hperm := List.perm_append_singleton ("tags", Json.array []) [("name", .string name), (key, value)]
    exact .trans (.order hperm) (.noTags (by simpa using hkey.symm))
  | some (tag :: tags) =>
    refine .order (.cons _ ?_)
    exact .swap _ _ _

theorem respelled_children {items items' : List Json} (before : List Json) (members : List (String × Json))
    (h : List.Forall₂ Respelled items items') :
    Respelled (.object (("children", .array (before ++ items)) :: members))
      (.object (("children", .array (before ++ items')) :: members)) := by
  induction h generalizing before with
  | nil => exact .refl _
  | @cons item item' rest rest' hitem _ ih =>
    have hrest := ih (before ++ [item'])
    rw [List.append_assoc, List.append_assoc] at hrest
    exact .trans (.child before rest members hitem) hrest

theorem TerminalForm.respelled {name value : String} {tags : Option (List String)} {v : Json}
    (h : TerminalForm name value tags v) : Respelled v (terminal name value (tags.getD [])).toJson := by
  rw [toJson]
  refine .trans ?_ (respelled_head name tags "value" (.string value) (by decide))
  cases h with
  | object hperm => exact .order hperm
  | array => exact .terminalArray name value tags

theorem ContainerForm.respelled {name : String} {items : Option (List Json)} {tags : Option (List String)} {v : Json}
    (h : ContainerForm name items tags v) : Respelled v
      (.object (("name", .string name) :: ("children", .array (items.getD [])) :: tagsMember tags)) := by
  cases h with
  | object hperm =>
    refine .trans (.order hperm) ?_
    cases items with
    | some items => exact .refl _
    | none =>
      refine .trans (.symm (.noChildren ?_ ?_)) (.order (.swap _ _ _))
      · cases tags <;> simp [childrenMember, tagsMember, tagsItem]
      · cases tags <;> simp [childrenMember, tagsMember, tagsItem]
  | name =>
    refine .trans (.nameArray name) ?_
    exact .trans (.symm (.noChildren (by simp) (by simp))) (.order (.swap _ _ _))
  | array => exact .containerArray name _ tags

mutual

/-- Every spelling of a tree is one of what is written of the tree. -/
theorem respelled_toJson : (t : TextTree) → ∀ {v : Json}, ofJson? v = some t → Respelled v t.toJson
  | .terminal .., v, h => by
    obtain ⟨_, _, _, hform, heq⟩ | ⟨_, _, _, _, _, _, heq⟩ := ofJson?_eq_some_iff.1 h
    · rw [heq]
      exact hform.respelled
    · cases heq
  | .container _ _ children, v, h => by
    obtain ⟨_, _, _, _, heq⟩ | ⟨name, items, tags, _, hform, hitems, heq⟩ := ofJson?_eq_some_iff.1 h
    · cases heq
    · cases heq
      have hchildren := respelled_toItems children hitems
      rw [toJson]
      refine .trans hform.respelled (.trans ?_ (respelled_head _ tags "children" _ (by decide)))
      refine .trans (.order (.swap _ _ _)) (.trans ?_ (.order (.swap _ _ _)))
      exact respelled_children [] _ hchildren

theorem respelled_toItems : (ts : List TextTree) → ∀ {items : List Json}, ofItems? items = some ts →
    List.Forall₂ Respelled items (toItems ts)
  | ts, [], h => by
    cases h
    exact .nil
  | ts, item :: rest, h => by
    simp only [ofItems?, Option.bind_eq_bind, Option.bind_eq_some_iff] at h
    obtain ⟨t, ht, others, hothers, h⟩ := h
    cases h
    exact .cons (respelled_toJson t ht) (respelled_toItems others hothers)

end

end Written

theorem ofJson_ok_iff {v : Json} {t : TextTree} : ofJson v = .ok t ↔ ofJson? v = some t := by
  rw [ofJson]
  split
  next u hu => simp [hu]
  next hnone => simp [hnone]

/-- **A tree is read from its shapes, and from each in one way.** A value is
read exactly when it has the shape of a tree. It never has the shapes of both a
terminal and a container, and so, in whatever order they are tried, at the
value and at each child in it, the same is read. What is written of a tree is a
canonical form of the values that it is read from: the same is written for two
of them exactly when they are spellings of each other. -/
theorem ofJson_shapes (v : Json) :
    ((∃ t, ofJson v = .ok t) ↔ IsTree v) ∧
      (∀ name value tags name' children tags', TerminalForm name value tags v → ¬ ContainerForm name' children tags' v) ∧
      (∀ containerFirst, trying? containerFirst v = ofJson? v) ∧
      ∀ w t u, ofJson v = .ok t → ofJson w = .ok u → (t.toJson = u.toJson ↔ Respelled v w) := by
  refine ⟨?_, fun _ _ _ _ _ _ hform => hform.not_containerForm, fun order => trying?_eq order v, ?_⟩
  · simp only [ofJson_ok_iff]
    exact exists_ofJson?_iff
  · intro w t u ht hu
    rw [ofJson_ok_iff] at ht hu
    constructor
    · intro heq
      have hw : Respelled w t.toJson := heq ▸ respelled_toJson u hu
      exact (respelled_toJson t ht).trans hw.symm
    · intro hrespelled
      have hread : some t = some u := ht.symm.trans (hrespelled.ofJson?_eq.trans hu)
      rw [Option.some.inj hread]

/-- A tree with a terminal and an empty container, in arrays and in objects. -/
theorem ofJson_shapes_spellings :
    let arrays := Json.array [.string "t", .array [.array [.string "a", .string "x"], .array [.string "b", .array []]]]
    let objects := Json.object [("children", .array [
        .object [("value", .string "x"), ("tags", .array []), ("name", .string "a")], .object [("name", .string "b")]]),
      ("name", .string "t")]
    let tree := container "t" [] [terminal "a" "x" [], container "b" [] []]
    ofJson arrays = .ok tree ∧ ofJson objects = .ok tree ∧ Respelled arrays objects := by
  intro arrays objects tree
  have harrays : ofJson arrays = .ok tree := rfl
  have hobjects : ofJson objects = .ok tree := rfl
  obtain ⟨-, -, -, hsame⟩ := ofJson_shapes arrays
  exact ⟨harrays, hobjects, (hsame objects tree tree harrays hobjects).1 rfl⟩

end QueryByExample.TextTree
