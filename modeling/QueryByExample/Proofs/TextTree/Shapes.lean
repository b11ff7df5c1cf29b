/-
The shapes in which a value is a tree.

A terminal is an object with a name, a value and perhaps tags, its members in
any order, or an array of these parts; a container is the same with children,
which may be missing, in place of the value (`TerminalForm`, `ContainerForm`).
What is read from a value goes by its shape (`ofJson?_eq_some_iff`), and as no
value has a shape of either kind, it does not matter which kind is looked for
first (`trying?_eq`).
-/
import Mathlib.Data.List.Nodup
import QueryByExample.Proofs.TextTree.Encoding

namespace QueryByExample

/-! ## Members by their keys -/

/-- Where no key comes twice, the entries are those found under their keys, in
some order. -/
theorem Keyed.perm_filterMap_get? {α : Type} {entries : Keyed α} {keys : List String} (hkeys : keys.Nodup)
    (h : (entries.map Prod.fst).Nodup) (hmem : ∀ e ∈ entries, e.1 ∈ keys) :
    entries.Perm (keys.filterMap fun key => (get? key entries).map (key, ·)) := by
  have hinjective : ∀ a a' b, b ∈ (get? a entries).map (a, ·) → b ∈ (get? a' entries).map (a', ·) → a = a' := by
    intro a a' b hb hb'
    obtain ⟨v, -, rfl⟩ := Option.map_eq_some_iff.1 hb
    obtain ⟨v', -, heq⟩ := Option.map_eq_some_iff.1 hb'
    exact (Prod.mk.inj heq).1.symm
  refine (List.perm_ext_iff_of_nodup h.of_map (hkeys.filterMap hinjective)).2 fun ⟨key, v⟩ => ?_
  simp only [List.mem_filterMap, Option.map_eq_some_iff, Prod.mk.injEq]
  constructor
  · intro he
    exact ⟨key, hmem _ he, v, (get?_eq_some_iff h).2 he, rfl, rfl⟩
  · rintro ⟨_, -, _, hget, rfl, rfl⟩
    exact mem_of_get? hget

namespace TextTree

theorem keysFit_iff {allowed : List String} {members : List (String × Json)} (hallowed : allowed.Nodup) :
    keysFit allowed members = true ↔ (members.map Prod.fst).Nodup ∧ ∀ m ∈ members, m.1 ∈ allowed := by
  induction members generalizing allowed with
  | nil => simp [keysFit]
  | cons m rest ih =>
    rw [keysFit, Bool.and_eq_true, ih (hallowed.erase m.1), List.map_cons, List.nodup_cons, List.forall_mem_cons,
      List.contains_iff_mem]
    simp only [hallowed.mem_erase_iff, List.mem_map, not_exists, not_and]
    constructor
    · rintro ⟨hfirst, hrest, hothers⟩
      exact ⟨⟨fun m' hm' => (hothers m' hm').1, hrest⟩, hfirst, fun m' hm' => (hothers m' hm').2⟩
    · rintro ⟨⟨hfresh, hrest⟩, hfirst, hothers⟩
      exact ⟨hfirst, hrest, fun m' hm' => ⟨hfresh m' hm', hothers m' hm'⟩⟩

/-- The order of members whose keys fit does not matter. -/
theorem keysFit_of_perm {allowed : List String} {members members' : List (String × Json)} (hallowed : allowed.Nodup)
    (hperm : members.Perm members') (hfit : keysFit allowed members' = true) :
    keysFit allowed members = true ∧ ∀ key, Keyed.get? key members = Keyed.get? key members' := by
  obtain ⟨hnodup, hmem⟩ := (keysFit_iff hallowed).1 hfit
  have hnodup' := (hperm.map Prod.fst).nodup_iff.2 hnodup
  refine ⟨(keysFit_iff hallowed).2 ⟨hnodup', fun m hm => hmem m (hperm.mem_iff.1 hm)⟩, ?_⟩
  exact Keyed.get?_perm hperm hnodup'

/-! ## Parts of a node -/

theorem strings?_eq_some_iff {v : Json} {tags : List String} :
    v.strings? = some tags ↔ v = .array (tags.map .string) := by
  refine ⟨fun h => ?_, fun h => h ▸ strings?_array tags⟩
  cases v with
  | array items =>
    rw [Json.strings?] at h
    induction items generalizing tags with
    | nil =>
      cases h
      rfl
    | cons item rest ih =>
      simp only [List.mapM_cons, Option.bind_eq_bind, Option.bind_eq_some_iff] at h
      obtain ⟨tag, htag, others, hothers, h⟩ := h
      cases h
      cases item with
      | string s =>
        cases htag
        rw [Json.array.inj (ih hothers), List.map_cons]
      | _ => cases htag
  | _ => cases h

/-- Tags as the last item of an array, if they are given. -/
def tagsItem (tags : Option (List String)) : List Json :=
  (tags.map fun tags => .array (tags.map .string)).toList

/-- Tags as a member of an object, if they are given. -/
def tagsMember (tags : Option (List String)) : List (String × Json) :=
  (tagsItem tags).map ("tags", ·)

/-- Children as a member of an object, if they are given. -/
def childrenMember (children : Option (List Json)) : List (String × Json) :=
  (children.map fun items => ("children", .array items)).toList

theorem nameIn?_eq_some_iff {members : List (String × Json)} {name : String} :
    nameIn? members = some name ↔ Keyed.get? "name" members = some (.string name) := by
  rw [nameIn?]
  split
  next s hget => simp [hget]
  next hnone => exact ⟨nofun, fun h => absurd h (hnone name)⟩

theorem tagsIn?_eq_some_iff {members : List (String × Json)} {tags : List String} :
    tagsIn? members = some tags ↔
      ∃ given : Option (List String), tags = given.getD [] ∧
        Keyed.get? "tags" members = given.map fun tags => .array (tags.map .string) := by
  rw [tagsIn?]
  split
  next hget =>
    refine ⟨fun h => ⟨none, (Option.some.inj h).symm, hget⟩, ?_⟩
    rintro ⟨given, rfl, hgiven⟩
    obtain rfl : given = none := Option.map_eq_none_iff.1 (hgiven.symm.trans hget)
    rfl
  next v hget =>
    rw [strings?_eq_some_iff, hget]
    constructor
    · rintro rfl
      exact ⟨some tags, rfl, rfl⟩
    · rintro ⟨given, rfl, hgiven⟩
      obtain ⟨given, rfl, rfl⟩ := Option.map_eq_some_iff.1 hgiven.symm
      rfl

theorem childrenIn?_eq (members : List (String × Json)) :
    childrenIn? members = match Keyed.get? "children" members with
      | none => some []
      | some (.array items) => ofItems? items
      | some _ => none := by
  induction members with
  | nil => rfl
  | cons m rest ih =>
    obtain ⟨key, value⟩ := m
    by_cases hkey : key = "children"
    · cases value <;> simp [childrenIn?, Keyed.get?, hkey]
    · cases value <;> simpa [childrenIn?, Keyed.get?, hkey] using ih

theorem childrenIn?_eq_some_iff {members : List (String × Json)} {children : List TextTree} :
    childrenIn? members = some children ↔
      ∃ given : Option (List Json), ofItems? (given.getD []) = some children ∧
        Keyed.get? "children" members = given.map .array := by
  rw [childrenIn?_eq]
  split
  next hget =>
    refine ⟨fun h => ⟨none, h, hget⟩, ?_⟩
    rintro ⟨given, hgiven, heq⟩
    obtain rfl : given = none := Option.map_eq_none_iff.1 (heq.symm.trans hget)
    exact hgiven
  next items hget =>
    refine ⟨fun h => ⟨some items, h, hget⟩, ?_⟩
    rintro ⟨given, hgiven, heq⟩
    obtain ⟨items', rfl, hitems⟩ := Option.map_eq_some_iff.1 (heq.symm.trans hget)
    cases hitems
    exact hgiven
  next v hother hget =>
    refine ⟨nofun, ?_⟩
    rintro ⟨given, hgiven, heq⟩
    obtain ⟨items, rfl, hitems⟩ := Option.map_eq_some_iff.1 (heq.symm.trans hget)
    exact absurd hitems.symm (hother items)

/-- A container with the children that are already read. -/
def containerOf? (children? : Option (List TextTree)) (members : List (String × Json)) : Option TextTree := do
  let name ← nameIn? members
  let tags ← tagsIn? members
  let children ← children?
  if keysFit ["name", "children", "tags"] members then some (.container name tags children) else none

theorem ofJson?_object (members : List (String × Json)) : ofJson? (.object members) =
    (terminalIn? members).or (containerOf? (childrenIn? members) members) := by
  rw [ofJson?]
  cases terminalIn? members <;> rfl

/-! ## Objects -/

section Objects
variable {members : List (String × Json)} {t : TextTree}

theorem keysFit_of_terminalIn? (h : terminalIn? members = some t) :
    keysFit ["name", "value", "tags"] members = true ∧ ∃ name value tags, nameIn? members = some name ∧
      tagsIn? members = some tags ∧ Keyed.get? "value" members = some (.string value) ∧
      t = .terminal name value tags := by
  simp only [terminalIn?, Option.bind_eq_bind, Option.bind_eq_some_iff] at h
  obtain ⟨name, hname, tags, htags, h⟩ := h
  split at h
  next value hvalue =>
    split at h
    next hfit => exact ⟨hfit, name, value, tags, hname, htags, hvalue, (Option.some.inj h).symm⟩
    next => cases h
  next => cases h

theorem keysFit_of_containerOf? {children? : Option (List TextTree)}
    (h : containerOf? children? members = some t) :
    keysFit ["name", "children", "tags"] members = true ∧ ∃ name tags children, nameIn? members = some name ∧
      tagsIn? members = some tags ∧ children? = some children ∧ t = .container name tags children := by
  simp only [containerOf?, Option.bind_eq_bind, Option.bind_eq_some_iff] at h
  obtain ⟨name, hname, tags, htags, children, hchildren, h⟩ := h
  split at h
  next hfit => exact ⟨hfit, name, tags, children, hname, htags, hchildren, (Option.some.inj h).symm⟩
  next => cases h

/-- An object that is a terminal has a key that no container has. -/
theorem containerOf?_of_terminalIn? (h : terminalIn? members = some t) (children? : Option (List TextTree)) :
    containerOf? children? members = none := by
  obtain ⟨-, name, value, tags, -, -, hvalue, -⟩ := keysFit_of_terminalIn? h
  refine Option.eq_none_iff_forall_ne_some.2 fun u hu => ?_
  have hfit := ((keysFit_iff (by decide)).1 (keysFit_of_containerOf? hu).1).2
  have hkey : "value" ∈ ["name", "children", "tags"] := hfit _ (Keyed.mem_of_get? hvalue)
  exact absurd hkey (by decide)

theorem terminalIn?_eq_some_iff : terminalIn? members = some t ↔
    ∃ name value tags, t = .terminal name value (tags.getD []) ∧
      members.Perm (("name", .string name) :: ("value", .string value) :: tagsMember tags) := by
  constructor
  · intro h
    obtain ⟨hfit, name, value, _, hname, htags, hvalue, rfl⟩ := keysFit_of_terminalIn? h
    obtain ⟨tags, rfl, hgiven⟩ := tagsIn?_eq_some_iff.1 htags
    have hkeys : ["name", "value", "tags"].Nodup := by decide
    obtain ⟨hnodup, hmem⟩ := (keysFit_iff hkeys).1 hfit
    have hperm := Keyed.perm_filterMap_get? hkeys hnodup hmem
    refine ⟨name, value, tags, rfl, hperm.trans (.of_eq ?_)⟩
    cases tags <;> simp [nameIn?_eq_some_iff.1 hname, hvalue, hgiven, tagsMember, tagsItem]
  · rintro ⟨name, value, tags, rfl, hperm⟩
    have hall : keysFit ["name", "value", "tags"]
        (("name", .string name) :: ("value", .string value) :: tagsMember tags) = true := by
      cases tags <;> simp [keysFit, tagsMember, tagsItem]
    obtain ⟨hfit, hget⟩ := keysFit_of_perm (by decide) hperm hall
    have hname : nameIn? members = some name := nameIn?_eq_some_iff.2 (hget "name")
    have hvalue : Keyed.get? "value" members = some (.string value) := hget "value"
    have htags : tagsIn? members = some (tags.getD []) := by
      refine tagsIn?_eq_some_iff.2 ⟨tags, rfl, (hget "tags").trans ?_⟩
      cases tags <;> rfl
    simp only [terminalIn?, hname, htags, hvalue, hfit, Option.bind_eq_bind, Option.bind_some, if_true]

theorem containerOf?_eq_some_iff : containerOf? (childrenIn? members) members = some t ↔
    ∃ name items tags children, t = .container name (tags.getD []) children ∧
      ofItems? (items.getD []) = some children ∧
      members.Perm (("name", .string name) :: (childrenMember items ++ tagsMember tags)) := by
  constructor
  · intro h
    obtain ⟨hfit, name, _, children, hname, htags, hread, rfl⟩ := keysFit_of_containerOf? h
    obtain ⟨tags, rfl, hgiven⟩ := tagsIn?_eq_some_iff.1 htags
    obtain ⟨items, hitems, hchildren⟩ := childrenIn?_eq_some_iff.1 hread
    have hkeys : ["name", "children", "tags"].Nodup := by decide
    obtain ⟨hnodup, hmem⟩ := (keysFit_iff hkeys).1 hfit
    have hperm := Keyed.perm_filterMap_get? hkeys hnodup hmem
    refine ⟨name, items, tags, children, rfl, hitems, hperm.trans (.of_eq ?_)⟩
    cases items <;> cases tags <;>
      simp [nameIn?_eq_some_iff.1 hname, hchildren, hgiven, childrenMember, tagsMember, tagsItem]
  · rintro ⟨name, items, tags, children, rfl, hitems, hperm⟩
    have hall : keysFit ["name", "children", "tags"]
        (("name", .string name) :: (childrenMember items ++ tagsMember tags)) = true := by
      cases items <;> cases tags <;> simp [keysFit, childrenMember, tagsMember, tagsItem]
    obtain ⟨hfit, hget⟩ := keysFit_of_perm (by decide) hperm hall
    have hname : nameIn? members = some name := nameIn?_eq_some_iff.2 (hget "name")
    have hchildren : childrenIn? members = some children := by
      refine childrenIn?_eq_some_iff.2 ⟨items, hitems, (hget "children").trans ?_⟩
      cases items <;> cases tags <;> rfl
    have htags : tagsIn? members = some (tags.getD []) := by
      refine tagsIn?_eq_some_iff.2 ⟨tags, rfl, (hget "tags").trans ?_⟩
      cases items <;> cases tags <;> rfl
    simp only [containerOf?, hname, htags, hchildren, hfit, Option.bind_eq_bind, Option.bind_some, if_true]

end Objects

/-! ## Shapes -/

/-- The shapes of a terminal with a given name and value, and with tags if they
are given. -/
inductive TerminalForm (name value : String) (tags : Option (List String)) : Json → Prop
  | object {members : List (String × Json)} :
      members.Perm (("name", .string name) :: ("value", .string value) :: tagsMember tags) →
      TerminalForm name value tags (.object members)
  | array : TerminalForm name value tags (.array (.string name :: .string value :: tagsItem tags))

/-- The shapes of a container with a given name, and with children and tags if
they are given; in an array there are no tags without children. -/
inductive ContainerForm (name : String) : Option (List Json) → Option (List String) → Json → Prop
  | object {children : Option (List Json)} {tags : Option (List String)} {members : List (String × Json)} :
      members.Perm (("name", .string name) :: (childrenMember children ++ tagsMember tags)) →
      ContainerForm name children tags (.object members)
  | name : ContainerForm name none none (.array [.string name])
  | array {children : List Json} {tags : Option (List String)} :
      ContainerForm name (some children) tags (.array (.string name :: .array children :: tagsItem tags))

/-- The value is a tree: it has the shape of a terminal, or that of a container
whose children are trees. -/
inductive IsTree : Json → Prop
  | terminal {name value : String} {tags : Option (List String)} {v : Json} :
      TerminalForm name value tags v → IsTree v
  | container {name : String} {children : Option (List Json)} {tags : Option (List String)} {v : Json} :
      ContainerForm name children tags v → (∀ child ∈ children.getD [], IsTree child) → IsTree v

/-- What comes second, or the key that only one of the two has, tells them apart. -/
theorem TerminalForm.not_containerForm {name value name' : String} {tags tags' : Option (List String)}
    {children : Option (List Json)} {v : Json} (h : TerminalForm name value tags v) :
    ¬ ContainerForm name' children tags' v := by
  intro h'
  cases h with
  | array => nomatch h'
  | object hperm =>
    cases h' with
    | object hperm' =>
      have hmem : ("value", Json.string value) ∈
          ("name", Json.string name') :: (childrenMember children ++ tagsMember tags') :=
        hperm'.mem_iff.1 (hperm.mem_iff.2 (by simp))
      cases children <;> cases tags' <;> simp [childrenMember, tagsMember, tagsItem] at hmem

section Reading
variable {v : Json} {t : TextTree}

/-- What is read from a value goes by its shape. -/
theorem ofJson?_eq_some_iff : ofJson? v = some t ↔
    (∃ name value tags, TerminalForm name value tags v ∧ t = .terminal name value (tags.getD [])) ∨
      ∃ name items tags children, ContainerForm name items tags v ∧ ofItems? (items.getD []) = some children ∧
        t = .container name (tags.getD []) children := by
  constructor
  · intro h
    cases v with
    | object members =>
      rw [ofJson?_object, Option.or_eq_some_iff] at h
      rcases h with h | ⟨-, h⟩
      · obtain ⟨name, value, tags, rfl, hperm⟩ := terminalIn?_eq_some_iff.1 h
        exact .inl ⟨name, value, tags, .object hperm, rfl⟩
      · obtain ⟨name, items, tags, children, rfl, hitems, hperm⟩ := containerOf?_eq_some_iff.1 h
        exact .inr ⟨name, items, tags, children, .object hperm, hitems, rfl⟩
    | array items =>
      unfold ofJson? at h
      split at h
      next heq => cases heq
      next name heq =>
        cases heq
        cases h
        exact .inr ⟨name, none, none, [], .name, rfl, rfl⟩
      next name value heq =>
        cases heq
        cases h
        exact .inl ⟨name, value, none, .array, rfl⟩
      next name value last heq =>
        cases heq
        obtain ⟨tags, htags, h⟩ := Option.bind_eq_some_iff.1 h
        cases h
        obtain rfl := strings?_eq_some_iff.1 htags
        exact .inl ⟨name, value, some tags, .array, rfl⟩
      next name items heq =>
        cases heq
        obtain ⟨children, hitems, h⟩ := Option.bind_eq_some_iff.1 h
        cases h
        exact .inr ⟨name, some items, none, children, .array, hitems, rfl⟩
      next name items last heq =>
        cases heq
        obtain ⟨tags, htags, h⟩ := Option.bind_eq_some_iff.1 h
        obtain ⟨children, hitems, h⟩ := Option.bind_eq_some_iff.1 h
        cases h
        obtain rfl := strings?_eq_some_iff.1 htags
        exact .inr ⟨name, some items, some tags, children, .array, hitems, rfl⟩
      next => cases h
    | _ => cases h
  · rintro (⟨name, value, tags, hform, rfl⟩ | ⟨name, items, tags, children, hform, hitems, rfl⟩)
    · cases hform with
      | object hperm =>
        rw [ofJson?_object, terminalIn?_eq_some_iff.2 ⟨name, value, tags, rfl, hperm⟩, Option.some_or]
      | array =>
        cases tags with
        | none => rfl
        | some tags => simp [tagsItem, ofJson?, strings?_array]
    · cases hform with
      | object hperm =>
        have hread := containerOf?_eq_some_iff.2 ⟨name, items, tags, children, rfl, hitems, hperm⟩
        have hnone : terminalIn? _ = none := Option.eq_none_iff_forall_ne_some.2 fun u hu =>
          Option.some_ne_none _ (hread.symm.trans (containerOf?_of_terminalIn? hu _))
        rw [ofJson?_object, hnone, Option.none_or, hread]
      | name =>
        cases hitems
        rfl
      | array =>
        rw [Option.getD_some] at hitems
        cases tags with
        | none => simp [tagsItem, ofJson?, hitems]
        | some tags => simp [tagsItem, ofJson?, strings?_array, hitems]

end Reading

/-! ## Trees -/

theorem ofItems?_eq_mapM (items : List Json) : ofItems? items = items.mapM ofJson? := by
  induction items with
  | nil => rfl
  | cons item rest ih => rw [ofItems?, List.mapM_cons, ih]

mutual

theorem isTree_of_ofJson? : (t : TextTree) → ∀ {v : Json}, ofJson? v = some t → IsTree v
  | .terminal .., v, h => by
    obtain ⟨_, _, _, hform, -⟩ | ⟨_, _, _, _, _, _, heq⟩ := ofJson?_eq_some_iff.1 h
    · exact .terminal hform
    · cases heq
  | .container _ _ children, v, h => by
    obtain ⟨_, _, _, _, heq⟩ | ⟨_, items, _, _, hform, hitems, heq⟩ := ofJson?_eq_some_iff.1 h
    · cases heq
    · cases heq
      exact .container hform (isTree_of_ofItems? children hitems)

theorem isTree_of_ofItems? : (ts : List TextTree) → ∀ {items : List Json}, ofItems? items = some ts →
    ∀ item ∈ items, IsTree item
  | ts, [], _ => by simp
  | ts, item :: rest, h => by
    simp only [ofItems?, Option.bind_eq_bind, Option.bind_eq_some_iff] at h
    obtain ⟨t, ht, others, hothers, h⟩ := h
    cases h
    exact List.forall_mem_cons.2 ⟨isTree_of_ofJson? t ht, isTree_of_ofItems? others hothers⟩

end

theorem exists_ofItems? {items : List Json} (h : ∀ item ∈ items, ∃ t, ofJson? item = some t) :
    ∃ ts, ofItems? items = some ts := by
  induction items with
  | nil => exact ⟨[], rfl⟩
  | cons item rest ih =>
    obtain ⟨⟨t, ht⟩, hrest⟩ := List.forall_mem_cons.1 h
    obtain ⟨ts, hts⟩ := ih hrest
    exact ⟨t :: ts, by rw [ofItems?, ht, hts]; rfl⟩

/-- A tree is read from a value exactly when it has the shape of one. -/
theorem exists_ofJson?_iff {v : Json} : (∃ t, ofJson? v = some t) ↔ IsTree v := by
  refine ⟨fun ⟨t, h⟩ => isTree_of_ofJson? t h, fun h => ?_⟩
  induction h with
  | terminal hform => exact ⟨_, ofJson?_eq_some_iff.2 (.inl ⟨_, _, _, hform, rfl⟩)⟩
  | container hform _ ih =>
    obtain ⟨children, hitems⟩ := exists_ofItems? ih
    exact ⟨_, ofJson?_eq_some_iff.2 (.inr ⟨_, _, _, children, hform, hitems, rfl⟩)⟩

/-! ## The order in which shapes are tried -/

/-- The first result that is there, of one and another or the other way round. -/
def firstOf {α : Type} (otherFirst : Bool) (one other : Option α) : Option α :=
  if otherFirst then other.or one else one.or other

theorem firstOf_eq_or {α : Type} {one other : Option α} (h : ∀ a, one = some a → other = none) (otherFirst : Bool) :
    firstOf otherFirst one other = one.or other := by
  cases otherFirst with
  | false => rfl
  | true =>
    cases one with
    | none => simp [firstOf]
    | some a => simp [firstOf, h a rfl]

/-- The terminal that a value is. -/
def terminal? : Json → Option TextTree
  | .object members => terminalIn? members
  | .array [.string name, .string value] => some (.terminal name value [])
  | .array [.string name, .string value, tags] => return .terminal name value (← tags.strings?)
  | _ => none

mutual

/-- The container that a value is. Of each value in it the test says whether
the shapes of a container are tried before those of a terminal. -/
def container? (containerFirst : Json → Bool) : Json → Option TextTree
  | .object members => containerOf? (childrenTrying? containerFirst members) members
  | .array [.string name] => some (.container name [] [])
  | .array [.string name, .array children] =>
    return .container name [] (← itemsTrying? containerFirst children)
  | .array [.string name, .array children, tags] =>
    return .container name (← tags.strings?) (← itemsTrying? containerFirst children)
  | _ => none

def childrenTrying? (containerFirst : Json → Bool) : List (String × Json) → Option (List TextTree)
  | [] => some []
  | (key, value) :: rest =>
    if key = "children" then
      match value with
      | .array items => itemsTrying? containerFirst items
      | _ => none
    else childrenTrying? containerFirst rest

def itemsTrying? (containerFirst : Json → Bool) : List Json → Option (List TextTree)
  | [] => some []
  | item :: rest =>
    return (← firstOf (containerFirst item) (terminal? item) (container? containerFirst item)) ::
      (← itemsTrying? containerFirst rest)

end

/-- The tree that a value is, its shapes tried in a given order at each value. -/
def trying? (containerFirst : Json → Bool) (v : Json) : Option TextTree :=
  firstOf (containerFirst v) (terminal? v) (container? containerFirst v)

theorem container?_of_terminal? {v : Json} {t : TextTree} (h : terminal? v = some t)
    (containerFirst : Json → Bool) : container? containerFirst v = none := by
  unfold terminal? at h
  split at h
  next members =>
    rw [container?]
    exact containerOf?_of_terminalIn? h _
  next => rfl
  next => rfl
  next => cases h

section Trying
variable (containerFirst : Json → Bool)

/-- An array as a terminal or else as a container, where its children are read alike. -/
theorem or_container?_array {items : List Json}
    (h : ∀ children, .array children ∈ items → itemsTrying? containerFirst children = ofItems? children) :
    (terminal? (.array items)).or (container? containerFirst (.array items)) = ofJson? (.array items) := by
  unfold ofJson?
  split
  next heq => cases heq
  next heq =>
    cases heq
    rfl
  next heq =>
    cases heq
    rfl
  next tags heq =>
    cases heq
    cases htags : tags.strings? <;> simp [terminal?, container?, htags]
  next children heq =>
    cases heq
    simp [terminal?, container?, h children (by simp)]
  next children tags heq =>
    cases heq
    cases htags : tags.strings? <;> simp [terminal?, container?, htags, h children (by simp)]
  next hname hterminal hterminal' hcontainer hcontainer' =>
    have hno : terminal? (.array items) = none := by
      unfold terminal?
      split
      next heq => cases heq
      next name value heq => exact (hterminal name value heq).elim
      next name value tags heq => exact (hterminal' name value tags heq).elim
      next => rfl
    have hno' : container? containerFirst (.array items) = none := by
      unfold container?
      split
      next heq => cases heq
      next name heq => exact (hname name heq).elim
      next name children heq => exact (hcontainer name children heq).elim
      next name children tags heq => exact (hcontainer' name children tags heq).elim
      next => rfl
    rw [hno, hno', Option.or_none]

mutual

theorem trying?_eq : (v : Json) → trying? containerFirst v = ofJson? v
  | .object members => by
    rw [trying?, firstOf_eq_or fun _ h => container?_of_terminal? h containerFirst, terminal?, container?,
      childrenTrying?_eq members, ofJson?_object]
  | .array items => by
    rw [trying?, firstOf_eq_or fun _ h => container?_of_terminal? h containerFirst]
    exact or_container?_array containerFirst (itemsTrying?_eq_of_mem items)
  | .null | .bool _ | .int _ | .double _ | .string _ => by
    rw [trying?, firstOf_eq_or fun _ h => container?_of_terminal? h containerFirst]
    rfl

theorem childrenTrying?_eq : (members : List (String × Json)) →
    childrenTrying? containerFirst members = childrenIn? members
  | [] => rfl
  | (key, .array items) :: rest => by
    simp only [childrenTrying?, childrenIn?, itemsTrying?_eq items, childrenTrying?_eq rest]
  | (key, .object _) :: rest | (key, .null) :: rest | (key, .bool _) :: rest | (key, .int _) :: rest
  | (key, .double _) :: rest | (key, .string _) :: rest => by
    simp only [childrenTrying?, childrenIn?, childrenTrying?_eq rest]

theorem itemsTrying?_eq_of_mem : (items : List Json) → ∀ children, .array children ∈ items →
    itemsTrying? containerFirst children = ofItems? children
  | [], _, h => nomatch h
  | .array items :: rest, children, h => by
    rcases List.mem_cons.1 h with heq | h
    · cases heq
      exact itemsTrying?_eq items
    · exact itemsTrying?_eq_of_mem rest children h
  | .object _ :: rest, children, h | .null :: rest, children, h | .bool _ :: rest, children, h
  | .int _ :: rest, children, h | .double _ :: rest, children, h | .string _ :: rest, children, h => by
    rcases List.mem_cons.1 h with heq | h
    · cases heq
    · exact itemsTrying?_eq_of_mem rest children h

theorem itemsTrying?_eq : (items : List Json) → itemsTrying? containerFirst items = ofItems? items
  | [] => rfl
  | item :: rest => by
    have hitem := trying?_eq item
    rw [trying?] at hitem
    rw [itemsTrying?, ofItems?, hitem, itemsTrying?_eq rest]

end

end Trying

end TextTree
end QueryByExample
