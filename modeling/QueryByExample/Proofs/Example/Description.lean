/-
What a JSON value describes as an example, without regard to the order in
which it is read.

A node is well formed when its tags are, its custom predicate is a string,
and whatever stands under its relevant keys is fine. Tags, name, mark and
custom predicate come from their keys, wherever these stand; the other
relevant keys give the properties, in order. A value that is absent, null or
an object without tags, gives none and is not looked into.
-/
import QueryByExample.Example.Basic

namespace QueryByExample

namespace Json

def string? : Json → Option String
  | .string s => some s
  | _ => none

/-- One string, or an array of strings. -/
def isTags : Json → Bool
  | .string _ => true
  | .array items => items.all (·.string?.isSome)
  | _ => false

mutual

/-- Whether all that is looked at in a value is well formed. -/
def isFine : Json → Bool
  | .array items => allFine items
  | .object members => !Keyed.contains "nodeTags" members ||
      (Keyed.get? "nodeTags" members).any isTags && membersFine members
  | _ => true

def allFine : List Json → Bool
  | [] => true
  | item :: rest => item.isFine && allFine rest

/-- A custom predicate is a string, and the value of a relevant key is fine. -/
def membersFine : List (String × Json) → Bool
  | [] => true
  | (key, value) :: rest => (key ≠ "$predicate" || value.string?.isSome) &&
      (!isRelevantKey key || value.isFine) && membersFine rest

end

/-- The members of a well-formed node. -/
def isGood (members : List (String × Json)) : Bool :=
  (Keyed.get? "nodeTags" members).any isTags && membersFine members

theorem membersFine_iff (members : List (String × Json)) : membersFine members = true ↔
    ∀ m ∈ members, (m.1 = "$predicate" → m.2.string?.isSome = true) ∧
      (isRelevantKey m.1 = true → m.2.isFine = true) := by
  induction members with
  | nil => simp [membersFine]
  | cons m rest ih =>
    rw [membersFine, Bool.and_eq_true, Bool.and_eq_true, ih, List.forall_mem_cons]
    simp [Decidable.imp_iff_not_or]

theorem isFine_object (members : List (String × Json)) :
    (object members).isFine = (!Keyed.contains "nodeTags" members || isGood members) := rfl

end Json

/-- The tags that a value lists. -/
def Json.tags : Json → List String
  | .string tag => [tag]
  | .array items => items.filterMap (·.string?)
  | _ => []

def Json.isTrue : Json → Bool
  | .bool true => true
  | _ => false

/-- A node with what its control keys say of it, and with given properties. -/
def Example.withControls (members : List (String × Json)) (properties : List (String × Property)) :
    Example :=
  let tags := ((Keyed.get? "nodeTags" members).map Json.tags).getD []
  { name := ((Keyed.get? "nodeName" members).bind Json.string?).getD (tags.headD "")
    tags
    properties
    isMatch := (Keyed.get? "$match" members).any Json.isTrue
    custom := ((Keyed.get? "$predicate" members).bind Json.string?).toList.map .custom }

mutual

/-- The property that a value describes, if it is not absent. -/
def Json.property? : Json → Option Property
  | .array items => some (.list (Json.itemProperties items))
  | .object members =>
    if Keyed.contains "nodeTags" members then
      some (.node (Example.withControls members (Json.memberProperties members)))
    else none
  | .null => none
  | .bool b => some (.scalar (.bool b))
  | .int n => some (.scalar (.ofInt n))
  | .double x => some (.scalar (.float x))
  | .string s => some (.scalar (.string s))

def Json.itemProperties : List Json → List Property
  | [] => []
  | item :: rest => item.property?.toList ++ Json.itemProperties rest

/-- The properties under the relevant keys, in order. -/
def Json.memberProperties : List (String × Json) → List (String × Property)
  | [] => []
  | (key, value) :: rest =>
    let property? := if isRelevantKey key then value.property? else none
    property?.toList.map (key, ·) ++ Json.memberProperties rest

end

/-- The node that the members of an object describe. -/
def Example.ofMembers (members : List (String × Json)) : Example :=
  .withControls members (Json.memberProperties members)

namespace Json

/-- Null, or an object without tags. -/
def isAbsent : Json → Bool
  | .null => true
  | .object members => !Keyed.contains "nodeTags" members
  | _ => false

theorem property?_eq_none_iff (v : Json) : v.property? = none ↔ v.isAbsent = true := by
  cases v <;> simp [property?, isAbsent]

/-- The items of an array that are not absent are its properties, in order. -/
theorem itemProperties_eq (items : List Json) : itemProperties items = items.filterMap (·.property?) := by
  induction items with
  | nil => rfl
  | cons item rest ih =>
    rw [itemProperties, ih, List.filterMap_cons]
    cases item.property? <;> rfl

theorem memberProperties_eq (members : List (String × Json)) : memberProperties members =
    (members.filter fun m => isRelevantKey m.1).filterMap fun m => m.2.property?.map (m.1, ·) := by
  induction members with
  | nil => rfl
  | cons m rest ih =>
    rw [memberProperties, ih, List.filter_cons]
    cases isRelevantKey m.1
    · rfl
    · rw [if_pos rfl, if_pos rfl, List.filterMap_cons]
      cases m.2.property? <;> rfl

theorem mem_memberProperties_iff {members : List (String × Json)} {p : String × Property} :
    p ∈ memberProperties members ↔
      isRelevantKey p.1 = true ∧ ∃ v, (p.1, v) ∈ members ∧ v.property? = some p.2 := by
  rw [memberProperties_eq, List.mem_filterMap]
  constructor
  · rintro ⟨⟨key, v⟩, hmem, hp⟩
    obtain ⟨hmem, hkey⟩ := List.mem_filter.1 hmem
    obtain ⟨q, hq, rfl⟩ := Option.map_eq_some_iff.1 hp
    exact ⟨hkey, v, hmem, hq⟩
  · rintro ⟨hkey, v, hmem, hv⟩
    exact ⟨(p.1, v), List.mem_filter.2 ⟨hmem, hkey⟩, Option.map_eq_some_iff.2 ⟨p.2, hv, rfl⟩⟩

end Json
end QueryByExample
