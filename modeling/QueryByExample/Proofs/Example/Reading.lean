/-
Reading an example from JSON.

The reader goes through the members of a node one by one and puts what they
say into the example; where no key comes twice that is what the members
describe, in whatever order they come (`Example.withMembers_okWhen`). So it
accepts the well-formed nodes and nothing else, and what it returns is what
they describe (`Example.ofJson_eq_ok_iff`).
-/
import Mathlib.Data.List.Nodup
import QueryByExample.Example.OfJson
import QueryByExample.Proofs.Example.Description
import QueryByExample.Proofs.Json.Keys

namespace QueryByExample

/-- A result that is a given value where the condition holds, and else a failure. -/
def OkWhen {ε α : Type} (condition : Bool) (a : α) : Except ε α → Prop
  | .ok b => condition = true ∧ b = a
  | .error _ => condition = false

namespace OkWhen
variable {ε α β : Type} {condition further : Bool} {a : α} {b : β} {r : Except ε α}

theorem eq_ok_iff (h : OkWhen condition a r) {x : α} : r = .ok x ↔ condition = true ∧ x = a := by
  cases r with
  | ok y =>
    obtain ⟨hc, rfl⟩ := h
    simp [hc, eq_comm]
  | error e =>
    have hc : condition = false := h
    simp [hc]

theorem bind {f : α → Except ε β} (h : OkWhen condition a r) (hf : OkWhen further b (f a)) :
    OkWhen (condition && further) b (r >>= f) := by
  cases r with
  | ok y =>
    obtain ⟨rfl, rfl⟩ := h
    exact hf
  | error e =>
    obtain rfl : condition = false := h
    exact rfl

theorem map (h : OkWhen condition a r) (f : α → β) : OkWhen condition (f a) (r >>= fun x => pure (f x)) := by
  cases r with
  | ok y =>
    obtain ⟨rfl, rfl⟩ := h
    exact ⟨rfl, rfl⟩
  | error e => exact h

end OkWhen

namespace Example

theorem tagsOfItems_okWhen (items : List Json) :
    OkWhen (items.all (·.string?.isSome)) (items.filterMap (·.string?)) (tagsOfItems items) := by
  induction items with
  | nil => exact ⟨rfl, rfl⟩
  | cons item rest ih =>
    cases item with
    | string tag => exact ih.map (tag :: ·)
    | _ => rfl

theorem tagsOfJson_okWhen (v : Json) : OkWhen v.isTags v.tags (tagsOfJson v) := by
  cases v with
  | string tag => exact ⟨rfl, rfl⟩
  | array items => exact tagsOfItems_okWhen items
  | _ => rfl

-- What the reader does with a member, by the kind of its key.
section WithMembers
variable (e : Example) (key : String) (value : Json) (rest : List (String × Json))

theorem withMembers_match : e.withMembers (("$match", value) :: rest) =
    (if value.isTrue then e.matched else e).withMembers rest := by
  cases value with
  | bool b => cases b <;> rfl
  | _ => rfl

theorem withMembers_predicate : e.withMembers (("$predicate", value) :: rest) =
    match value.string? with
    | some text => (e.withCustomPredicate text).withMembers rest
    | none => .error (.predicateNotString value.kind) := by
  cases value <;> rfl

theorem withMembers_relevant (hkey : isRelevantKey key = true) :
    e.withMembers ((key, value) :: rest) =
      Property.ofJson? value >>= fun property? => (property?.elim e (e.set key)).withMembers rest := by
  have hmatch : key ≠ "$match" := fun h => absurd (h ▸ hkey) (by decide)
  have hpredicate : key ≠ "$predicate" := fun h => absurd (h ▸ hkey) (by decide)
  simp only [withMembers, hmatch, hpredicate, hkey, if_true, if_false]
  congr 1
  funext property?
  cases property? <;> rfl

theorem withMembers_other (hmatch : key ≠ "$match") (hpredicate : key ≠ "$predicate")
    (hkey : isRelevantKey key = false) : e.withMembers ((key, value) :: rest) = e.withMembers rest := by
  simp only [withMembers, hmatch, hpredicate, hkey, if_false, Bool.false_eq_true]

end WithMembers

/-- The example with what further members say. -/
def extend (e : Example) (members : List (String × Json)) : Example :=
  { e with
    properties := e.properties ++ Json.memberProperties members
    isMatch := e.isMatch || (Keyed.get? "$match" members).any Json.isTrue
    custom := e.custom ++ ((Keyed.get? "$predicate" members).bind Json.string?).toList.map .custom }

theorem header_extend {tags : Json} {members : List (String × Json)}
    (htags : Keyed.get? "nodeTags" members = some tags) :
    (header tags.tags members).extend members = ofMembers members := by
  simp only [header, extend, ofMembers, withControls, htags, List.nil_append, Bool.false_or,
    Option.map_some, Option.getD_some, Example.mk.injEq, and_true]
  cases Keyed.get? "nodeName" members with
  | none => rfl
  | some name => cases name <;> rfl

theorem extend_nil (e : Example) : e.extend [] = e := by
  cases e
  simp [extend, Json.memberProperties, Keyed.get?]

section Cons
variable (e : Example) (key : String) (value : Json) {rest : List (String × Json)}

theorem extend_cons_match (hnone : Keyed.get? "$match" rest = none) :
    e.extend (("$match", value) :: rest) = (if value.isTrue then e.matched else e).extend rest := by
  have hirrelevant : isRelevantKey "$match" = false := by decide
  cases htrue : value.isTrue <;>
    simp [extend, Json.memberProperties, Keyed.get?, hirrelevant, hnone, htrue, matched]

theorem extend_cons_predicate (hnone : Keyed.get? "$predicate" rest = none) :
    e.extend (("$predicate", value) :: rest) =
      (value.string?.elim e e.withCustomPredicate).extend rest := by
  have hirrelevant : isRelevantKey "$predicate" = false := by decide
  cases htext : value.string? <;>
    simp [extend, Json.memberProperties, Keyed.get?, hirrelevant, hnone, htext, withCustomPredicate]

theorem extend_cons_relevant (hkey : isRelevantKey key = true) (hnew : key ∉ e.properties.map Prod.fst) :
    e.extend ((key, value) :: rest) = (value.property?.elim e (e.set key)).extend rest := by
  have hmatch : key ≠ "$match" := fun h => absurd (h ▸ hkey) (by decide)
  have hpredicate : key ≠ "$predicate" := fun h => absurd (h ▸ hkey) (by decide)
  cases hvalue : value.property? <;>
    simp [extend, Json.memberProperties, Keyed.get?, hkey, hmatch, hpredicate, hvalue, set,
      Keyed.insert_of_not_mem hnew]

theorem extend_cons_other (hmatch : key ≠ "$match") (hpredicate : key ≠ "$predicate")
    (hkey : isRelevantKey key = false) : e.extend ((key, value) :: rest) = e.extend rest := by
  simp [extend, Json.memberProperties, Keyed.get?, hmatch, hpredicate, hkey]

end Cons

end Example

mutual

theorem Property.ofJson?_okWhen : (v : Json) → v.hasDistinctKeys = true →
    OkWhen v.isFine v.property? (Property.ofJson? v)
  | .array items, h => (Property.ofItems_okWhen items h).map fun properties => some (Property.list properties)
  | .object members, h => by
    obtain ⟨hkeys, hmembers⟩ := Json.hasDistinctKeys_object_iff.1 h
    rw [Property.ofJson?, Json.isFine_object, Json.property?, Keyed.contains]
    cases htags : Keyed.get? "nodeTags" members with
    | none => exact ⟨rfl, rfl⟩
    | some tags =>
      rw [Json.isGood, htags]
      refine (Example.tagsOfJson_okWhen tags).bind ?_
      have hread := Example.withMembers_okWhen members (.header tags.tags members) hmembers hkeys
      rw [Example.header_extend htags] at hread
      exact hread.map fun e => some (Property.node e)
  | .null, _ | .bool _, _ | .int _, _ | .double _, _ | .string _, _ => ⟨rfl, rfl⟩

theorem Property.ofItems_okWhen : (items : List Json) → Json.allDistinctKeys items = true →
    OkWhen (Json.allFine items) (Json.itemProperties items) (Property.ofItems items)
  | [], _ => ⟨rfl, rfl⟩
  | item :: rest, h => by
    rw [Json.allDistinctKeys, Bool.and_eq_true] at h
    rw [Property.ofItems, Json.allFine, Json.itemProperties]
    refine (Property.ofJson?_okWhen item h.1).bind ?_
    exact (Property.ofItems_okWhen rest h.2).map (item.property?.toList ++ ·)

theorem Example.withMembers_okWhen : (members : List (String × Json)) → (e : Example) →
    Json.membersDistinctKeys members = true →
    (e.properties.map Prod.fst ++ members.map Prod.fst).Nodup →
    OkWhen (Json.membersFine members) (e.extend members) (e.withMembers members)
  | [], e, _, _ => ⟨rfl, (Example.extend_nil e).symm⟩
  | (key, value) :: rest, e, h, hkeys => by
    rw [Json.membersDistinctKeys, Bool.and_eq_true] at h
    obtain ⟨hnew, hkeys'⟩ := List.nodup_cons.1 (List.nodup_middle.1 hkeys)
    rw [List.mem_append, not_or] at hnew
    have hnone : Keyed.get? key rest = none := Keyed.get?_eq_none_iff.2 hnew.2
    rw [Json.membersFine]
    by_cases hmatch : key = "$match"
    · subst hmatch
      have hirrelevant : isRelevantKey "$match" = false := by decide
      rw [Example.withMembers_match, Example.extend_cons_match e value hnone]
      cases value.isTrue with
      | true => simpa [hirrelevant] using Example.withMembers_okWhen rest e.matched h.2 hkeys'
      | false => simpa [hirrelevant] using Example.withMembers_okWhen rest e h.2 hkeys'
    by_cases hpredicate : key = "$predicate"
    · subst hpredicate
      have hirrelevant : isRelevantKey "$predicate" = false := by decide
      rw [Example.withMembers_predicate, Example.extend_cons_predicate e value hnone]
      cases htext : value.string? with
      | none => simp [OkWhen]
      | some text =>
        simpa [hirrelevant] using Example.withMembers_okWhen rest (e.withCustomPredicate text) h.2 hkeys'
    cases hkey : isRelevantKey key with
    | true =>
      rw [Example.withMembers_relevant e key value rest hkey,
        Example.extend_cons_relevant e key value hkey hnew.1]
      have hset : ((value.property?.elim e (e.set key)).properties.map Prod.fst ++
          rest.map Prod.fst).Nodup := by
        cases value.property? with
        | none => exact hkeys'
        | some p => simpa [Example.set, Keyed.insert_of_not_mem hnew.1] using hkeys
      have hread := (Property.ofJson?_okWhen value h.1).bind
        (f := fun property? => (property?.elim e (e.set key)).withMembers rest)
        (Example.withMembers_okWhen rest (value.property?.elim e (e.set key)) h.2 hset)
      simpa [hpredicate] using hread
    | false =>
      rw [Example.withMembers_other e key value rest hmatch hpredicate hkey,
        Example.extend_cons_other e key value hmatch hpredicate hkey]
      simpa [hpredicate] using Example.withMembers_okWhen rest e h.2 hkeys'

end

namespace Example
variable {members members' : List (String × Json)}

theorem ofJson_okWhen (h : (Json.object members).hasDistinctKeys = true) :
    OkWhen (Json.isGood members) (ofMembers members) (ofJson (.object members)) := by
  obtain ⟨hkeys, hmembers⟩ := Json.hasDistinctKeys_object_iff.1 h
  rw [ofJson, Json.isGood]
  cases htags : Keyed.get? "nodeTags" members with
  | none => rfl
  | some tags =>
    have hread := withMembers_okWhen members (header tags.tags members) hmembers hkeys
    rw [header_extend htags] at hread
    exact (tagsOfJson_okWhen tags).bind hread

/-- The order of the members matters for the properties alone. -/
theorem ofMembers_perm (hperm : members.Perm members') (hkeys : (members.map Prod.fst).Nodup)
    (horder : members'.filter (fun m => isRelevantKey m.1) = members.filter fun m => isRelevantKey m.1) :
    ofMembers members' = ofMembers members := by
  have hget : ∀ key, Keyed.get? key members' = Keyed.get? key members := fun key =>
    (Keyed.get?_perm hperm hkeys key).symm
  simp only [ofMembers, withControls, hget, Json.memberProperties_eq, horder]

theorem isGood_perm (hperm : members.Perm members') (hkeys : (members.map Prod.fst).Nodup) :
    Json.isGood members' = Json.isGood members := by
  have hfine : Json.membersFine members' = Json.membersFine members := by
    rw [Bool.eq_iff_iff, Json.membersFine_iff, Json.membersFine_iff]
    exact forall_congr' fun m => imp_congr_left hperm.mem_iff.symm
  rw [Json.isGood, Json.isGood, hfine, Keyed.get?_perm hperm hkeys]

/-- The members with relevant keys whose values are not absent are the
properties, one by one. -/
theorem memberProperties_forall₂ (members : List (String × Json)) :
    List.Forall₂ (fun m p => p.1 = m.1 ∧ m.2.property? = some p.2)
      (members.filter fun m => isRelevantKey m.1 && !m.2.isAbsent) (Json.memberProperties members) := by
  induction members with
  | nil => exact .nil
  | cons m rest ih =>
    rw [Json.memberProperties, List.filter_cons]
    cases isRelevantKey m.1 with
    | false => exact ih
    | true =>
      cases hvalue : m.2.property? with
      | none =>
        rw [if_neg (by simp [(Json.property?_eq_none_iff m.2).1 hvalue])]
        exact ih
      | some p =>
        have hpresent : m.2.isAbsent = false := by
          rw [← Bool.not_eq_true, ← Json.property?_eq_none_iff, hvalue]
          exact Option.some_ne_none p
        rw [if_pos (by simp [hpresent])]
        exact .cons ⟨rfl, hvalue⟩ ih

/-- **Examples are the well-formed nodes.** Of a value whose objects repeat no
key an example is read exactly when the value is a well-formed node, and it is
the one that the node describes. Its properties are, one by one, the members
with relevant keys whose values are not absent; and wherever the control keys
stand among the others, the same example is read. -/
theorem ofJson_eq_ok_iff {v : Json} (h : v.hasDistinctKeys = true) :
    (∀ e, ofJson v = .ok e ↔
        ∃ members, v = .object members ∧ Json.isGood members = true ∧ e = ofMembers members) ∧
      ∀ members e, v = .object members → ofJson v = .ok e →
        List.Forall₂ (fun m p => p.1 = m.1 ∧ m.2.property? = some p.2)
          (members.filter fun m => isRelevantKey m.1 && !m.2.isAbsent) e.properties ∧
        e.custom.length ≤ 1 ∧
        ∀ members', members.Perm members' →
          members'.filter (fun m => isRelevantKey m.1) = members.filter (fun m => isRelevantKey m.1) →
          ofJson (.object members') = .ok e := by
  refine ⟨fun e => ⟨fun hread => ?_, ?_⟩, ?_⟩
  · cases v with
    | object members =>
      obtain ⟨hgood, rfl⟩ := (ofJson_okWhen h).eq_ok_iff.1 hread
      exact ⟨members, rfl, hgood, rfl⟩
    | _ => cases hread
  · rintro ⟨members, rfl, hgood, rfl⟩
    exact (ofJson_okWhen h).eq_ok_iff.2 ⟨hgood, rfl⟩
  · rintro members e rfl hread
    obtain ⟨hgood, rfl⟩ := (ofJson_okWhen h).eq_ok_iff.1 hread
    have hkeys := (Json.hasDistinctKeys_object_iff.1 h).1
    refine ⟨memberProperties_forall₂ members, ?_, fun members' hperm horder => ?_⟩
    · simp only [ofMembers, withControls, List.length_map]
      exact Option.length_toList_le
    · refine (ofJson_okWhen ((Json.hasDistinctKeys_perm hperm).1 h)).eq_ok_iff.2 ⟨?_, ?_⟩
      · rwa [isGood_perm hperm hkeys]
      · exact (ofMembers_perm hperm hkeys horder).symm

/-- A build with a marked repository among what is no property, and its control
keys behind the others. -/
def buildMembers : List (String × Json) :=
  [("repos", .array [.null, .object [("$match", .bool true), ("nodeTags", .string "Repo")],
      .object [("nodeTags2", .array [.object [("nodeTags", .int 1)]])]]),
    ("_cache", .object [("nodeTags", .null)]), ("owner", .null), ("state", .string "failed"),
    ("$predicate", .string "[@a]"), ("nodeTags", .array [.string "Build", .string "Node"])]

/-- The example that these members describe. -/
def buildExample : Example where
  name := "Build"
  tags := ["Build", "Node"]
  properties := [("repos", .list [.node ⟨"Repo", ["Repo"], [], true, []⟩]),
    ("state", .scalar (.string "failed"))]
  isMatch := false
  custom := [.custom "[@a]"]

theorem ofJson_eq_ok_iff_build :
    (Json.object buildMembers).hasDistinctKeys = true ∧
      ofJson (.object buildMembers) = .ok buildExample ∧
      ofJson (.object (buildMembers.drop 4 ++ buildMembers.take 4)) = .ok buildExample := by
  have hkeys : (Json.object buildMembers).hasDistinctKeys = true := by decide
  obtain ⟨hiff, hread⟩ := ofJson_eq_ok_iff hkeys
  have hbuild := (hiff buildExample).2 ⟨buildMembers, rfl, by decide, rfl⟩
  obtain ⟨-, -, horder⟩ := hread _ _ rfl hbuild
  refine ⟨hkeys, hbuild, horder _ ?_ rfl⟩
  exact .trans (.of_eq (List.take_append_drop 4 buildMembers).symm) List.perm_append_comm

end Example
end QueryByExample
