/-
Values whose objects repeat no key, at any depth.

Settling the repetitions of a value comes to such a value
(`hasDistinctKeys_lastWins`), so whatever is read from a text as an example
repeats no key; and it leaves such a value as it is (`lastWins_eq_self`).
-/
import QueryByExample.Json.Basic

namespace QueryByExample.Json

mutual

/-- No object in the value has a key twice. -/
def hasDistinctKeys : Json → Bool
  | .array items => allDistinctKeys items
  | .object members => decide (members.map Prod.fst).Nodup && membersDistinctKeys members
  | _ => true

def allDistinctKeys : List Json → Bool
  | [] => true
  | item :: rest => item.hasDistinctKeys && allDistinctKeys rest

def membersDistinctKeys : List (String × Json) → Bool
  | [] => true
  | (_, value) :: rest => value.hasDistinctKeys && membersDistinctKeys rest

end

theorem membersDistinctKeys_iff (members : List (String × Json)) :
    membersDistinctKeys members = true ↔ ∀ m ∈ members, m.2.hasDistinctKeys = true := by
  induction members with
  | nil => simp [membersDistinctKeys]
  | cons m rest ih => rw [membersDistinctKeys, Bool.and_eq_true, ih, List.forall_mem_cons]

theorem allDistinctKeys_iff (items : List Json) :
    allDistinctKeys items = true ↔ ∀ item ∈ items, item.hasDistinctKeys = true := by
  induction items with
  | nil => simp [allDistinctKeys]
  | cons item rest ih => rw [allDistinctKeys, Bool.and_eq_true, ih, List.forall_mem_cons]

theorem hasDistinctKeys_object_iff {members : List (String × Json)} :
    (Json.object members).hasDistinctKeys = true ↔
      (members.map Prod.fst).Nodup ∧ membersDistinctKeys members = true := by
  rw [hasDistinctKeys, Bool.and_eq_true, decide_eq_true_iff]

/-- The order of the members does not matter. -/
theorem hasDistinctKeys_perm {members members' : List (String × Json)} (hperm : members.Perm members') :
    (Json.object members).hasDistinctKeys = true ↔ (Json.object members').hasDistinctKeys = true := by
  rw [hasDistinctKeys_object_iff, hasDistinctKeys_object_iff, membersDistinctKeys_iff, membersDistinctKeys_iff,
    (hperm.map Prod.fst).nodup_iff]
  simp only [hperm.mem_iff]

theorem hasDistinctKeys_insert {key : String} {value : Json} {members : List (String × Json)}
    (hvalue : value.hasDistinctKeys = true) (h : (Json.object members).hasDistinctKeys = true) :
    (Json.object (Keyed.insert key value members)).hasDistinctKeys = true := by
  obtain ⟨hkeys, hmembers⟩ := hasDistinctKeys_object_iff.1 h
  refine hasDistinctKeys_object_iff.2 ⟨Keyed.nodup_insert hkeys key value, ?_⟩
  refine (membersDistinctKeys_iff _).2 fun m hm => ?_
  rcases Keyed.mem_insert hm with rfl | hm
  · exact hvalue
  · exact (membersDistinctKeys_iff _).1 hmembers m hm

mutual

theorem hasDistinctKeys_lastWins : (v : Json) → v.lastWins.hasDistinctKeys = true
  | .array items => allDistinctKeys_lastWins items
  | .object members => hasDistinctKeys_lastWinsMembers [] members rfl
  | .null | .bool _ | .int _ | .double _ | .string _ => rfl

theorem allDistinctKeys_lastWins : (items : List Json) → allDistinctKeys (lastWinsItems items) = true
  | [] => rfl
  | item :: rest => by
    rw [lastWinsItems, allDistinctKeys, hasDistinctKeys_lastWins item, allDistinctKeys_lastWins rest]
    rfl

theorem hasDistinctKeys_lastWinsMembers (seen : List (String × Json)) : (members : List (String × Json)) →
    (Json.object seen).hasDistinctKeys = true →
      (Json.object (lastWinsMembers seen members)).hasDistinctKeys = true
  | [], h => h
  | (key, value) :: rest, h =>
    hasDistinctKeys_lastWinsMembers (Keyed.insert key value.lastWins seen) rest
      (hasDistinctKeys_insert (hasDistinctKeys_lastWins value) h)

end

mutual

theorem lastWins_eq_self : (v : Json) → v.hasDistinctKeys = true → v.lastWins = v
  | .array items, h => by rw [lastWins, lastWinsItems_eq_self items h]
  | .object members, h => by
    obtain ⟨hkeys, hmembers⟩ := hasDistinctKeys_object_iff.1 h
    rw [lastWins, lastWinsMembers_eq_append [] members hkeys hmembers, List.nil_append]
  | .null, _ | .bool _, _ | .int _, _ | .double _, _ | .string _, _ => rfl

theorem lastWinsItems_eq_self : (items : List Json) → allDistinctKeys items = true → lastWinsItems items = items
  | [], _ => rfl
  | item :: rest, h => by
    rw [allDistinctKeys, Bool.and_eq_true] at h
    rw [lastWinsItems, lastWins_eq_self item h.1, lastWinsItems_eq_self rest h.2]

/-- Members with new keys come after the ones that are there. -/
theorem lastWinsMembers_eq_append (seen : List (String × Json)) : (members : List (String × Json)) →
    ((seen ++ members).map Prod.fst).Nodup → membersDistinctKeys members = true →
      lastWinsMembers seen members = seen ++ members
  | [], _, _ => (List.append_nil seen).symm
  | (key, value) :: rest, hkeys, hmembers => by
    rw [membersDistinctKeys, Bool.and_eq_true] at hmembers
    have hnew : key ∉ seen.map Prod.fst := by
      rw [List.map_append, List.nodup_append] at hkeys
      exact fun hmem => hkeys.2.2 key hmem key (by simp) rfl
    rw [List.append_cons] at hkeys ⊢
    rw [lastWinsMembers, lastWins_eq_self value hmembers.1, Keyed.insert_of_not_mem hnew,
      lastWinsMembers_eq_append _ rest hkeys hmembers.2]

end

end QueryByExample.Json
