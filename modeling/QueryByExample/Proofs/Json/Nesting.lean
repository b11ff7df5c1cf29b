/-
How deep a value nests.

A reader that allows for a given depth returns no value that nests deeper
(`nesting_le_of_value?`), and settling the repetitions of a value only leaves
parts of it out (`nesting_lastWins_le`).
-/
import QueryByExample.Json.Reader

namespace QueryByExample.Json

mutual

/-- How many arrays and objects are around the innermost part of a value. -/
def nesting : Json → Nat
  | .array items => itemsNesting items + 1
  | .object members => membersNesting members + 1
  | _ => 0

def itemsNesting : List Json → Nat
  | [] => 0
  | item :: rest => max item.nesting (itemsNesting rest)

def membersNesting : List (String × Json) → Nat
  | [] => 0
  | (_, value) :: rest => max value.nesting (membersNesting rest)

end

theorem itemsNesting_le_iff {items : List Json} {n : Nat} :
    itemsNesting items ≤ n ↔ ∀ item ∈ items, item.nesting ≤ n := by
  induction items with
  | nil => simp [itemsNesting]
  | cons item rest ih => rw [itemsNesting, Nat.max_le, ih, List.forall_mem_cons]

theorem membersNesting_le_iff {members : List (String × Json)} {n : Nat} :
    membersNesting members ≤ n ↔ ∀ m ∈ members, m.2.nesting ≤ n := by
  induction members with
  | nil => simp [membersNesting]
  | cons m rest ih => rw [membersNesting, Nat.max_le, ih, List.forall_mem_cons]

theorem membersNesting_insert_le {key : String} {value : Json} {members : List (String × Json)} {n : Nat}
    (hvalue : value.nesting ≤ n) (h : membersNesting members ≤ n) :
    membersNesting (Keyed.insert key value members) ≤ n := by
  refine membersNesting_le_iff.2 fun m hm => ?_
  rcases Keyed.mem_insert hm with rfl | hm
  · exact hvalue
  · exact membersNesting_le_iff.1 h m hm

mutual

theorem nesting_lastWins_le : (v : Json) → v.lastWins.nesting ≤ v.nesting
  | .array items => Nat.succ_le_succ (itemsNesting_lastWins_le items)
  | .object members => Nat.succ_le_succ (membersNesting_lastWins_le [] members (Nat.zero_le _) (Nat.le_refl _))
  | .null | .bool _ | .int _ | .double _ | .string _ => Nat.le_refl _

theorem itemsNesting_lastWins_le : (items : List Json) →
    itemsNesting (lastWinsItems items) ≤ itemsNesting items
  | [] => Nat.le_refl _
  | item :: rest => by
    have hitem := nesting_lastWins_le item
    have hrest := itemsNesting_lastWins_le rest
    rw [lastWinsItems, itemsNesting, itemsNesting]
    omega

theorem membersNesting_lastWins_le (seen : List (String × Json)) {n : Nat} :
    (members : List (String × Json)) → membersNesting seen ≤ n → membersNesting members ≤ n →
      membersNesting (lastWinsMembers seen members) ≤ n
  | [], hseen, _ => hseen
  | (key, value) :: rest, hseen, h => by
    rw [membersNesting, Nat.max_le] at h
    have hvalue : value.lastWins.nesting ≤ n := Nat.le_trans (nesting_lastWins_le value) h.1
    exact membersNesting_lastWins_le _ rest (membersNesting_insert_le hvalue hseen) h.2

end

section Items
variable {α : Type} {item : Reader α} {good : α → Prop} {close : Char} {cs rest : List Char} {xs : List α}

theorem forall_mem_of_moreItems? (hitem : ∀ cs x rest, item cs = some (x, rest) → good x) (rounds : Nat)
    (h : moreItems? item close rounds cs = some (xs, rest)) : ∀ x ∈ xs, good x := by
  induction rounds generalizing cs xs rest with
  | zero => cases h
  | succ rounds ih =>
    rw [moreItems?] at h
    split at h
    · cases h
    split at h
    · cases h
      simp
    split at h
    · simp only [Option.bind_eq_bind, Option.bind_eq_some_iff, Prod.exists] at h
      obtain ⟨x, rest', hx, xs', rest'', hxs, heq⟩ := h
      cases heq
      exact List.forall_mem_cons.2 ⟨hitem _ _ _ hx, ih hxs⟩
    · cases h

/-- The items that are read are as their reader makes them. -/
theorem forall_mem_of_items? (hitem : ∀ cs x rest, item cs = some (x, rest) → good x)
    (h : items? item close cs = some (xs, rest)) : ∀ x ∈ xs, good x := by
  rw [items?] at h
  split at h
  · cases h
  split at h
  · cases h
    simp
  · simp only [Option.bind_eq_bind, Option.bind_eq_some_iff, Prod.exists] at h
    obtain ⟨x, rest', hx, xs', rest'', hxs, heq⟩ := h
    cases heq
    exact List.forall_mem_cons.2 ⟨hitem _ _ _ hx, forall_mem_of_moreItems? hitem _ hxs⟩

end Items

section Values
variable {value : Reader Json} {good : Json → Prop} {cs rest : List Char} {v : Json}

theorem good_of_member? {m : String × Json} (hvalue : ∀ cs v rest, value cs = some (v, rest) → good v)
    (h : member? value cs = some (m, rest)) : good m.2 := by
  rw [member?] at h
  split at h
  · simp only [Option.bind_eq_bind, Option.bind_eq_some_iff, Prod.exists] at h
    obtain ⟨key, rest', -, h⟩ := h
    split at h
    · simp only [Option.bind_eq_some_iff, Prod.exists] at h
      obtain ⟨v, rest'', hv, heq⟩ := h
      cases heq
      exact hvalue _ _ _ hv
    · cases h
  · cases h

theorem nesting_of_double? {negative : Bool} {whole fraction : List Char} {exponent : Int}
    (h : double? negative whole fraction exponent = some v) : v.nesting = 0 := by
  simp only [double?, Option.bind_eq_bind, Option.bind_eq_some_iff] at h
  obtain ⟨x, -, heq⟩ := h
  cases heq
  rfl

theorem nesting_of_wholeNumber? {negative : Bool} {whole : List Char}
    (h : wholeNumber? negative whole = some v) : v.nesting = 0 := by
  rw [wholeNumber?] at h
  split at h <;> split at h
  · cases h
    rfl
  · exact nesting_of_double? h
  · cases h
    rfl
  · exact nesting_of_double? h

theorem nesting_of_unsigned? {negative : Bool} (h : unsigned? negative cs = some (v, rest)) :
    v.nesting = 0 := by
  rw [unsigned?] at h
  simp only at h
  split at h
  · cases h
  · cases h
  · simp only [Option.bind_eq_bind, Option.bind_eq_some_iff, Prod.exists] at h
    obtain ⟨fraction, tail, -, exponent, tail', -, h⟩ := h
    split at h
    · simp only [Option.bind_eq_some_iff] at h
      obtain ⟨v', hv, heq⟩ := h
      cases heq
      exact nesting_of_wholeNumber? hv
    · simp only [Option.bind_eq_some_iff] at h
      obtain ⟨v', hv, heq⟩ := h
      cases heq
      exact nesting_of_double? hv

theorem nesting_of_number? (h : number? cs = some (v, rest)) : v.nesting = 0 := by
  unfold number? at h
  split at h <;> exact nesting_of_unsigned? h

/-- A value that is read nests no deeper than the reader allows. -/
theorem nesting_le_of_value? {depth : Nat} (h : value? depth cs = some (v, rest)) : v.nesting ≤ depth := by
  induction depth using Nat.strongRecOn generalizing cs v rest with
  | _ depth ih =>
    -- What is inside brackets is read with a depth of one less.
    have hinner : ∀ inner < depth, ∀ cs v rest, value? inner cs = some (v, rest) → v.nesting ≤ inner :=
      fun inner hlt cs v rest hv => ih inner hlt hv
    unfold value? at h
    split at h
    case h_1 | h_2 | h_3 =>
      cases h
      exact Nat.zero_le _
    case h_4 =>
      simp only [Option.bind_eq_bind, Option.bind_eq_some_iff, Prod.exists] at h
      obtain ⟨s, rest', -, heq⟩ := h
      cases heq
      exact Nat.zero_le _
    case h_5 inner _ _ =>
      simp only [Option.bind_eq_bind, Option.bind_eq_some_iff, Prod.exists] at h
      obtain ⟨items, rest', hitems, heq⟩ := h
      cases heq
      refine Nat.succ_le_succ (itemsNesting_le_iff.2 ?_)
      exact forall_mem_of_items? (hinner inner (Nat.lt_succ_self inner)) hitems
    case h_6 inner _ _ =>
      simp only [Option.bind_eq_bind, Option.bind_eq_some_iff, Prod.exists] at h
      obtain ⟨members, rest', hmembers, heq⟩ := h
      cases heq
      refine Nat.succ_le_succ (membersNesting_le_iff.2 ?_)
      refine forall_mem_of_items? (fun cs m rest hm => ?_) hmembers
      exact good_of_member? (hinner inner (Nat.lt_succ_self inner)) hm
    case h_7 =>
      rw [nesting_of_number? h]
      exact Nat.zero_le _

end Values

theorem nesting_le_of_read? {text : String} {v : Json} (h : read? text = some v) :
    v.nesting ≤ nestingLimit := by
  simp only [read?, readWithin?, Option.bind_eq_bind, Option.bind_eq_some_iff, Prod.exists] at h
  obtain ⟨v', rest, hv, heq⟩ := h
  split at heq
  · cases heq
    exact nesting_le_of_value? hv
  · cases heq

end QueryByExample.Json
