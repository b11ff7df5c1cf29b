/-
Values under keys, in the order in which the keys came. Inserting under a key
that is there replaces its value and keeps its place, so keys never repeat.
-/
namespace QueryByExample

abbrev Keyed (α : Type) := List (String × α)

namespace Keyed
variable {α : Type}

def get? (key : String) : Keyed α → Option α
  | [] => none
  | (k, v) :: rest => if k = key then some v else get? key rest

def contains (key : String) (entries : Keyed α) : Bool :=
  (get? key entries).isSome

def insert (key : String) (value : α) : Keyed α → Keyed α
  | [] => [(key, value)]
  | (k, v) :: rest => if k = key then (k, value) :: rest else (k, v) :: insert key value rest

def erase (key : String) : Keyed α → Keyed α
  | [] => []
  | (k, v) :: rest => if k = key then rest else (k, v) :: erase key rest

theorem get?_insert_self (key : String) (value : α) (entries : Keyed α) :
    get? key (insert key value entries) = some value := by
  induction entries with
  | nil => simp [insert, get?]
  | cons e rest ih => by_cases h : e.1 = key <;> simp [insert, get?, h, ih]

theorem get?_insert_other {key other : String} (h : other ≠ key) (value : α) (entries : Keyed α) :
    get? other (insert key value entries) = get? other entries := by
  induction entries with
  | nil => simp [insert, get?, h.symm]
  | cons e rest ih =>
    by_cases he : e.1 = key
    · simp [insert, get?, he, h.symm]
    · simp [insert, get?, he, ih]

theorem get?_erase_other {key other : String} (h : other ≠ key) (entries : Keyed α) :
    get? other (erase key entries) = get? other entries := by
  induction entries with
  | nil => rfl
  | cons e rest ih =>
    by_cases he : e.1 = key
    · simp [erase, get?, he, h.symm]
    · simp [erase, get?, he, ih]

theorem get?_append_cons_other {key other : String} (h : other ≠ key) (value : α) (before after : Keyed α) :
    get? other (before ++ (key, value) :: after) = get? other (before ++ after) := by
  induction before with
  | nil => rw [List.nil_append, List.nil_append, get?, if_neg h.symm]
  | cons e rest ih => rw [List.cons_append, List.cons_append, get?, get?, ih]

theorem mem_insert {key : String} {value : α} {entries : Keyed α} {e : String × α}
    (h : e ∈ insert key value entries) : e = (key, value) ∨ e ∈ entries := by
  induction entries with
  | nil => exact .inl (List.mem_singleton.1 h)
  | cons first rest ih =>
    rw [insert] at h
    split at h
    next heq =>
      rcases List.mem_cons.1 h with rfl | h
      · exact .inl (by rw [heq])
      · exact .inr (List.mem_cons_of_mem _ h)
    next =>
      rcases List.mem_cons.1 h with rfl | h
      · exact .inr List.mem_cons_self
      · exact (ih h).imp_right (List.mem_cons_of_mem _)

/-- A new key comes last. -/
theorem insert_of_not_mem {key : String} {entries : Keyed α} (h : key ∉ entries.map Prod.fst) (value : α) :
    insert key value entries = entries ++ [(key, value)] := by
  induction entries with
  | nil => rfl
  | cons e rest ih =>
    rw [List.map_cons, List.mem_cons, not_or] at h
    rw [insert, if_neg (Ne.symm h.1), ih h.2, List.cons_append]

theorem keys_insert_of_mem {key : String} {entries : Keyed α} (h : key ∈ entries.map Prod.fst) (value : α) :
    (insert key value entries).map Prod.fst = entries.map Prod.fst := by
  induction entries with
  | nil => cases h
  | cons e rest ih =>
    rw [insert]
    split
    next => rfl
    next hne =>
      rcases List.mem_cons.1 h with heq | h
      · exact absurd heq.symm hne
      · rw [List.map_cons, List.map_cons, ih h]

/-- Inserting repeats no key. -/
theorem nodup_insert {entries : Keyed α} (h : (entries.map Prod.fst).Nodup) (key : String) (value : α) :
    ((insert key value entries).map Prod.fst).Nodup := by
  by_cases hkey : key ∈ entries.map Prod.fst
  · rwa [keys_insert_of_mem hkey]
  · rw [insert_of_not_mem hkey, List.map_append, List.nodup_append]
    refine ⟨h, by simp, fun a ha b hb hab => ?_⟩
    obtain rfl : b = key := List.mem_singleton.1 hb
    exact hkey (hab ▸ ha)

theorem mem_of_get? {key : String} {value : α} {entries : Keyed α} (h : get? key entries = some value) :
    (key, value) ∈ entries := by
  induction entries with
  | nil => cases h
  | cons e rest ih =>
    rw [get?] at h
    split at h
    next heq =>
      cases h
      rw [← heq]
      exact List.mem_cons_self
    next => exact List.mem_cons_of_mem _ (ih h)

/-- Where no key comes twice, a key has the value with which it stands there. -/
theorem get?_eq_some_iff {key : String} {value : α} {entries : Keyed α} (h : (entries.map Prod.fst).Nodup) :
    get? key entries = some value ↔ (key, value) ∈ entries := by
  induction entries with
  | nil => simp [get?]
  | cons e rest ih =>
    obtain ⟨k, v⟩ := e
    obtain ⟨hk, hrest⟩ := List.nodup_cons.1 h
    rw [get?, List.mem_cons]
    split
    next heq =>
      have hnot : (key, value) ∉ rest := fun hmem => hk (List.mem_map.2 ⟨_, hmem, heq.symm⟩)
      simp [heq, hnot, eq_comm]
    next hne =>
      have hnot : (key, value) ≠ (k, v) := fun heq => hne (Prod.mk.inj heq).1.symm
      rw [ih hrest, or_iff_right hnot]

theorem get?_eq_none_iff {key : String} {entries : Keyed α} :
    get? key entries = none ↔ key ∉ entries.map Prod.fst := by
  induction entries with
  | nil => simp [get?]
  | cons e rest ih =>
    rw [get?, List.map_cons, List.mem_cons, not_or]
    split
    next heq => simp [heq]
    next hne => rw [ih, and_iff_right (Ne.symm hne)]

/-- Where no key comes twice, the order of the keys does not matter. -/
theorem get?_perm {entries entries' : Keyed α} (hperm : entries.Perm entries')
    (h : (entries.map Prod.fst).Nodup) (key : String) : get? key entries = get? key entries' := by
  have h' : (entries'.map Prod.fst).Nodup := (hperm.map Prod.fst).nodup_iff.1 h
  refine Option.ext fun value => ?_
  rw [get?_eq_some_iff h, get?_eq_some_iff h', hperm.mem_iff]

theorem get?_isSome_iff {key : String} {entries : Keyed α} :
    (get? key entries).isSome ↔ key ∈ entries.map Prod.fst := by
  rw [Option.isSome_iff_ne_none, ne_eq, get?_eq_none_iff, Decidable.not_not]

theorem keys_erase (key : String) (entries : Keyed α) :
    (erase key entries).map Prod.fst = (entries.map Prod.fst).erase key := by
  induction entries with
  | nil => rfl
  | cons e rest ih =>
    rw [erase, List.map_cons, List.erase_cons]
    split
    next heq => simp [heq]
    next hne => simp [hne, ih]

theorem filter_insert (key : String) (value : α) (entries : Keyed α) :
    (insert key value entries).filter (fun e => e.1 ≠ key) = entries.filter fun e => e.1 ≠ key := by
  induction entries with
  | nil => simp [insert]
  | cons e rest ih =>
    rw [insert]
    split
    next heq => simp [heq]
    next => rw [List.filter_cons, List.filter_cons, ih]

theorem filter_erase (key : String) (entries : Keyed α) :
    (erase key entries).filter (fun e => e.1 ≠ key) = entries.filter fun e => e.1 ≠ key := by
  induction entries with
  | nil => rfl
  | cons e rest ih =>
    rw [erase]
    split
    next heq => simp [heq]
    next => rw [List.filter_cons, List.filter_cons, ih]

end Keyed
end QueryByExample
