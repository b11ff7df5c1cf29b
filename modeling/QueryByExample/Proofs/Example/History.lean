/-
The properties of an example after any history of calls.

A key is live from the first call that gives it until one removes it, and the
keys stand in the order of these first calls (`keys_pairwise`). What stands
under a live key is what the history leaves there (`Leaves`): the value last
set with all that was added to it since, or what was added where none was set.
All of it is by induction on the history, from what one call more changes.
-/
import Mathlib.Data.List.Induction
import QueryByExample.Example.Basic

namespace QueryByExample

/-- A call on the properties of an example. -/
inductive Edit where
  | set (key : String) (value : Property)
  | add (key : String) (value : Property)
  | remove (key : String)

namespace Edit

def key : Edit → String
  | .set key _ | .add key _ | .remove key => key

/-- The key is there after the call. -/
def Gives (key : String) : Edit → Prop
  | .set k _ | .add k _ => k = key
  | .remove _ => False

/-- After the call nothing of an earlier value is left under the key. -/
def Resets (key : String) : Edit → Prop
  | .set k _ | .remove k => k = key
  | .add .. => False

/-- The value that the call adds under the key. -/
def addedTo? (key : String) : Edit → Option Property
  | .add k value => if k = key then some value else none
  | .set .. | .remove _ => none

def apply (e : Example) : Edit → Example
  | .set key value => e.set key value
  | .add key value => e.add key value
  | .remove key => e.remove key

theorem gives_or_eq_remove (edit : Edit) : edit.Gives edit.key ∨ edit = .remove edit.key := by
  cases edit with
  | set | add => exact .inl rfl
  | remove => exact .inr rfl

theorem Gives.ne_remove {edit : Edit} {key : String} (h : edit.Gives key) (other : String) : edit ≠ .remove other := by
  rintro rfl
  exact h

theorem Gives.iff {edit : Edit} {key other : String} (h : edit.Gives key) : edit.Gives other ↔ key = other := by
  cases edit with
  | set | add => rw [← show _ = key from h]; rfl
  | remove => exact h.elim

end Edit

/-- The example after all calls of a history. -/
def Example.edited (e : Example) (history : List Edit) : Example :=
  history.foldl Edit.apply e

/-! ## What a history says of a key -/

/-- Some call is of a given kind, in view of the calls before it, and none after
it removes the key. -/
def HasKept (key : String) (kind : List Edit → Edit → Prop) (history : List Edit) : Prop :=
  ∃ before edit rest, history = before ++ edit :: rest ∧ kind before edit ∧ .remove key ∉ rest

/-- A call has given the key, and it has not been removed since. -/
def IsLive (key : String) : List Edit → Prop :=
  HasKept key fun _ edit => edit.Gives key

/-- The call with that number has given the key when it was not live, and it has
not been removed since. -/
def LiveSince (key : String) (history : List Edit) (number : Nat) : Prop :=
  HasKept key (fun before edit => before.length = number ∧ edit.Gives key ∧ ¬ IsLive key before) history

/-- The items of a list, and else the one value. -/
def Property.items : Property → List Property
  | .list items => items
  | p => [p]

/-- A value to which values have been added: at the end of its items, if it is a
list, and else in a list behind it. -/
def Property.extendedBy (p : Property) : List Property → Property
  | [] => p
  | first :: rest => .list (p.items ++ first :: rest)

/-- What a history leaves under a key, and the values of which it is made: the
value of the last call that sets the key, and the values added after that; or,
where the key is not set since it was last removed, the values added since. -/
inductive Leaves (key : String) : List Edit → List Property → Property → Prop
  | set (before : List Edit) (first : Property) (rest : List Edit) :
      (∀ edit ∈ rest, ¬ edit.Resets key) →
      Leaves key (before ++ .set key first :: rest) (first :: rest.filterMap (·.addedTo? key))
        (first.extendedBy (rest.filterMap (·.addedTo? key)))
  | added (before : List Edit) (first : Property) (rest : List Edit) :
      ¬ IsLive key before → (∀ edit ∈ rest, ¬ edit.Resets key) →
      Leaves key (before ++ .add key first :: rest) (first :: rest.filterMap (·.addedTo? key))
        (.list (first :: rest.filterMap (·.addedTo? key)))

/-! ## One call more -/

section Concat
variable {key : String} {history : List Edit} {edit : Edit} {number : Nat}

theorem HasKept.concat_iff {kind : List Edit → Edit → Prop} : HasKept key kind (history ++ [edit]) ↔
    kind history edit ∨ HasKept key kind history ∧ edit ≠ .remove key := by
  constructor
  · rintro ⟨before, x, rest, heq, hkind, hrest⟩
    rcases List.eq_nil_or_concat rest with rfl | ⟨rest, y, rfl⟩
    · obtain ⟨rfl, hlast⟩ := List.append_inj' heq rfl
      obtain rfl := List.singleton_inj.1 hlast
      exact .inl hkind
    · rw [List.concat_eq_append] at heq hrest
      rw [← List.cons_append, ← List.append_assoc] at heq
      obtain ⟨rfl, hlast⟩ := List.append_inj' heq rfl
      obtain rfl := List.singleton_inj.1 hlast
      rw [List.mem_append, List.mem_singleton, not_or] at hrest
      exact .inr ⟨⟨before, x, rest, rfl, hkind, hrest.1⟩, Ne.symm hrest.2⟩
  · rintro (hkind | ⟨⟨before, x, rest, rfl, hkind, hrest⟩, hne⟩)
    · exact ⟨history, edit, [], rfl, hkind, by simp⟩
    · exact ⟨before, x, rest ++ [edit], by simp, hkind, by simpa using ⟨hrest, Ne.symm hne⟩⟩

theorem not_isLive_nil : ¬ IsLive key [] := by
  rintro ⟨before, edit, rest, heq, -⟩
  simp at heq

theorem isLive_concat_iff :
    IsLive key (history ++ [edit]) ↔ edit.Gives key ∨ IsLive key history ∧ edit ≠ .remove key :=
  HasKept.concat_iff

theorem liveSince_concat_iff : LiveSince key (history ++ [edit]) number ↔
    (history.length = number ∧ edit.Gives key ∧ ¬ IsLive key history) ∨
      LiveSince key history number ∧ edit ≠ .remove key :=
  HasKept.concat_iff

theorem LiveSince.isLive (h : LiveSince key history number) : IsLive key history := by
  obtain ⟨before, edit, rest, heq, ⟨-, hgives, -⟩, hrest⟩ := h
  exact ⟨before, edit, rest, heq, hgives, hrest⟩

theorem LiveSince.lt_length (h : LiveSince key history number) : number < history.length := by
  obtain ⟨before, edit, rest, rfl, ⟨rfl, -⟩, -⟩ := h
  simp

/-- A live key is live since one call. -/
theorem IsLive.exists_unique (h : IsLive key history) : ∃! number, LiveSince key history number := by
  induction history using List.reverseRecOn with
  | nil => exact absurd h not_isLive_nil
  | append_singleton history edit ih =>
    simp only [liveSince_concat_iff]
    by_cases hlive : IsLive key history
    · obtain ⟨number, hnumber, hunique⟩ := ih hlive
      have hne : edit ≠ .remove key := by
        rcases isLive_concat_iff.1 h with hgives | ⟨-, hne⟩
        · exact hgives.ne_remove key
        · exact hne
      refine ⟨number, .inr ⟨hnumber, hne⟩, ?_⟩
      rintro other (⟨-, -, hnone⟩ | ⟨hother, -⟩)
      · exact absurd hlive hnone
      · exact hunique other hother
    · have hgives : edit.Gives key := (isLive_concat_iff.1 h).resolve_right fun h => hlive h.1
      refine ⟨history.length, .inl ⟨rfl, hgives, hlive⟩, ?_⟩
      rintro other (⟨rfl, -⟩ | ⟨hother, -⟩)
      · rfl
      · exact absurd hother.isLive hlive

end Concat

namespace Property

theorem list_extendedBy (items more : List Property) : (list items).extendedBy more = .list (items ++ more) := by
  cases more with
  | nil => rw [extendedBy, List.append_nil]
  | cons => rfl

theorem extendedBy_append (p : Property) (more more' : List Property) :
    p.extendedBy (more ++ more') = (p.extendedBy more).extendedBy more' := by
  cases more with
  | nil => rfl
  | cons first rest => rw [List.cons_append, extendedBy, extendedBy, list_extendedBy, List.append_assoc, List.cons_append]

end Property

/-! ## Calls -/

namespace Example
variable {e : Example} {key : String} {p : Property} {edit : Edit} {history : List Edit}

/-- Adding is setting to what is there with the value added. -/
theorem add_eq_set (e : Example) (key : String) (value : Property) :
    e.add key value = e.set key ((e.get? key).elim (.list [value]) (·.extendedBy [value])) := by
  rw [add]
  cases e.get? key with
  | none => rfl
  | some p => cases p <;> rfl

theorem get?_set_self (e : Example) (key : String) (value : Property) : (e.set key value).get? key = some value :=
  Keyed.get?_insert_self key value e.properties

/-- Under other keys a call changes nothing. -/
theorem get?_apply_other (h : edit.key ≠ key) : (edit.apply e).get? key = e.get? key := by
  cases edit with
  | set other value => exact Keyed.get?_insert_other h.symm value e.properties
  | add other value =>
    rw [Edit.apply, add_eq_set]
    exact Keyed.get?_insert_other h.symm _ e.properties
  | remove other => exact Keyed.get?_erase_other h.symm e.properties

theorem filter_apply (edit : Edit) (e : Example) :
    (edit.apply e).properties.filter (fun p => p.1 ≠ edit.key) = e.properties.filter fun p => p.1 ≠ edit.key := by
  cases edit with
  | set key value => exact Keyed.filter_insert key value e.properties
  | add key value =>
    rw [Edit.apply, add_eq_set]
    exact Keyed.filter_insert key _ e.properties
  | remove key => exact Keyed.filter_erase key e.properties

/-- A call that does not reset a key adds its value, if it has one for it. -/
theorem get?_apply_of_not_resets (hget : e.get? key = some p) (h : ¬ edit.Resets key) :
    (edit.apply e).get? key = some (p.extendedBy (edit.addedTo? key).toList) := by
  by_cases hkey : edit.key = key
  · cases edit with
    | set other value => exact absurd hkey h
    | add other value =>
      obtain rfl : other = key := hkey
      rw [Edit.apply, add_eq_set, get?_set_self, hget, Edit.addedTo?, if_pos rfl]
      rfl
    | remove other => exact absurd hkey h
  · have hnone : edit.addedTo? key = none := by
      cases edit with
      | add other value => exact if_neg hkey
      | _ => rfl
    rw [get?_apply_other hkey, hget, hnone]
    cases p <;> rfl

theorem get?_edited_of_not_resets (hget : e.get? key = some p) (h : ∀ edit ∈ history, ¬ edit.Resets key) :
    (e.edited history).get? key = some (p.extendedBy (history.filterMap (·.addedTo? key))) := by
  induction history generalizing e p with
  | nil =>
    rw [edited, List.foldl_nil, hget]
    cases p <;> rfl
  | cons edit rest ih =>
    rw [List.forall_mem_cons] at h
    have hrest := ih (get?_apply_of_not_resets hget h.1) h.2
    rw [← Property.extendedBy_append] at hrest
    rw [edited, List.foldl_cons, List.filterMap_cons]
    cases hadded : edit.addedTo? key <;> rw [hadded] at hrest <;> exact hrest

theorem edited_append (e : Example) (history rest : List Edit) :
    e.edited (history ++ rest) = (e.edited history).edited rest :=
  List.foldl_append

theorem edited_concat (e : Example) (history : List Edit) (edit : Edit) :
    e.edited (history ++ [edit]) = edit.apply (e.edited history) :=
  edited_append e history [edit]

/-- The keys of the properties, in order. -/
def keys (e : Example) : List String :=
  e.properties.map Prod.fst

theorem nodup_keys_apply (h : e.keys.Nodup) (edit : Edit) : (edit.apply e).keys.Nodup := by
  cases edit with
  | set key value => exact Keyed.nodup_insert h key value
  | add key value =>
    rw [Edit.apply, add_eq_set]
    exact Keyed.nodup_insert h key _
  | remove key =>
    rw [Edit.apply, remove, keys, Keyed.keys_erase]
    exact h.erase key

theorem nodup_keys_edited (h : e.keys.Nodup) (history : List Edit) : (e.edited history).keys.Nodup := by
  induction history generalizing e with
  | nil => exact h
  | cons edit rest ih => exact ih (nodup_keys_apply h edit)

theorem mem_keys_iff : key ∈ e.keys ↔ (e.get? key).isSome :=
  Keyed.get?_isSome_iff.symm

theorem keys_remove (e : Example) (key : String) : (e.remove key).keys = e.keys.erase key :=
  Keyed.keys_erase key e.properties

theorem keys_set (e : Example) (key : String) (value : Property) :
    (e.set key value).keys = if key ∈ e.keys then e.keys else e.keys ++ [key] := by
  split
  next hmem => exact Keyed.keys_insert_of_mem hmem value
  next hmem =>
    rw [keys, set, Keyed.insert_of_not_mem hmem, List.map_append]
    rfl

/-- A call that gives a key leaves the keys as they are, or puts it last. -/
theorem keys_apply_of_gives (h : edit.Gives key) :
    (edit.apply e).keys = if key ∈ e.keys then e.keys else e.keys ++ [key] := by
  cases edit with
  | set other value =>
    obtain rfl : other = key := h
    exact keys_set e other value
  | add other value =>
    obtain rfl : other = key := h
    rw [Edit.apply, add_eq_set]
    exact keys_set e other _
  | remove other => exact h.elim

theorem mem_keys_apply_iff (hnodup : e.keys.Nodup) :
    key ∈ (edit.apply e).keys ↔ edit.Gives key ∨ key ∈ e.keys ∧ edit ≠ .remove key := by
  rcases edit.gives_or_eq_remove with hgives | hremove
  · rw [keys_apply_of_gives hgives, hgives.iff]
    have hne : edit ≠ .remove key := hgives.ne_remove key
    by_cases hmem : edit.key ∈ e.keys
    · rw [if_pos hmem, and_iff_left hne, or_iff_right_of_imp fun heq => heq ▸ hmem]
    · rw [if_neg hmem, List.mem_append, List.mem_singleton, and_iff_left hne, or_comm, eq_comm]
  · rw [hremove, Edit.apply, keys_remove, hnodup.mem_erase_iff, Edit.Gives, false_or, and_comm]
    simp [eq_comm]

end Example

/-! ## Examples from their histories -/

section History
variable {tag key : String} {history : List Edit} {values : List Property} {p : Property}

theorem nodup_keys_ofTag (tag : String) (history : List Edit) : ((Example.ofTag tag).edited history).keys.Nodup :=
  Example.nodup_keys_edited (e := .ofTag tag) List.nodup_nil history

/-- The keys of the properties are those that are live. -/
theorem mem_keys_iff_isLive (tag : String) : key ∈ ((Example.ofTag tag).edited history).keys ↔ IsLive key history := by
  induction history using List.reverseRecOn with
  | nil => exact ⟨fun h => absurd h List.not_mem_nil, fun h => absurd h not_isLive_nil⟩
  | append_singleton history edit ih =>
    rw [Example.edited_concat, Example.mem_keys_apply_iff (nodup_keys_ofTag tag history), isLive_concat_iff, ih]

/-- Keys stand in the order of the calls since which they are live. -/
theorem keys_pairwise (tag : String) (history : List Edit) :
    ((Example.ofTag tag).edited history).keys.Pairwise fun key other =>
      ∀ number later, LiveSince key history number → LiveSince other history later → number < later := by
  induction history using List.reverseRecOn with
  | nil => exact .nil
  | append_singleton history edit ih =>
    -- What is live stays live since the same call.
    have hsame : ∀ key ∈ ((Example.ofTag tag).edited history).keys, ∀ number,
        LiveSince key (history ++ [edit]) number → LiveSince key history number := fun key hkey number hnumber => by
      rcases liveSince_concat_iff.1 hnumber with ⟨-, -, hnone⟩ | ⟨hnumber, -⟩
      · exact absurd ((mem_keys_iff_isLive tag).1 hkey) hnone
      · exact hnumber
    have hold : ((Example.ofTag tag).edited history).keys.Pairwise fun key other =>
        ∀ number later, LiveSince key (history ++ [edit]) number → LiveSince other (history ++ [edit]) later →
          number < later :=
      ih.imp_of_mem fun hkey hother h number later hnumber hlater =>
        h number later (hsame _ hkey number hnumber) (hsame _ hother later hlater)
    rw [Example.edited_concat]
    rcases edit.gives_or_eq_remove with hgives | hremove
    · rw [Example.keys_apply_of_gives hgives]
      split
      next => exact hold
      next hnew =>
        refine List.pairwise_append.2 ⟨hold, List.pairwise_singleton _ _, fun key hkey other hother => ?_⟩
        obtain rfl := List.mem_singleton.1 hother
        intro number later hnumber hlater
        have hlive : ¬ IsLive edit.key history := mt (mem_keys_iff_isLive tag).2 hnew
        rcases liveSince_concat_iff.1 hlater with ⟨rfl, -⟩ | ⟨hlater, -⟩
        · exact (hsame key hkey number hnumber).lt_length
        · exact absurd hlater.isLive hlive
    · rw [hremove, Edit.apply, Example.keys_remove]
      rw [hremove] at hold
      exact hold.sublist List.erase_sublist

theorem Leaves.get? (h : Leaves key history values p) : ((Example.ofTag tag).edited history).get? key = some p := by
  cases h with
  | set before first rest hrest =>
    rw [← List.singleton_append, ← List.append_assoc, Example.edited_append, Example.edited_concat]
    exact Example.get?_edited_of_not_resets (Example.get?_set_self _ key first) hrest
  | added before first rest hnone hrest =>
    have hget : ((Example.ofTag tag).edited before).get? key = none := by
      rw [← mem_keys_iff_isLive tag, Example.mem_keys_iff, Bool.not_eq_true, Option.isSome_eq_false_iff,
        Option.isNone_iff_eq_none] at hnone
      exact hnone
    have hfirst : ((Edit.add key first).apply ((Example.ofTag tag).edited before)).get? key = some (.list [first]) := by
      rw [Edit.apply, Example.add_eq_set, Example.get?_set_self, hget]
      rfl
    rw [← List.singleton_append, ← List.append_assoc, Example.edited_append, Example.edited_concat,
      Example.get?_edited_of_not_resets hfirst hrest, Property.list_extendedBy]
    rfl

/-- A call that does not reset the key adds its value, if it has one for it. -/
theorem Leaves.concat {edit : Edit} (h : Leaves key history values p) (hedit : ¬ edit.Resets key) :
    Leaves key (history ++ [edit]) (values ++ (edit.addedTo? key).toList)
      (p.extendedBy (edit.addedTo? key).toList) := by
  have hadded : ∀ rest : List Edit, (rest ++ [edit]).filterMap (·.addedTo? key) =
      rest.filterMap (·.addedTo? key) ++ (edit.addedTo? key).toList := fun rest => by
    rw [List.filterMap_append]
    cases h : edit.addedTo? key <;> simp [h]
  have hlater : ∀ rest : List Edit, (∀ later ∈ rest, ¬ later.Resets key) →
      ∀ later ∈ rest ++ [edit], ¬ later.Resets key := fun rest hrest =>
    List.forall_mem_append.2 ⟨hrest, List.forall_mem_singleton.2 hedit⟩
  cases h with
  | set before first rest hrest =>
    have hset := Leaves.set before first (rest ++ [edit]) (hlater rest hrest)
    rw [hadded, Property.extendedBy_append] at hset
    simpa using hset
  | added before first rest hnone hrest =>
    have hfirst := Leaves.added before first (rest ++ [edit]) hnone (hlater rest hrest)
    rw [hadded] at hfirst
    simpa [Property.list_extendedBy] using hfirst

theorem IsLive.exists_leaves (h : IsLive key history) : ∃ values p, Leaves key history values p := by
  induction history using List.reverseRecOn with
  | nil => exact absurd h not_isLive_nil
  | append_singleton history edit ih =>
    by_cases hreset : edit.Resets key
    · cases edit with
      | set other value =>
        obtain rfl : other = key := hreset
        exact ⟨_, _, .set history value [] (by simp)⟩
      | add => exact hreset.elim
      | remove other =>
        obtain rfl : other = key := hreset
        rcases isLive_concat_iff.1 h with hgives | ⟨-, hne⟩
        · exact hgives.elim
        · exact absurd rfl hne
    by_cases hlive : IsLive key history
    · obtain ⟨values, p, hleaves⟩ := ih hlive
      exact ⟨_, _, hleaves.concat hreset⟩
    · have hgives : edit.Gives key := (isLive_concat_iff.1 h).resolve_right fun h => hlive h.1
      cases edit with
      | set other value => exact absurd hgives hreset
      | add other value =>
        obtain rfl : other = key := hgives
        exact ⟨_, _, .added history value [] hlive (by simp)⟩
      | remove => exact hgives.elim

/-- What stands under a key is what the history leaves there. -/
theorem get?_eq_some_iff_leaves :
    ((Example.ofTag tag).edited history).get? key = some p ↔ ∃ values, Leaves key history values p := by
  constructor
  · intro hget
    have hlive : IsLive key history := by
      rw [← mem_keys_iff_isLive tag, Example.mem_keys_iff, hget]
      rfl
    obtain ⟨values, p', hleaves⟩ := hlive.exists_leaves
    obtain rfl : p' = p := Option.some.inj (hleaves.get?.symm.trans hget)
    exact ⟨values, hleaves⟩
  · rintro ⟨values, hleaves⟩
    exact hleaves.get?

end History

end QueryByExample
