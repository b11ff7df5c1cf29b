/-
The nodes stored in an example, and what becomes of them in a compilation.

A node compiles from the nodes that its properties hold, so a compilation needs
a limit of as many nodes as stand in each other (`NestsWithin`), and no more;
with such a limit the tags of the stored nodes alone decide how it ends
(`decidedByTags_compile`). A text nests no deeper than its reader allows,
and every node of an example takes an object of the text, so this holds of
each example that is read (`compile_of_read`).
-/
import QueryByExample.Proofs.Example.Nested
import QueryByExample.Proofs.Example.Reading
import QueryByExample.Proofs.Json.Nesting

namespace QueryByExample

/-- A node is a property, or is held in the items of one. -/
inductive Property.Holds : Property → Example → Prop
  | node (e : Example) : Holds (.node e) e
  | item {items : List Property} {p : Property} {e : Example} :
      p ∈ items → Holds p e → Holds (.list items) e

namespace Example

/-- A property of the example holds the node. -/
def Contains (e n : Example) : Prop :=
  ∃ key p, (key, p) ∈ e.properties ∧ p.Holds n

/-- The node is the example itself or stands somewhere in it. -/
def Stores : Example → Example → Prop := Relation.ReflTransGen Contains

/-- Relevant keys alone, and at most so many nodes in each other. -/
def NestsWithin : Nat → Example → Prop
  | 0, _ => False
  | n + 1, e => (∀ p ∈ e.properties, isRelevantKey p.1 = true) ∧ ∀ m, e.Contains m → NestsWithin n m

end Example

/-- A property refers to the nodes that it holds. -/
theorem Property.holds_value_iff {p : Property} {n : Example} : p.value.Holds n ↔ p.Holds n := by
  constructor
  · intro h
    generalize hv : p.value = v at h
    induction h generalizing p with
    | node =>
      cases p with
      | node => cases hv; exact .node _
      | scalar | list => cases hv
    | item hmem _ ih =>
      cases p with
      | list items =>
        cases hv
        rw [values_eq_map, List.mem_map] at hmem
        obtain ⟨item, hitem, heq⟩ := hmem
        exact .item hitem (ih heq)
      | scalar | node => cases hv
  · intro h
    induction h with
    | node e => exact .node e
    | item hitem _ ih =>
      rw [value, values_eq_map]
      exact .item (List.mem_map_of_mem hitem) ih

namespace Example
variable {e n : Example} {property : String}

theorem contains_of_refers (h : e.node.Refers property n) : e.Contains n := by
  obtain ⟨value, hvalue, -, hn⟩ := h
  obtain ⟨p, hp, heq⟩ := List.mem_map.1 hvalue
  cases heq
  exact ⟨p.1, p.2, hp, Property.holds_value_iff.1 hn⟩

theorem Contains.refers (h : e.Contains n) (hkeys : ∀ p ∈ e.properties, isRelevantKey p.1 = true) :
    ∃ property, e.node.Refers property n := by
  obtain ⟨key, p, hp, hn⟩ := h
  exact ⟨key, p.value, List.mem_map_of_mem hp, hkeys _ hp, Property.holds_value_iff.2 hn⟩

/-- A result that the tags of the stored nodes decide: a branch where each of
them has a tag, and else the error for one that has none. -/
def DecidedByTags (e : Example) : Except CompileError Branch → Prop
  | .ok _ => ∀ n, e.Stores n → n.tags ≠ []
  | .error fault => ∃ n, e.Stores n ∧ n.tags = [] ∧ fault = .missingTypeTag n.name

/-- So it is for a node when it is for the nodes that it contains. -/
theorem decidedByTags_branch {visit} (hkeys : ∀ p ∈ e.properties, isRelevantKey p.1 = true)
    (hvisit : ∀ n property owner, e.Contains n → n.DecidedByTags (visit property owner n)) :
    e.DecidedByTags (e.node.branch visit) := by
  cases hresult : e.node.branch visit with
  | ok b =>
    obtain ⟨tag, tags, htags, hbelow⟩ := Node.ok_of_branch_eq_ok hresult
    intro n hstored
    obtain rfl | ⟨m, hm, hstored⟩ := hstored.cases_head
    · exact htags.trans_ne (List.cons_ne_nil tag tags)
    · obtain ⟨property, hrefers⟩ := hm.refers hkeys
      obtain ⟨b', hb⟩ := hbelow property m (Node.mem_leaves_iff_refers.2 hrefers)
      have hdecided := hvisit m property tag hm
      rw [hb] at hdecided
      exact hdecided n hstored
  | error fault =>
    obtain ⟨hnone, rfl⟩ | ⟨tag, tags, property, m, -, hmem, herror⟩ := Node.error_of_branch_eq_error hresult
    · exact ⟨e, .refl, hnone, rfl⟩
    · have hm := contains_of_refers (Node.mem_leaves_iff_refers.1 hmem)
      have hdecided := hvisit m property tag hm
      rw [herror] at hdecided
      obtain ⟨n, hstored, hnone, heq⟩ := hdecided
      exact ⟨n, .head hm hstored, hnone, heq⟩

theorem decidedByTags_compile : ∀ {limit : Nat} {e : Example}, e.NestsWithin limit → e.DecidedByTags (e.compile limit)
  | 0, _, h => h.elim
  | limit + 1, e, ⟨hkeys, hbelow⟩ => by
    rw [compile_succ_eq]
    exact decidedByTags_branch hkeys fun n _ _ hn => decidedByTags_compile (hbelow n hn)

end Example

mutual

/-- A node in what a value describes takes an object of its own. -/
theorem Json.holds_of_property? {n : Example} : (v : Json) → ∀ {p : Property}, v.property? = some p →
    p.Holds n → ∃ members, n = Example.ofMembers members ∧ (Json.object members).nesting ≤ v.nesting
  | .array items, _, h, hn => by
    cases h
    cases hn with
    | item hp hn =>
      obtain ⟨members, hmembers, hle⟩ := Json.holds_of_itemProperties items hp hn
      exact ⟨members, hmembers, Nat.le_succ_of_le hle⟩
  | .object members, _, h, hn => by
    rw [Json.property?] at h
    split at h
    · cases h
      cases hn
      exact ⟨members, rfl, Nat.le_refl _⟩
    · cases h
  | .null, _, h, _ => nomatch h
  | .bool _, _, h, hn | .int _, _, h, hn | .double _, _, h, hn | .string _, _, h, hn => by
    cases h
    nomatch hn

theorem Json.holds_of_itemProperties {n : Example} : (items : List Json) → ∀ {p : Property},
    p ∈ Json.itemProperties items → p.Holds n →
      ∃ members, n = Example.ofMembers members ∧ (Json.object members).nesting ≤ Json.itemsNesting items
  | [], _, h, _ => nomatch h
  | item :: rest, _, h, hn => by
    rw [Json.itemProperties, List.mem_append, Option.mem_toList] at h
    rw [Json.itemsNesting]
    rcases h with h | h
    · obtain ⟨members, hmembers, hle⟩ := Json.holds_of_property? item h hn
      exact ⟨members, hmembers, Nat.le_trans hle (Nat.le_max_left _ _)⟩
    · obtain ⟨members, hmembers, hle⟩ := Json.holds_of_itemProperties rest h hn
      exact ⟨members, hmembers, Nat.le_trans hle (Nat.le_max_right _ _)⟩

end

namespace Example
variable {e : Example} {limit : Nat}

/-- As deep as the nodes of an example stand in each other, the objects nest. -/
theorem ofMembers_nestsWithin : ∀ {depth : Nat} {members : List (String × Json)},
    (Json.object members).nesting ≤ depth → (ofMembers members).NestsWithin depth
  | 0, _, h => nomatch h
  | depth + 1, members, h => by
    refine ⟨fun p hp => ?_, fun n ⟨key, p, hp, hn⟩ => ?_⟩
    · exact (Json.mem_memberProperties_iff.1 hp).1
    · obtain ⟨-, v, hmember, hproperty⟩ := Json.mem_memberProperties_iff.1 hp
      obtain ⟨members', rfl, hle⟩ := Json.holds_of_property? v hproperty hn
      have hvalue := Json.membersNesting_le_iff.1 (Nat.le_of_succ_le_succ h) _ hmember
      exact ofMembers_nestsWithin (Nat.le_trans hle hvalue)

theorem nestsWithin_of_read {text : String} (h : read text = .ok e) (hlimit : Json.nestingLimit ≤ limit) :
    e.NestsWithin limit := by
  rw [read] at h
  split at h
  · cases h
  next value hvalue =>
    split at h
    next e' hread =>
      cases h
      have hdepth : value.lastWins.nesting ≤ limit :=
        Nat.le_trans (Json.nesting_lastWins_le value) (Nat.le_trans (Json.nesting_le_of_read? hvalue) hlimit)
      have hkeys := Json.hasDistinctKeys_lastWins value
      generalize value.lastWins = v at hread hdepth hkeys
      cases v with
      | object members =>
        obtain ⟨-, rfl⟩ := (ofJson_okWhen hkeys).eq_ok_iff.1 hread
        exact ofMembers_nestsWithin hdepth
      | _ => cases hread
    next => cases h

/-- **Examples from text cannot exhaust the compiler.** With a limit of at
least the depth that texts may have, an example that was read never fails for
a cycle or for the limit. It compiles exactly when every node stored in it has
a tag, and else fails for one that has none. -/
theorem compile_of_read {text : String} (hread : read text = .ok e) (hlimit : Json.nestingLimit ≤ limit) :
    (∀ property owner, e.compile limit ≠ .error (.cycle property owner)) ∧
      e.compile limit ≠ .error .recursionLimitExceeded ∧
      ((∃ b, e.compile limit = .ok b) ↔ ∀ n, e.Stores n → n.tags ≠ []) ∧
      ((∃ n, e.Stores n ∧ n.tags = []) →
        ∃ n, e.Stores n ∧ n.tags = [] ∧ e.compile limit = .error (.missingTypeTag n.name)) := by
  have hdecided := decidedByTags_compile (nestsWithin_of_read hread hlimit)
  cases hresult : e.compile limit with
  | ok b =>
    rw [hresult] at hdecided
    refine ⟨nofun, nofun, ⟨fun _ => hdecided, fun _ => ⟨b, rfl⟩⟩, ?_⟩
    rintro ⟨n, hstored, hnone⟩
    exact absurd hnone (hdecided n hstored)
  | error fault =>
    rw [hresult] at hdecided
    obtain ⟨n, hstored, hnone, rfl⟩ := hdecided
    refine ⟨nofun, nofun, ⟨nofun, fun htagged => absurd hnone (htagged n hstored)⟩, fun _ => ?_⟩
    exact ⟨n, hstored, hnone, rfl⟩

/-- A build with a job that has no tags. -/
def untaggedJob : String :=
  "\x7b\"nodeTags\": \"Build\", \"jobs\": [\x7b\"nodeName\": \"lint\", \"nodeTags\": []\x7d]\x7d"

def untaggedJobExample : Example where
  name := "Build"
  tags := ["Build"]
  properties := [("jobs", .list [.node ⟨"lint", [], [], false, []⟩])]
  isMatch := false
  custom := []

theorem compile_of_read_untaggedJob :
    read untaggedJob = .ok untaggedJobExample ∧ Json.nestingLimit ≤ defaultRecursionLimit ∧
      ∃ n, untaggedJobExample.Stores n ∧ n.tags = [] ∧
        untaggedJobExample.compile defaultRecursionLimit = .error (.missingTypeTag n.name) := by
  have hread : read untaggedJob = .ok untaggedJobExample := by cbv
  have hlimit : Json.nestingLimit ≤ defaultRecursionLimit := by decide
  have hjob : untaggedJobExample.Stores ⟨"lint", [], [], false, []⟩ :=
    .single ⟨"jobs", _, List.mem_cons_self, .item List.mem_cons_self (.node _)⟩
  obtain ⟨-, -, -, hfails⟩ := compile_of_read hread hlimit
  exact ⟨hread, hlimit, hfails ⟨_, hjob, rfl⟩⟩

end Example
end QueryByExample
