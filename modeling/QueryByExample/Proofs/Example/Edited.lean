/-
What an example compiles to after any history of calls.

A property contributes what its leaves come to (`Property.partsBy`), and a
value to which others are added contributes its own parts and then theirs
(`Property.partsBy_extendedBy`). The branch of an example takes the parts of its
relevant properties in the order of the keys, so the order in a query is that
of the history. That holds whatever nodes of whatever graph the properties refer
to (`Example.gatheredFrom_of_compile`), and so of the nodes that an example
holds (`Example.edited_properties`).
-/
import QueryByExample.Proofs.Example.History
import QueryByExample.Proofs.Example.Nested

namespace QueryByExample

namespace Property
variable (visit : Example → Except CompileError Branch) (key : String)

/-- What a property under a key contributes to a node, where a visit gives the
branches of the nodes in it; one without a branch contributes nothing. -/
def partsBy (p : Property) : List Part :=
  p.value.leaves.filterMap fun leaf => (leaf.part key visit).toOption

/-- What a property under a key contributes to a node, where the nodes in it are
compiled under a limit; one that does not compile contributes nothing. -/
def parts (limit : Nat) (key : String) (p : Property) : List Part :=
  p.partsBy (fun n => n.compile limit) key

theorem leavesOfItems_values (items : List Property) :
    FieldValue.leavesOfItems (Property.values items) = items.flatMap fun item => item.value.leaves := by
  induction items with
  | nil => rfl
  | cons item rest ih => rw [values, FieldValue.leavesOfItems, ih, List.flatMap_cons]

theorem partsBy_list (items : List Property) :
    (list items).partsBy visit key = items.flatMap (partsBy visit key) := by
  rw [partsBy, value, FieldValue.leaves, leavesOfItems_values, List.filterMap_flatMap]
  rfl

theorem partsBy_items (p : Property) : p.items.flatMap (partsBy visit key) = p.partsBy visit key := by
  cases p with
  | list items => exact (partsBy_list visit key items).symm
  | scalar | node => exact List.flatMap_singleton ..

/-- What is added to a value contributes after it. -/
theorem partsBy_extendedBy (p : Property) (more : List Property) :
    (p.extendedBy more).partsBy visit key = p.partsBy visit key ++ more.flatMap (partsBy visit key) := by
  cases more with
  | nil => rw [List.flatMap_nil, List.append_nil, extendedBy]
  | cons first rest => rw [extendedBy, partsBy_list, List.flatMap_append, partsBy_items]

end Property

/-- A live key contributes what its values do, one after the other. -/
theorem Leaves.partsBy {key : String} {history : List Edit} {values : List Property} {p : Property}
    (h : Leaves key history values p) (visit : Example → Except CompileError Branch) :
    p.partsBy visit key = values.flatMap (Property.partsBy visit key) := by
  cases h with
  | set before first rest => rw [Property.partsBy_extendedBy, List.flatMap_cons]
  | added before first rest => rw [Property.partsBy_list]

namespace Example
variable {e : Example} {b : Branch}

/-- A call changes nothing but the properties. -/
theorem apply_eq (edit : Edit) (e : Example) : edit.apply e = { e with properties := (edit.apply e).properties } := by
  cases edit with
  | set | remove => rfl
  | add key value => rw [Edit.apply, add_eq_set]; rfl

theorem edited_eq (e : Example) (history : List Edit) :
    e.edited history = { e with properties := (e.edited history).properties } := by
  induction history using List.reverseRecOn with
  | nil => cases e; rfl
  | append_singleton history edit ih =>
    rw [edited_concat, apply_eq, ih]

theorem fieldNames_nodeAt (e : Example) (place : Place) : (e.nodeAt place).fields.map Prod.fst = e.keys := by
  rw [nodeAt, fieldsAt_eq]
  exact List.ext_getElem (by simp [keys]) fun i _ _ => by simp [keys]

theorem get?_of_mem_relevant (hnodup : e.keys.Nodup) {p : String × Property} (hp : p ∈ e.relevant) :
    e.get? p.1 = some p.2 :=
  (Keyed.get?_eq_some_iff hnodup).2 (List.mem_filter.1 hp).1

/-- A branch is put together from what a history leaves under the relevant keys
of an example, in their order, where a visit gives the branches of the nodes. -/
structure GatheredFrom (e : Example) (history : List Edit) (visit : String → Example → Except CompileError Branch)
    (b : Branch) : Prop where
  values : ∀ p ∈ e.relevant, ∃ values, Leaves p.1 history values p.2 ∧
    p.2.partsBy (visit p.1) p.1 = values.flatMap (Property.partsBy (visit p.1) p.1)
  compiled : ∀ p ∈ e.relevant, ∀ leaf ∈ p.2.value.leaves, ∃ part, leaf.part p.1 (visit p.1) = .ok part
  predicates : b.step.predicates =
    e.relevant.flatMap (fun p => (p.2.partsBy (visit p.1) p.1).filterMap Part.equality?) ++
      e.relevant.flatMap (fun p => (p.2.partsBy (visit p.1) p.1).filterMap Part.condition?)
  matched : b.step.matched = e.relevant.flatMap fun p => (p.2.partsBy (visit p.1) p.1).filterMap Part.match?

/-- The branch of an example, whatever its nodes come to. -/
theorem gatheredFrom_of_branch {tag : String} {history : List Edit}
    {visit : String → String → Example → Except CompileError Branch}
    (h : ((ofTag tag).edited history).node.branch visit = .ok b) :
    ((ofTag tag).edited history).GatheredFrom history (fun property => visit property tag) b := by
  have htags : ((ofTag tag).edited history).node.tags = [tag] := by rw [edited_eq]; rfl
  have hcustom : ((ofTag tag).edited history).node.custom = [] := by rw [edited_eq]; rfl
  obtain ⟨owner, owners, parts, howner, hparts, rfl⟩ := Node.eq_ofParts_of_branch_eq_ok h
  obtain rfl : tag = owner := (List.cons.inj (htags.symm.trans howner)).1
  have hgathered : parts = ((ofTag tag).edited history).relevant.flatMap fun p =>
      p.2.partsBy (visit p.1 tag) p.1 := by
    rw [eq_filterMap_of_mapM_eq_ok hparts, leaves_node, List.filterMap_flatMap]
    simp only [List.filterMap_map]
    rfl
  constructor
  case values =>
    intro p hp
    obtain ⟨values, hleaves⟩ := get?_eq_some_iff_leaves.1 (get?_of_mem_relevant (nodup_keys_ofTag tag history) hp)
    exact ⟨values, hleaves, hleaves.partsBy (visit p.1 tag)⟩
  case compiled =>
    intro p hp leaf hleaf
    refine ok_of_mapM_eq_ok hparts (p.1, leaf) ?_
    rw [leaves_node, List.mem_flatMap]
    exact ⟨p, hp, List.mem_map_of_mem hleaf⟩
  case predicates =>
    rw [Branch.ofParts, hcustom, List.append_nil, hgathered, List.filterMap_flatMap, List.filterMap_flatMap]
  case matched =>
    rw [Branch.ofParts, hgathered]
    exact List.filterMap_flatMap ..

/-- The examples in the properties may stand for nodes of any graph, shared ones
and cycles among them. -/
theorem gatheredFrom_of_compile {ι : Type} [DecidableEq ι] {tag : String} {history : List Edit} (graph : Graph ι)
    (identity : Example → ι) {limit : Nat}
    (h : Rooted.compile ⟨graph, ((ofTag tag).edited history).node.map identity⟩ limit = .ok b) :
    ∃ below, limit = below + 1 ∧
      ((ofTag tag).edited history).GatheredFrom history (fun _ n => graph.compile below (identity n)) b := by
  cases limit with
  | zero => cases h
  | succ below =>
    rw [Rooted.compile, Node.branch_map] at h
    exact ⟨below, rfl, gatheredFrom_of_branch h⟩

/-- **The properties of an example, whatever was called on it.** Its fields are
the live keys, each of them once, in the order of the calls since which they are
live; a call changes nothing under other keys. What stands under a key is the
value last set and what was added to it since, or the list of what was added
where none was set. And in what the example compiles to, each relevant key has
its part of the equalities, of the conditions and of the matches, in the order
of the keys: what its values come to, one after the other. -/
theorem edited_properties (tag : String) (history : List Edit) :
    let e := (ofTag tag).edited history
    (∀ place, (e.nodeAt place).fields.map Prod.fst = e.keys) ∧ e.keys.Nodup ∧
      (∀ key, key ∈ e.keys ↔ ∃! number, LiveSince key history number) ∧
      (e.keys.Pairwise fun key other => ∀ number later,
        LiveSince key history number → LiveSince other history later → number < later) ∧
      (∀ edit : Edit, (edit.apply e).properties.filter (fun p => p.1 ≠ edit.key) =
        e.properties.filter fun p => p.1 ≠ edit.key) ∧
      (∀ key p, e.get? key = some p ↔ ∃ values, Leaves key history values p) ∧
      ∀ limit b, e.compile limit = .ok b → ∃ below, limit = below + 1 ∧
        (∀ p ∈ e.relevant,
          (∃ values, Leaves p.1 history values p.2 ∧
            p.2.parts below p.1 = values.flatMap (Property.parts below p.1)) ∧
          ∀ leaf ∈ p.2.value.leaves, ∃ part, leaf.part p.1 (fun n => n.compile below) = .ok part) ∧
        b.step.predicates =
          e.relevant.flatMap (fun p => (p.2.parts below p.1).filterMap Part.equality?) ++
            e.relevant.flatMap (fun p => (p.2.parts below p.1).filterMap Part.condition?) ∧
        b.step.matched = e.relevant.flatMap fun p => (p.2.parts below p.1).filterMap Part.match? := by
  refine ⟨fieldNames_nodeAt _, nodup_keys_ofTag tag history, fun key => ?_, keys_pairwise tag history,
    fun edit => filter_apply edit _, fun key p => get?_eq_some_iff_leaves, fun limit b hb => ?_⟩
  · rw [mem_keys_iff_isLive]
    exact ⟨IsLive.exists_unique, fun ⟨_, hlive, _⟩ => hlive.isLive⟩
  · cases limit with
    | zero => cases hb
    | succ below =>
      rw [compile_succ_eq] at hb
      have hgathered := gatheredFrom_of_branch hb
      exact ⟨below, rfl, fun p hp => ⟨hgathered.values p hp, hgathered.compiled p hp⟩, hgathered.predicates,
        hgathered.matched⟩

/-- Calls on three keys: a value is set where others were added, one is added
behind the value that is set, and a key comes back after its removal. -/
def releaseEdits : List Edit :=
  [.set "branch" (.scalar (.string "main")), .add "jobs" (.node (ofTag "Lint")), .add "label" (.scalar (.string "old")),
    .set "label" (.scalar (.string "nightly")), .remove "branch", .add "label" (.scalar (.string "release")),
    .add "jobs" (.node (ofTag "Test").matched), .set "branch" (.scalar (.string "dev"))]

theorem edited_properties_release :
    ((ofTag "Build").edited releaseEdits).keys = ["jobs", "label", "branch"] ∧
      ∃ b, ((ofTag "Build").edited releaseEdits).compile 2 = .ok b ∧
        b.step.predicates = [.equals "label" (.string "nightly"), .equals "label" (.string "release"),
          .equals "branch" (.string "dev"), .related ⟨"jobs", ⟨"Lint", [], []⟩⟩] ∧
        b.step.matched = [⟨"jobs", ⟨"Test", [], []⟩⟩] := by
  obtain ⟨-, -, -, -, -, -, hcompile⟩ := edited_properties "Build" releaseEdits
  obtain ⟨below, hlimit, -, hpredicates, hmatched⟩ := hcompile 2 _ rfl
  obtain rfl : 1 = below := Nat.succ.inj hlimit
  exact ⟨rfl, _, rfl, hpredicates, hmatched⟩

end Example

end QueryByExample
