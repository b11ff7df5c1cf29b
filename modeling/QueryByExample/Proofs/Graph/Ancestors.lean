/-
The set of ancestors is the path.

A walk puts a node into the set without asking whether it is there, and takes
out the last element whatever it is. What keeps the two in step is that no node
is entered that is in the set, and that every call leaves the set as it was,
also where it fails (`Walk.Settles`): the next sibling finds the set as the one
before found it. So where the fields of a node are gone through, the set holds
the path from the root to it, and the limit bounds its size
(`Graph.walk_ancestors`). The walk ends as `Graph.compile` does, which hands on
the path instead.
-/
import QueryByExample.Proofs.Graph.Failure
import QueryByExample.Proofs.Graph.Walk

namespace QueryByExample
variable {ι α β : Type}

/-- From that set on, the walk ends with that result and leaves the set as it
was, and every moment of it is of a given kind. -/
def Walk.Settles (P : Moment ι → Prop) (w : Walk ι α) (s : List ι) (result : Except CompileError α) : Prop :=
  ∃ moments, w s = some ⟨result, s, moments⟩ ∧ ∀ m ∈ moments, P m

namespace Walk.Settles
variable {P : Moment ι → Prop} {w : Walk ι α} {f : α → Walk ι β} {s : List ι} {result : Except CompileError α}

theorem pure (a : α) : Settles P (Pure.pure a) s (.ok a) :=
  ⟨[], rfl, by simp⟩

theorem fail (e : CompileError) : Settles (α := α) P (.fail e) s (.error e) :=
  ⟨[], rfl, by simp⟩

theorem ancestors : Settles P .ancestors s (.ok s) :=
  ⟨[], rfl, by simp⟩

theorem note {m : Moment ι} (h : P m) : Settles P (.note m) s (.ok ()) :=
  ⟨[m], rfl, by simpa using h⟩

theorem bind {a : α} {r : Except CompileError β} (h : Settles P w s (.ok a)) (hf : Settles P (f a) s r) :
    Settles P (w >>= f) s r := by
  obtain ⟨moments, hw, hP⟩ := h
  obtain ⟨moments', hfa, hP'⟩ := hf
  refine ⟨moments ++ moments', ?_, List.forall_mem_append.2 ⟨hP, hP'⟩⟩
  rw [bind_of_ok hw, hfa]
  rfl

theorem bind_error {e : CompileError} (h : Settles P w s (.error e)) : Settles P (w >>= f) s (.error e) := by
  obtain ⟨moments, hw, hP⟩ := h
  exact ⟨moments, bind_of_error hw, hP⟩

theorem map {g : α → β} (h : Settles P w s result) :
    Settles P (do return g (← w)) s (result.map g) := by
  cases result with
  | ok a => exact h.bind (pure (g a))
  | error e => exact h.bind_error

/-- Two walks in turn, the parts of which are put together. -/
theorem append {κ : Type} {w w' : Walk ι (List β)} {xs ys : List κ} {part : κ → Except CompileError β}
    (h : Settles P w s (xs.mapM part)) (h' : Settles P w' s (ys.mapM part)) :
    Settles P (do return (← w) ++ (← w')) s ((xs ++ ys).mapM part) := by
  rw [List.mapM_append]
  cases hxs : xs.mapM part with
  | error e =>
    rw [hxs] at h
    exact h.bind_error
  | ok bs =>
    rw [hxs] at h
    refine h.bind ?_
    exact h'.map

theorem call (h : Settles P w s result) (hP : P (.returned s s)) : Settles P (.call w) s result := by
  obtain ⟨moments, hw, hmoments⟩ := h
  refine ⟨moments ++ [.returned s s], ?_, ?_⟩
  · rw [Walk.call, hw]
    rfl
  · simpa [or_imp, forall_and] using ⟨hmoments, hP⟩

/-- A node that is not in the set comes last in it, and is what is taken out. -/
theorem inside [DecidableEq ι] {id : ι} (h : Settles P w (s ++ [id]) result) (hnew : id ∉ s)
    (hinserted : P (.inserted id s (s ++ [id]))) (hpopped : P (.popped id (s ++ [id]) s)) :
    Settles P (.inside id w) s result := by
  obtain ⟨moments, hw, hmoments⟩ := h
  have hinsert : Walk.insert id s = some ⟨.ok (), s ++ [id], [.inserted id s (s ++ [id])]⟩ := by
    simp only [Walk.insert, if_neg hnew]
  have hattempt : Walk.attempt w (s ++ [id]) = some ⟨.ok result, s ++ [id], moments⟩ := by
    rw [Walk.attempt, hw]
    rfl
  have hpop : Walk.pop id (s ++ [id]) = some ⟨.ok (), s, [.popped id (s ++ [id]) s]⟩ := by
    simp only [Walk.pop, List.dropLast_concat]
  refine ⟨.inserted id s (s ++ [id]) :: (moments ++ [.popped id (s ++ [id]) s]), ?_, ?_⟩
  · rw [Walk.inside, bind_of_ok hinsert, bind_of_ok hattempt, bind_of_ok hpop, ofExcept_eq]
    rfl
  · exact List.forall_mem_cons.2 ⟨hinserted, List.forall_mem_append.2 ⟨hmoments, by simpa using hpopped⟩⟩

end Walk.Settles

section Values
variable [DecidableEq ι] {P : Moment ι → Prop} {s : List ι} {visit : ι → Walk ι Branch}
  {below : ι → Except CompileError Branch} {owner name : String}

/-- A node in a field of that name, in calls for the nodes `s`. -/
def unlessAbove (s : List ι) (below : ι → Except CompileError Branch) (name owner : String) (next : ι) :
    Except CompileError Branch :=
  if next ∈ s then .error (.cycle name owner) else below next

mutual

theorem FieldValue.settles_walk (hP : P (.returned s s)) : (v : FieldValue ι) →
    (∀ next, v.Holds next → next ∉ s → (visit next).Settles P s (below next)) →
    (v.walk visit owner name).Settles P s (v.leaves.mapM (Leaf.part name (unlessAbove s below name owner)))
  | .scalar _, _ => .call (.pure _) hP
  | .node id, hvisit => by
    rw [FieldValue.walk, FieldValue.leaves, List.mapM_cons]
    refine .call (.bind .ancestors ?_) hP
    by_cases hid : id ∈ s
    · rw [if_pos hid, Leaf.part, unlessAbove, if_pos hid]
      exact .fail _
    · rw [if_neg hid, Leaf.part, unlessAbove, if_neg hid]
      have hbranch := (hvisit id (.node id) hid).map (g := fun b => [Part.branch name b])
      cases hbelow : below id with
      | error e => rwa [hbelow] at hbranch
      | ok b => rwa [hbelow] at hbranch
  | .list items, hvisit => by
    rw [FieldValue.walk, FieldValue.leaves]
    exact .call (FieldValue.settles_walkItems hP items fun v hv next hnext => hvisit next (.item hv hnext)) hP
  | .hidden, _ => .call (.pure _) hP

theorem FieldValue.settles_walkItems (hP : P (.returned s s)) : (items : List (FieldValue ι)) →
    (∀ v ∈ items, ∀ next, v.Holds next → next ∉ s → (visit next).Settles P s (below next)) →
    (FieldValue.walkItems visit owner name items).Settles P s
      ((FieldValue.leavesOfItems items).mapM (Leaf.part name (unlessAbove s below name owner)))
  | [], _ => .pure []
  | item :: rest, hvisit => by
    rw [List.forall_mem_cons] at hvisit
    rw [FieldValue.walkItems, FieldValue.leavesOfItems]
    exact .append (FieldValue.settles_walk hP item hvisit.1) (FieldValue.settles_walkItems hP rest hvisit.2)

end

theorem Node.settles_walkFields (hP : P (.returned s s)) (fields : List (String × FieldValue ι))
    (hvisit : ∀ name value, (name, value) ∈ fields → isRelevantKey name = true → ∀ next, value.Holds next →
      next ∉ s → (visit next).Settles P s (below next)) :
    (Node.walkFields visit owner fields).Settles P s
      (((fields.filter fun (name, _) => isRelevantKey name).flatMap fun (name, value) =>
        value.leaves.map fun leaf => (name, leaf)).mapM
          fun leaf => leaf.2.part leaf.1 (unlessAbove s below leaf.1 owner)) := by
  induction fields with
  | nil => exact .pure []
  | cons field rest ih =>
    obtain ⟨name, value⟩ := field
    have hrest := ih fun name value hmem => hvisit name value (List.mem_cons_of_mem _ hmem)
    rw [Node.walkFields, List.filter_cons]
    cases hkey : isRelevantKey name with
    | false => simpa only [hkey, Bool.false_eq_true, if_false] using hrest
    | true =>
      have hvalue : (value.walk visit owner name).Settles P s
          ((value.leaves.map fun leaf => (name, leaf)).mapM
            fun leaf => leaf.2.part leaf.1 (unlessAbove s below leaf.1 owner)) := by
        rw [List.mapM_map]
        exact FieldValue.settles_walk hP value (hvisit name value List.mem_cons_self hkey)
      simpa only [hkey, if_true, List.flatMap_cons] using hvalue.append hrest

end Values

namespace Graph
variable [DecidableEq ι]

/-- What the walk from a root does at a moment is in order: it goes through the
fields of the last node of a path from the root while the set holds that path,
on which no node comes twice; it puts in what is new, and takes out what the
same call put in; and a call leaves the set as it was. -/
def IsOrderly (graph : Graph ι) (root : ι) : Moment ι → Prop
  | .fields before id ancestors => graph.SimplePath root before id ∧ ancestors = before ++ [id]
  | .inserted id before after => id ∉ before ∧ after = before ++ [id]
  | .popped id before after => before = after ++ [id]
  | .returned before after => after = before

/-- And the set is not larger than the limit. -/
def IsSound (graph : Graph ι) (limit : Nat) (root : ι) (m : Moment ι) : Prop :=
  graph.IsOrderly root m ∧ ∀ set ∈ m.sets, set.length ≤ limit

variable {graph : Graph ι} {limit : Nat} {root id : ι} {before : List ι}

/-- The fields of a node, where the walk does well with the nodes that they
refer to. -/
theorem settles_fields (hpath : graph.SimplePath root before id) (hlength : (before ++ [id]).length ≤ limit)
    (visit : ι → Walk ι Branch) (below : ι → Except CompileError Branch) (owner : String)
    (hvisit : ∀ next, graph.Edge id next → next ∉ before ++ [id] →
      (visit next).Settles (graph.IsSound limit root) (before ++ [id]) (below next)) :
    Walk.Settles (graph.IsSound limit root)
      (do
        Walk.note (.fields before id (← Walk.ancestors))
        Node.walkFields visit owner (graph id).fields)
      (before ++ [id])
      ((graph id).leaves.mapM fun leaf => leaf.2.part leaf.1 (unlessAbove (before ++ [id]) below leaf.1 owner)) := by
  have hfields : graph.IsSound limit root (.fields before id (before ++ [id])) :=
    ⟨⟨hpath, rfl⟩, List.forall_mem_singleton.2 hlength⟩
  have hreturned : graph.IsSound limit root (.returned (before ++ [id]) (before ++ [id])) :=
    ⟨rfl, List.forall_mem_cons.2 ⟨hlength, List.forall_mem_singleton.2 hlength⟩⟩
  refine .bind .ancestors (.bind (.note hfields) ?_)
  refine Node.settles_walkFields hreturned (graph id).fields fun name value hmem hkey next hholds hnew => ?_
  exact hvisit next ⟨name, value, hmem, hkey, hholds⟩ hnew

/-- The set holds the nodes that are above, outermost first. -/
theorem branchBelow_succ_reverse (room : Nat) (before : List ι) (id : ι) :
    graph.branchBelow (room + 1) before.reverse id =
      (graph id).branch (unlessAbove (before ++ [id]) (graph.branchBelow room (before ++ [id]).reverse)) := by
  rw [branchBelow]
  congr 1
  funext property owner next
  simp [unlessAbove, or_comm]

/-- The call for a node does as `branchBelow` with what the limit leaves room
for, and all its moments are sound. -/
theorem settles_walkNode : ∀ depth before (id : ι), graph.SimplePath root before id → before.length ≤ limit →
    limit < before.length + depth → (graph.walkNode limit depth before id).Settles (graph.IsSound limit root) before
      (graph.branchBelow (limit - before.length) before.reverse id)
  | 0, before, id, _, hle, hlt => absurd hle (Nat.not_le.2 hlt)
  | depth + 1, before, id, hpath, hle, hlt => by
    have hreturned : graph.IsSound limit root (.returned before before) :=
      ⟨rfl, List.forall_mem_cons.2 ⟨hle, List.forall_mem_singleton.2 hle⟩⟩
    rw [walkNode]
    refine .call (.bind .ancestors ?_) hreturned
    by_cases hlimit : limit ≤ before.length
    · rw [if_pos hlimit, Nat.sub_eq_zero_of_le hlimit, branchBelow]
      exact .fail _
    · have hconcat : (before ++ [id]).length = before.length + 1 := by simp
      have hlength : (before ++ [id]).length ≤ limit := by omega
      have hroom : limit - before.length = limit - (before ++ [id]).length + 1 := by omega
      rw [if_neg hlimit, hroom, branchBelow_succ_reverse]
      cases htags : (graph id).tags with
      | nil =>
        rw [Node.branch_of_untagged htags]
        exact .fail _
      | cons tag tags =>
        rw [Node.branch_of_tagged htags]
        have hfields := settles_fields hpath hlength (graph.walkNode limit depth (before ++ [id])) _ tag
          fun next hedge hnext => by
            have hpath' : graph.SimplePath root (before ++ [id]) next := hpath.extend hedge hnext
            exact settles_walkNode depth (before ++ [id]) next hpath' hlength (by omega)
        have hnew : id ∉ before := (List.nodup_cons.1 (List.nodup_append_comm.1 hpath.nodup)).1
        have hinserted : graph.IsSound limit root (.inserted id before (before ++ [id])) :=
          ⟨⟨hnew, rfl⟩, List.forall_mem_cons.2 ⟨hle, List.forall_mem_singleton.2 hlength⟩⟩
        have hpopped : graph.IsSound limit root (.popped id (before ++ [id]) before) :=
          ⟨rfl, List.forall_mem_cons.2 ⟨hlength, List.forall_mem_singleton.2 hle⟩⟩
        exact (hfields.inside hnew hinserted hpopped).map

/-- **The set of ancestors is the path.** The walk from a root is finished when
its calls nest one deeper than the limit, with the result of compiling the
graph and with an empty set. Whenever it goes through the fields of a node, the
set holds the nodes of a path from the root to that node, in order and none of
them twice. Each node that is put into the set is new, each that is taken out
is the one that the same call put in, every call leaves the set as it was, with
a result or an error, and the set is never larger than the limit. -/
theorem walk_ancestors (graph : Graph ι) (limit : Nat) (root : ι) :
    ∃ moments, graph.walk limit root = some ⟨graph.compile limit root, [], moments⟩ ∧
      (∀ before id ancestors, .fields before id ancestors ∈ moments →
        graph.SimplePath root before id ∧ ancestors = before ++ [id]) ∧
      (∀ id before after, .inserted id before after ∈ moments → id ∉ before ∧ after = before ++ [id]) ∧
      (∀ id before after, .popped id before after ∈ moments → before = after ++ [id]) ∧
      (∀ before after, .returned before after ∈ moments → after = before) ∧
      ∀ m ∈ moments, ∀ set ∈ m.sets, set.length ≤ limit := by
  have hsettles : (graph.walkNode limit (limit + 1) [] root).Settles (graph.IsSound limit root) []
      (graph.compile limit root) := settles_walkNode (limit + 1) [] root .start (Nat.zero_le _) (by simp)
  obtain ⟨moments, hwalk, hsound⟩ := hsettles
  refine ⟨moments, hwalk, ?_, ?_, ?_, ?_, fun m hm => (hsound m hm).2⟩
  · exact fun before id ancestors hm => (hsound _ hm).1
  · exact fun id before after hm => (hsound _ hm).1
  · exact fun id before after hm => (hsound _ hm).1
  · exact fun before after hm => (hsound _ hm).1

/-- A build and its repository, which refers back to it. -/
def mutualReferences : Graph Bool
  | false => ⟨"build", ["Build"], [("repo", .node true)], false, []⟩
  | true => ⟨"repo", ["Repo"], [("builds", .list [.node false])], false, []⟩

/-- The walk ends with a cycle two values deep, and each call on the way back
leaves the set as it was. -/
example : mutualReferences.walk defaultRecursionLimit false = some
    { result := .error (.cycle "builds" "Repo")
      ancestors := []
      moments :=
        [.inserted false [] [false], .fields [] false [false],
          .inserted true [false] [false, true], .fields [false] true [false, true],
          .returned [false, true] [false, true], .returned [false, true] [false, true],
          .popped true [false, true] [false], .returned [false] [false], .returned [false] [false],
          .popped false [false] [], .returned [] []] } := rfl

end Graph
end QueryByExample
