/-
How compiling fails.

The walk enters no node that it is inside of, and goes on only from tagged
nodes, so it stands at the end of a path of tagged nodes on which no node
comes twice (`SimplePath`), and what it says where it gives up is true of that
path (`compile_error`).

The limit cuts such a path off and has no other effect. With a smaller limit
the walk does the same until it gives up for the limit, and a path on which no
node comes twice has no more nodes than there are, so that a limit of as many
is never reached (`compile_limit`).
-/
import Mathlib.Data.Finset.Dedup
import Mathlib.Data.Fintype.Card
import QueryByExample.Proofs.Graph.Branch
import QueryByExample.Proofs.Graph.Reach

namespace QueryByExample.Graph
variable {ι : Type} {graph : Graph ι} {root id next last : ι} {before : List ι}

theorem PathFrom.concat {path : List ι} (h : graph.PathFrom id path) (hlast : path.getLast? = some last)
    (hedge : graph.Edge last next) : graph.PathFrom id (path ++ [next]) := by
  induction h with
  | here id =>
    obtain rfl : id = last := by simpa using hlast
    exact .along hedge (.here next)
  | @along id second path hfirst hpath ih =>
    cases hpath <;> exact .along hfirst (ih (by simpa using hlast))

/-- A path to a node, from the nodes before it, on which no node comes twice. -/
structure SimplePath (graph : Graph ι) (root : ι) (before : List ι) (last : ι) : Prop where
  path : graph.PathFrom root (before ++ [last])
  nodup : (before ++ [last]).Nodup

theorem SimplePath.start : graph.SimplePath root [] root :=
  ⟨.here root, by simp⟩

theorem SimplePath.extend (h : graph.SimplePath root before last) (hedge : graph.Edge last next)
    (hnew : next ∉ before ++ [last]) : graph.SimplePath root (before ++ [last]) next where
  path := h.path.concat (by simp) hedge
  nodup := List.nodup_append_comm.1 (List.nodup_cons.2 ⟨hnew, h.nodup⟩)

theorem SimplePath.length_le (h : graph.SimplePath root before last) {nodes : Finset ι}
    (hnodes : ∀ id, graph.Reaches root id → id ∈ nodes) : before.length + 1 ≤ nodes.card := by
  classical
  have hsub : (before ++ [last]).toFinset ⊆ nodes := fun id hid =>
    hnodes id (h.path.reaches id (List.mem_toFinset.1 hid))
  have hcard := Finset.card_le_card hsub
  rwa [List.toFinset_card_of_nodup h.nodup, List.length_append, List.length_singleton] at hcard

/-- What an error of a walk from a root says of the graph. -/
def Explains (graph : Graph ι) (limit : Nat) (root : ι) : CompileError → Prop
  | .cycle property owner => ∃ before last, graph.SimplePath root before last ∧ before.length < limit ∧
      (∀ id ∈ before ++ [last], (graph id).tags ≠ []) ∧ (graph last).tags.head? = some owner ∧
      ∃ id ∈ before ++ [last], (graph last).Refers property id
  | .missingTypeTag name => ∃ before last, graph.SimplePath root before last ∧ before.length < limit ∧
      (∀ id ∈ before, (graph id).tags ≠ []) ∧ (graph last).tags = [] ∧ (graph last).name = name
  | .recursionLimitExceeded => ∃ before last, graph.SimplePath root before last ∧ before.length = limit ∧
      ∀ id ∈ before, (graph id).tags ≠ []

/-- The limit is exceeded only on a path with more nodes than are in reach. -/
theorem not_explains_limit {limit : Nat} {nodes : Finset ι}
    (hnodes : ∀ id, graph.Reaches root id → id ∈ nodes) (hcard : nodes.card ≤ limit) :
    ¬ graph.Explains limit root .recursionLimitExceeded := by
  rintro ⟨before, last, hpath, hlength, -⟩
  have := hpath.length_le hnodes
  omega

variable [DecidableEq ι]

/-- An error from below a path is explained from the start of the path. -/
theorem explains_of_branchBelow {e : CompileError} : ∀ limit above (id : ι),
    graph.SimplePath root above.reverse id → (∀ a ∈ above, (graph a).tags ≠ []) →
    graph.branchBelow limit above id = .error e → graph.Explains (above.length + limit) root e
  | 0, above, id, hpath, htagged, h => by
    cases h
    exact ⟨above.reverse, id, hpath, by simp, by simpa using htagged⟩
  | limit + 1, above, id, hpath, htagged, h => by
    -- What the walk is inside of, outermost first, is the path to the node.
    have hinside : ∀ a, a ∈ above.reverse ++ [id] ↔ a ∈ id :: above := fun a => by simp [or_comm]
    have hlength : above.reverse.length < above.length + (limit + 1) := by
      rw [List.length_reverse]
      omega
    rw [branchBelow] at h
    obtain ⟨hnone, rfl⟩ | ⟨tag, tags, property, next, htags, hmem, hvisit⟩ :=
      Node.error_of_branch_eq_error h
    · exact ⟨above.reverse, id, hpath, hlength, by simpa using htagged, hnone, rfl⟩
    · have hrefers := Node.mem_leaves_iff_refers.1 hmem
      have htagged' : ∀ a ∈ id :: above, (graph a).tags ≠ [] :=
        List.forall_mem_cons.2 ⟨by simp [htags], htagged⟩
      split at hvisit
      next hback =>
        cases hvisit
        exact ⟨above.reverse, id, hpath, hlength, fun a ha => htagged' a ((hinside a).1 ha),
          by simp [htags], next, (hinside next).2 hback, hrefers⟩
      next hnew =>
        have hpath' : graph.SimplePath root (id :: above).reverse next := by
          rw [List.reverse_cons]
          exact hpath.extend ⟨property, hrefers⟩ (mt (hinside next).1 hnew)
        have hbelow := explains_of_branchBelow limit (id :: above) next hpath' htagged' hvisit
        rwa [List.length_cons, Nat.add_right_comm, Nat.add_assoc] at hbelow

/-- **Errors are true.** If a walk ends with an error, a path leads from the
root, through no node twice, to where the error says it is: to a tagged node
with a field that leads back to a node of the path, to an untagged node, or to
the first node beyond the limit. -/
theorem compile_error {limit : Nat} {e : CompileError} (h : graph.compile limit root = .error e) :
    graph.Explains limit root e := by
  simpa using explains_of_branchBelow limit [] root .start (by simp) h

/-- A build of two jobs, one of which needs the other and the build itself. -/
def pipeline : Graph (Fin 3)
  | 0 => ⟨"build", ["Build"], [("jobs", .list [.node 1, .list [.node 2]])], false, []⟩
  | 1 => ⟨"lint", ["Job"], [("state", .scalar (.string "failed"))], true, []⟩
  | 2 => ⟨"test", ["Job"], [("_owner", .node 0), ("needs", .list [.node 1, .node 0])], false, []⟩

theorem compile_error_pipeline :
    pipeline.compile defaultRecursionLimit 0 = .error (.cycle "needs" "Job") ∧
      pipeline.Explains defaultRecursionLimit 0 (.cycle "needs" "Job") :=
  ⟨rfl, compile_error rfl⟩

theorem branchBelow_eq_or_limit : ∀ {small large : Nat}, small ≤ large → ∀ above (id : ι),
    graph.branchBelow small above id = graph.branchBelow large above id ∨
      graph.branchBelow small above id = .error .recursionLimitExceeded
  | 0, _, _, _, _ => .inr rfl
  | small + 1, large + 1, hle, above, id => by
    rw [branchBelow, branchBelow]
    refine Node.branch_eq_or_error fun property owner next => ?_
    split
    · exact .inl rfl
    · exact branchBelow_eq_or_limit (Nat.le_of_succ_le_succ hle) (id :: above) next

/-- **The limit only cuts off.** With a smaller limit a graph compiles to the
same branch or fails with the same error, or it fails for the limit; and with a
limit of at least as many nodes as are in reach it never does, cycles or not. -/
theorem compile_limit (graph : Graph ι) (root : ι) :
    (∀ small large, small ≤ large → graph.compile small root = graph.compile large root ∨
      graph.compile small root = .error .recursionLimitExceeded) ∧
    ∀ nodes : Finset ι, (∀ id, graph.Reaches root id → id ∈ nodes) →
      ∀ limit, nodes.card ≤ limit → graph.compile limit root ≠ .error .recursionLimitExceeded := by
  refine ⟨fun small large hle => branchBelow_eq_or_limit hle [] root, ?_⟩
  intro nodes hnodes limit hcard herror
  have hexplains := explains_of_branchBelow limit [] root .start (by simp) herror
  rw [List.length_nil, Nat.zero_add] at hexplains
  exact not_explains_limit hnodes hcard hexplains

theorem compile_limit_pipeline :
    (pipeline.compile 2 0 = pipeline.compile 3 0 ∨
        pipeline.compile 2 0 = .error .recursionLimitExceeded) ∧
      pipeline.compile 3 0 ≠ .error .recursionLimitExceeded := by
  obtain ⟨hcut, hnever⟩ := compile_limit pipeline 0
  exact ⟨hcut 2 3 (by decide), hnever Finset.univ (by simp) 3 (by decide)⟩

end QueryByExample.Graph
