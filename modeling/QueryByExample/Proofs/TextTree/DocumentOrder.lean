/-
Positions in document order.

A node comes before its children and all that is below a child before the next
child, which is the lexicographic order of positions. `numbered` puts the
positions below the children of a node together; it keeps the order
(`pairwise_numbered`), so that all positions of a tree stand in document order,
each once (`positions_pairwise`).
-/
import Mathlib.Data.List.Lex
import QueryByExample.Proofs.TextTree.Position

namespace QueryByExample.TextTree

/-- Positions below each of several children, as positions below their parent;
the first child has the given number. -/
def numbered (first : Nat) : List (List (List Nat)) → List (List Nat)
  | [] => []
  | positions :: rest => positions.map (first :: ·) ++ numbered (first + 1) rest

theorem numbered_eq_flatMap (first : Nat) (below : List (List (List Nat))) : numbered first below =
    (below.zipIdx first).flatMap fun (positions, number) => positions.map (number :: ·) := by
  induction below generalizing first with
  | nil => rfl
  | cons positions rest ih => rw [numbered, List.zipIdx_cons, List.flatMap_cons, ih]

theorem mem_numbered {below : List (List (List Nat))} {number : Nat} {path : List Nat} :
    number :: path ∈ numbered 0 below ↔ ∃ positions, below[number]? = some positions ∧ path ∈ positions := by
  simp only [numbered_eq_flatMap, List.mem_flatMap, Prod.exists, List.mem_zipIdx_iff_getElem?, List.mem_map,
    List.cons.injEq]
  constructor
  · rintro ⟨positions, _, hpositions, path, hpath, rfl, rfl⟩
    exact ⟨positions, hpositions, hpath⟩
  · rintro ⟨positions, hpositions, hpath⟩
    exact ⟨positions, number, hpositions, path, hpath, rfl, rfl⟩

theorem not_nil_mem_numbered (first : Nat) (below : List (List (List Nat))) : [] ∉ numbered first below := by
  simp [numbered_eq_flatMap]

theorem pairwise_numbered {below : List (List (List Nat))}
    (h : ∀ positions ∈ below, positions.Pairwise (· < ·)) (first : Nat) :
    (numbered first below).Pairwise (· < ·) := by
  rw [numbered_eq_flatMap, List.pairwise_flatMap]
  constructor
  · rintro ⟨positions, number⟩ hmem
    have hordered := h positions (List.fst_mem_of_mem_zipIdx hmem)
    rw [List.pairwise_map]
    exact hordered.imp fun hlt => List.cons_lt_cons_iff.2 (.inr ⟨rfl, hlt⟩)
  · have hnumbers : ((below.zipIdx first).map Prod.snd).Pairwise (· < ·) := by
      rw [List.zipIdx_map_snd]
      exact List.pairwise_lt_range'
    refine (List.pairwise_map.1 hnumbers).imp ?_
    rintro ⟨_, number⟩ ⟨_, number'⟩ hlt path hpath path' hpath'
    obtain ⟨path, -, rfl⟩ := List.mem_map.1 hpath
    obtain ⟨path', -, rfl⟩ := List.mem_map.1 hpath'
    exact List.cons_lt_cons_iff.2 (.inl hlt)

/-- A node comes before all that is below its children. -/
theorem pairwise_nil_cons_numbered {below : List (List (List Nat))}
    (h : ∀ positions ∈ below, positions.Pairwise (· < ·)) : ([] :: numbered 0 below).Pairwise (· < ·) := by
  refine List.pairwise_cons.2 ⟨fun path hpath => ?_, pairwise_numbered h 0⟩
  cases path with
  | nil => exact absurd hpath (not_nil_mem_numbered 0 below)
  | cons number path => exact List.nil_lt_cons number path

mutual

/-- The positions of all nodes of a tree, in document order. -/
def positions : TextTree → List (List Nat)
  | .terminal .. => [[]]
  | .container _ _ children => [] :: numbered 0 (positionsOfAll children)

def positionsOfAll : List TextTree → List (List (List Nat))
  | [] => []
  | child :: rest => child.positions :: positionsOfAll rest

end

theorem positionsOfAll_eq (ts : List TextTree) : positionsOfAll ts = ts.map positions := by
  induction ts with
  | nil => rfl
  | cons t ts ih => rw [positionsOfAll, ih, List.map_cons]

theorem positions_eq (t : TextTree) : t.positions = [] :: numbered 0 (t.children.map positions) := by
  cases t with
  | terminal => rfl
  | container name tags children => rw [positions, positionsOfAll_eq]; rfl

theorem mem_positions_iff {t : TextTree} {path : List Nat} : path ∈ t.positions ↔ (t.at? path).isSome := by
  induction path generalizing t with
  | nil => rw [positions_eq]; simp [at?]
  | cons number path ih =>
    rw [positions_eq, List.mem_cons, mem_numbered, at?]
    simp only [reduceCtorEq, false_or, List.getElem?_map]
    cases t.children[number]? with
    | none => simp
    | some child => simpa using ih

mutual

theorem positions_pairwise : (t : TextTree) → t.positions.Pairwise (· < ·)
  | .terminal .. => by simp [positions]
  | .container name tags children => by
    rw [positions]
    exact pairwise_nil_cons_numbered (positionsOfAll_pairwise children)

theorem positionsOfAll_pairwise : (ts : List TextTree) →
    ∀ positions ∈ positionsOfAll ts, positions.Pairwise (· < ·)
  | [], _, h => absurd h (by simp [positionsOfAll])
  | t :: ts, positions, h => by
    rcases List.mem_cons.1 h with rfl | h
    · exact positions_pairwise t
    · exact positionsOfAll_pairwise ts positions h

end

end QueryByExample.TextTree
