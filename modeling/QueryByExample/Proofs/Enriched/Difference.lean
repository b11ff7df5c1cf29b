/-
What one list has beyond another, as a difference of multisets.

An element of `after` is left out when an equal one of `before` is still to be
accounted for, so of equal elements the earliest are left out, as many as
`before` has equals of them, and the others keep their order
(`beyond_eq_filter`). Only how many equals of an element `before` has matters
(`beyond_congr`), and so neither its order does nor what taking an element out
does to the order of the rest: the loop that fills the gap with the last
element keeps the same list (`beyondSwapping_eq`).

All of this asks of equality that it is symmetric and transitive, as that of
predicates is, and not that it is reflexive. What mentions NaN is equal to
nothing, and is never left out.
-/
import Mathlib.Data.List.Perm.Basic
import QueryByExample.Example.Basic
import QueryByExample.Proofs.Enriched.Remarked

namespace QueryByExample
variable {α : Type}

/-- Takes out the element at a place and puts the last one there. -/
def swapRemove (xs : List α) (i : Nat) : List α :=
  match xs.getLast? with
  | some last => (xs.set i last).dropLast
  | none => []

/-- The elements of `after` beyond those of `before`, where each is looked for
in `before` and the first equal one there is taken out for it. -/
def beyondSwapping [BEq α] (before : List α) : List α → List α
  | [] => []
  | x :: after =>
    match before.findIdx? (· == x) with
    | some i => beyondSwapping (swapRemove before i) after
    | none => x :: beyondSwapping before after

theorem swapRemove_perm {xs : List α} {i : Nat} (h : i < xs.length) : (swapRemove xs i).Perm (xs.eraseIdx i) := by
  rcases List.eq_nil_or_concat xs with rfl | ⟨init, last, rfl⟩
  · exact absurd h (Nat.not_lt_zero i)
  rw [List.concat_eq_append] at h ⊢
  rw [swapRemove, List.getLast?_concat]
  by_cases hi : i < init.length
  · simp only [List.set_append_left _ _ hi, List.dropLast_concat, List.eraseIdx_append_of_lt_length hi]
    exact (List.set_perm_cons_eraseIdx hi last).trans (List.perm_append_singleton last _).symm
  · obtain rfl : i = init.length := by
      rw [List.length_append, List.length_singleton] at h
      omega
    simp [List.eraseIdx_append_of_length_le]

section Beyond
variable [BEq α]

theorem beyond_sublist (before after : List α) : (beyond before after).Sublist after := by
  induction after generalizing before with
  | nil => exact .slnil
  | cons x after ih =>
    rw [beyond]
    split
    next => exact (ih _).cons x
    next => exact (ih _).cons_cons x

theorem any_beq_iff_countP {xs : List α} {x : α} : xs.any (· == x) = true ↔ 0 < xs.countP (· == x) := by
  rw [List.any_eq_true, List.countP_pos_iff]

variable [PartialEquivBEq α]

/-- Nothing that is equal to an element is in a list without equals of it. -/
theorem countP_eq_zero_of_beq {xs : List α} {x y : α} (hnone : ¬ xs.any (· == x) = true) (h : x == y) :
    xs.countP (· == y) = 0 := by
  refine List.countP_eq_zero.2 fun z hz hzy => hnone (List.any_eq_true.2 ⟨z, hz, ?_⟩)
  exact BEq.trans hzy (BEq.symm h)

theorem countP_beyond (before after : List α) (y : α) :
    (beyond before after).countP (· == y) = after.countP (· == y) - before.countP (· == y) := by
  induction after generalizing before with
  | nil => simp [beyond]
  | cons x after ih =>
    rw [beyond, List.countP_cons]
    by_cases hany : before.any (· == x) = true
    · have herase := countP_eraseP_beq (y := y) hany
      rw [if_pos hany, ih]
      omega
    · rw [if_neg hany, List.countP_cons, ih]
      by_cases hxy : x == y
      · have hzero := countP_eq_zero_of_beq hany hxy
        omega
      · rw [if_neg hxy, Nat.add_zero, Nat.add_zero]

/-- An element is left out as long as `before` has more equals of it than came
before it. -/
theorem beyond_eq_filter (before after : List α) : beyond before after =
    (after.zipIdx.filter fun p => before.countP (· == p.1) ≤ (after.take p.2).countP (· == p.1)).map Prod.fst := by
  induction after generalizing before with
  | nil => rfl
  | cons x after ih =>
    rw [List.zipIdx_cons', List.filter_cons, List.filter_map, beyond]
    by_cases hany : before.any (· == x) = true
    · have hfirst : ¬ before.countP (· == x) ≤ 0 := Nat.not_le.2 (any_beq_iff_countP.1 hany)
      rw [if_pos hany, ih, if_neg (by simpa using hfirst), List.map_map]
      refine congrArg (List.map Prod.fst) (List.filter_congr fun p _ => ?_)
      have herase := countP_eraseP_beq (y := p.1) hany
      simp only [Function.comp_apply, Prod.map, id, List.take_succ_cons, List.countP_cons, decide_eq_decide]
      omega
    · have hfirst : before.countP (· == x) ≤ 0 := Nat.not_lt.1 (mt any_beq_iff_countP.2 hany)
      rw [if_neg hany, ih, if_pos (by simpa using hfirst), List.map_cons, List.map_map]
      refine congrArg (List.cons x ∘ List.map Prod.fst) (List.filter_congr fun p _ => ?_)
      simp only [Function.comp_apply, Prod.map, id, List.take_succ_cons, List.countP_cons, decide_eq_decide]
      by_cases hxp : x == p.1
      · have hzero := countP_eq_zero_of_beq hany hxp
        omega
      · rw [if_neg hxp, Nat.add_zero]

/-- Two lists with as many equals of each element leave the same. -/
theorem beyond_congr {before before' : List α} (h : ∀ y, before.countP (· == y) = before'.countP (· == y))
    (after : List α) : beyond before after = beyond before' after := by
  induction after generalizing before before' with
  | nil => rfl
  | cons x after ih =>
    have hany : before.any (· == x) = before'.any (· == x) :=
      Bool.eq_iff_iff.2 (by rw [any_beq_iff_countP, any_beq_iff_countP, h x])
    rw [beyond, beyond, ← hany]
    split
    next hx =>
      refine ih fun y => ?_
      have herase := countP_eraseP_beq (y := y) hx
      have herase' := countP_eraseP_beq (y := y) (hany ▸ hx)
      have hy := h y
      omega
    next => rw [ih h]

theorem beyond_perm {before before' : List α} (h : before.Perm before') (after : List α) :
    beyond before after = beyond before' after :=
  beyond_congr (fun _ => h.countP_eq _) after

/-- The order in which the loop leaves the rest of `before` does not show. -/
theorem beyondSwapping_eq (before after : List α) : beyondSwapping before after = beyond before after := by
  induction after generalizing before with
  | nil => rfl
  | cons x after ih =>
    rw [beyondSwapping, beyond]
    cases hfound : before.findIdx? (· == x) with
    | none =>
      have hnone : ¬ before.any (· == x) = true := by
        simpa using List.findIdx?_eq_none_iff.1 hfound
      rw [if_neg hnone, ih]
    | some i =>
      have hany : before.any (· == x) = true := by
        rw [← List.findIdx?_isSome, hfound]
        rfl
      have hi : i < before.length := (List.findIdx?_eq_some_iff_getElem.1 hfound).1
      have herase : before.eraseP (· == x) = before.eraseIdx i := by
        rw [List.eraseP_eq_eraseIdx, hfound]
      rw [if_pos hany, herase, ← beyond_perm (swapRemove_perm hi), ← ih]

end Beyond

/-- **What a change adds is a difference of multisets, in order.** Of the
predicates of `after` some are kept, in their order. Of those equal to a given
one there are as many as `after` has more of them than `before`, or none, and
the earliest are left out: a predicate is kept where at least as many equals of
it came before it as `before` has. The order of `before` does not matter, so a
loop that takes out of `before` what it has found, and moves the last predicate
into the gap, keeps the same. For a node and what a change makes of it, that
loop over their constraints gives what the change adds. -/
theorem Predicate.beyond_difference (before after : List Predicate) :
    (beyond before after).Sublist after ∧
      (∀ p, (beyond before after).countP (· == p) = after.countP (· == p) - before.countP (· == p)) ∧
      (beyond before after = (after.zipIdx.filter fun p =>
        before.countP (· == p.1) ≤ (after.take p.2).countP (· == p.1)).map Prod.fst) ∧
      (∀ before', before.Perm before' → beyond before' after = beyond before after) ∧
      beyondSwapping before after = beyond before after ∧
      ∀ (α ι : Type) [ExampleNode α ι] [DecidableEq ι] (e : Enriched α) (change : α → α) (base changed : Branch),
        (ExampleNode.rooted e.base).compile e.limit = .ok base →
        (ExampleNode.rooted (change e.base)).compile e.limit = .ok changed →
        e.added change = .ok (beyondSwapping base.step.constraints changed.step.constraints) := by
  refine ⟨beyond_sublist before after, countP_beyond before after, beyond_eq_filter before after, ?_,
    beyondSwapping_eq before after, ?_⟩
  · intro before' hperm
    exact (beyond_perm hperm after).symm
  · intro α ι _ _ e change base changed hbase hchanged
    rw [Enriched.added_eq hbase hchanged, beyondSwapping_eq]

/-- Both zeros are one number, and the earlier of them is accounted for. -/
theorem Predicate.beyond_difference_zeros :
    let zero (negative : Bool) : Property := .scalar (.float (.zero negative))
    let build := ((Example.ofTag "Build").set "drift" (zero true)).set "branch" (.scalar (.string "main"))
    (Enriched.of build).added (Example.set · "drift" (.list [zero false, zero true])) =
      .ok [.equals "drift" (.float (.zero true))] := by
  intro zero build
  let drift (negative : Bool) : Predicate := .equals "drift" (.float (.zero negative))
  let main : Predicate := .equals "branch" (.string "main")
  obtain ⟨-, -, -, -, hswapping, hadded⟩ :=
    Predicate.beyond_difference [drift true, main] [drift false, drift true, main]
  have hbase : build.compile defaultRecursionLimit = .ok ⟨⟨"Build", [drift true, main], []⟩, false⟩ := rfl
  have hchanged : (build.set "drift" (.list [zero false, zero true])).compile defaultRecursionLimit =
      .ok ⟨⟨"Build", [drift false, drift true, main], []⟩, false⟩ := rfl
  refine (hadded _ _ (.of build) (Example.set · "drift" (.list [zero false, zero true])) _ _ hbase hchanged).trans ?_
  refine congrArg Except.ok (hswapping.trans ?_)
  cbv

end QueryByExample
