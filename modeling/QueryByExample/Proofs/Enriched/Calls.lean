/-
Calls on an enriched node do not interact.

A call looks at the node underneath and at the limit, never at what other
calls have put on top, so wherever it stands among other calls it does what
it would do alone (`Call.run_eq`): it fails with the same error, or puts the
same on top. A list of calls therefore comes to what its calls come to one by
one, put together in order (`runAll_eq`), and compiles to the branch of the
node underneath with all of their predicates behind the node's own
(`calls_independent`).
-/
import Mathlib.Data.List.Defs
import QueryByExample.Example.Basic
import QueryByExample.Proofs.Enriched.Constraints

namespace QueryByExample.Enriched
variable {α ι : Type}

/-- A node with nothing on top, under a compiler with that limit. -/
def fresh (base : α) (limit : Nat) : Enriched α :=
  { Enriched.of base with limit }

/-- What is on top of another node as well, behind what is on top already. -/
def plus (e other : Enriched α) : Enriched α :=
  { e with predicates := e.predicates ++ other.predicates, isMatch := e.isMatch || other.isMatch }

/-- All that is on top of some nodes, in order, on top of one. -/
def gather (base : α) (limit : Nat) (parts : List (Enriched α)) : Enriched α :=
  ⟨base, parts.flatMap (·.predicates), parts.any (·.isMatch), limit⟩

section Plus
variable (e part : Enriched α) (base : α) (limit : Nat)

theorem plus_fresh : e.plus (fresh base limit) = e := by
  simp only [plus, fresh, Enriched.of, List.append_nil, Bool.or_false]

theorem fresh_plus (parts : List (Enriched α)) :
    (fresh base limit).plus (gather base limit parts) = gather base limit parts := by
  simp only [plus, fresh, Enriched.of, gather, List.nil_append, Bool.false_or]

theorem plus_addPredicate (p : Predicate) :
    e.plus ((fresh base limit).addPredicate p) = e.addPredicate p := by
  simp only [plus, fresh, Enriched.of, addPredicate, List.nil_append, Bool.or_false]

theorem plus_markMatch : e.plus (fresh base limit).markMatch = e.markMatch := by
  simp only [plus, fresh, Enriched.of, markMatch, List.append_nil, Bool.or_true]

theorem plus_gather_cons (parts : List (Enriched α)) :
    e.plus (gather base limit (part :: parts)) = (e.plus part).plus (gather base limit parts) := by
  simp only [plus, gather, List.flatMap_cons, List.any_cons, List.append_assoc, Bool.or_assoc]

end Plus

inductive Call (α : Type) where
  | addPredicate (p : Predicate)
  | addCustomPredicate (text : String)
  | markMatch
  | not (change : α → α)
  | or (left right : α → α)
  | optional (change : α → α)

variable [ExampleNode α ι] [DecidableEq ι]

def Call.run (e : Enriched α) : Call α → Except CombinatorError (Enriched α)
  | .addPredicate p => .ok (e.addPredicate p)
  | .addCustomPredicate text => .ok (e.addCustomPredicate text)
  | .markMatch => .ok e.markMatch
  | .not change => e.not change
  | .or left right => e.or left right
  | .optional change => e.optional change

/-- One call after the other, up to the first that fails. -/
def runAll (e : Enriched α) (calls : List (Call α)) : Except CombinatorError (Enriched α) :=
  calls.foldlM Call.run e

/-- What comes of a history of calls, in which a call that fails leaves the
node as it was. -/
def after (e : Enriched α) (calls : List (Call α)) : Enriched α :=
  calls.foldl (fun e call => (call.run e).toOption.getD e) e

section Combinators
variable (e : Enriched α) (change left right : α → α)

/-- What a change adds does not depend on what is on top of the node. -/
theorem added_fresh : (fresh e.base e.limit).added change = e.added change := rfl

theorem not_eq_map : e.not change = ((fresh e.base e.limit).not change).map e.plus := by
  cases h : e.added change with
  | error error => rw [not_of_error h, not_of_error ((added_fresh e change).trans h)]; rfl
  | ok operands =>
    rw [not_eq h, not_eq ((added_fresh e change).trans h)]
    cases Predicate.all? operands with
    | none => rfl
    | some operand => exact congrArg Except.ok (plus_addPredicate ..).symm

theorem optional_eq_map : e.optional change = ((fresh e.base e.limit).optional change).map e.plus := by
  cases h : e.added change with
  | error error => rw [optional_of_error h, optional_of_error ((added_fresh e change).trans h)]; rfl
  | ok operands =>
    rw [optional_eq h, optional_eq ((added_fresh e change).trans h)]
    cases Predicate.all? operands with
    | none => exact congrArg Except.ok (plus_fresh ..).symm
    | some operand => exact congrArg Except.ok (plus_addPredicate ..).symm

theorem or_eq_map : e.or left right = ((fresh e.base e.limit).or left right).map e.plus := by
  cases hleft : e.added left with
  | error error => rw [or_of_left_error hleft, or_of_left_error ((added_fresh e left).trans hleft)]; rfl
  | ok lefts =>
    have hleft' := (added_fresh e left).trans hleft
    cases hright : e.added right with
    | error error =>
      rw [or_of_right_error hleft hright, or_of_right_error hleft' ((added_fresh e right).trans hright)]
      rfl
    | ok rights =>
      rw [or_eq hleft hright, or_eq hleft' ((added_fresh e right).trans hright)]
      cases Predicate.all? lefts with
      | none => exact congrArg Except.ok (plus_fresh ..).symm
      | some p =>
        cases Predicate.all? rights with
        | none => exact congrArg Except.ok (plus_fresh ..).symm
        | some q => exact congrArg Except.ok (plus_addPredicate ..).symm

end Combinators

/-- A call does the same whatever is on top of the node already. -/
theorem Call.run_eq (e : Enriched α) (call : Call α) :
    call.run e = (call.run (fresh e.base e.limit)).map e.plus := by
  cases call with
  | addPredicate p => exact congrArg Except.ok (plus_addPredicate ..).symm
  | addCustomPredicate text => exact congrArg Except.ok (plus_addPredicate ..).symm
  | markMatch => exact congrArg Except.ok (plus_markMatch ..).symm
  | not change => exact not_eq_map e change
  | or left right => exact or_eq_map e left right
  | optional change => exact optional_eq_map e change

/-- A call that succeeds sets the mark, or it is no call to set it and does
nothing or appends a predicate. -/
theorem Call.run_cases {e e' : Enriched α} {call : Call α} (h : call.run e = .ok e') :
    (call = .markMatch ∧ e' = e.markMatch) ∨
      (call ≠ .markMatch ∧ (e' = e ∨ ∃ p, e' = e.addPredicate p)) := by
  cases call with
  | addPredicate p => exact .inr ⟨nofun, .inr ⟨p, (Except.ok.inj h).symm⟩⟩
  | addCustomPredicate text => exact .inr ⟨nofun, .inr ⟨.custom text, (Except.ok.inj h).symm⟩⟩
  | markMatch => exact .inl ⟨rfl, (Except.ok.inj h).symm⟩
  | not change =>
    refine .inr ⟨nofun, ?_⟩
    rw [run] at h
    cases hadded : e.added change with
    | error error => rw [not_of_error hadded] at h; cases h
    | ok operands =>
      rw [not_eq hadded] at h
      split at h
      · exact .inr ⟨_, (Except.ok.inj h).symm⟩
      · cases h
  | or left right =>
    refine .inr ⟨nofun, ?_⟩
    rw [run] at h
    cases hleft : e.added left with
    | error error => rw [or_of_left_error hleft] at h; cases h
    | ok lefts =>
      cases hright : e.added right with
      | error error => rw [or_of_right_error hleft hright] at h; cases h
      | ok rights =>
        rw [or_eq hleft hright] at h
        split at h
        · exact .inr ⟨_, (Except.ok.inj h).symm⟩
        · exact .inl (Except.ok.inj h).symm
  | optional change =>
    refine .inr ⟨nofun, ?_⟩
    rw [run] at h
    cases hadded : e.added change with
    | error error => rw [optional_of_error hadded] at h; cases h
    | ok operands =>
      rw [optional_eq hadded] at h
      split at h
      · exact .inr ⟨_, (Except.ok.inj h).symm⟩
      · exact .inl (Except.ok.inj h).symm

section Step
variable {e e' : Enriched α} {call : Call α}

theorem Call.run_base (h : call.run e = .ok e') : e'.base = e.base ∧ e'.limit = e.limit := by
  obtain ⟨-, rfl⟩ | ⟨-, rfl | ⟨p, rfl⟩⟩ := Call.run_cases h <;> exact ⟨rfl, rfl⟩

theorem Call.run_length_le (h : call.run e = .ok e') :
    e'.predicates.length ≤ e.predicates.length + 1 := by
  obtain ⟨-, rfl⟩ | ⟨-, rfl | ⟨p, rfl⟩⟩ := Call.run_cases h
  · exact Nat.le_succ _
  · exact Nat.le_succ _
  · simp [Enriched.addPredicate]

theorem Call.run_isMatch (h : call.run e = .ok e') :
    e'.isMatch = true ↔ e.isMatch = true ∨ Call.markMatch = call := by
  obtain ⟨rfl, rfl⟩ | ⟨hcall, rfl | ⟨p, rfl⟩⟩ := Call.run_cases h
  · exact ⟨fun _ => .inr rfl, fun _ => rfl⟩
  · exact (or_iff_left hcall.symm).symm
  · exact (or_iff_left hcall.symm).symm

end Step

theorem runAll_cons {e : Enriched α} {call : Call α} {rest : List (Call α)} :
    e.runAll (call :: rest) = (call.run e).bind fun e' => e'.runAll rest := List.foldlM_cons

theorem runAll_eq (e : Enriched α) (calls : List (Call α)) :
    e.runAll calls = (calls.mapM (Call.run (fresh e.base e.limit))).map
      fun parts => e.plus (gather e.base e.limit parts) := by
  induction calls generalizing e with
  | nil => exact congrArg Except.ok (plus_fresh e e.base e.limit).symm
  | cons call rest ih =>
    rw [runAll_cons, List.mapM_cons, Call.run_eq]
    cases call.run (fresh e.base e.limit) with
    | error error => rfl
    | ok part =>
      -- The node is still the same underneath, so the rest goes as it does alone.
      have hrest : (e.plus part).runAll rest = (rest.mapM (Call.run (fresh e.base e.limit))).map
          fun parts => (e.plus part).plus (gather e.base e.limit parts) := ih (e.plus part)
      refine Eq.trans hrest ?_
      cases rest.mapM (Call.run (fresh e.base e.limit)) with
      | error error => rfl
      | ok parts => exact congrArg Except.ok (plus_gather_cons ..).symm

/-- The mark is there when it was there before, or one of the calls sets it. -/
theorem runAll_isMatch {e e' : Enriched α} {calls : List (Call α)} (h : e.runAll calls = .ok e') :
    e'.isMatch = true ↔ e.isMatch = true ∨ Call.markMatch ∈ calls := by
  induction calls generalizing e with
  | nil =>
    obtain rfl : e = e' := Except.ok.inj h
    simp only [List.not_mem_nil, or_false]
  | cons call rest ih =>
    rw [runAll_cons] at h
    cases hcall : call.run e with
    | error error => rw [hcall] at h; cases h
    | ok next =>
      rw [hcall] at h
      rw [ih h, Call.run_isMatch hcall, List.mem_cons, or_assoc]

theorem after_base (e : Enriched α) (calls : List (Call α)) :
    (e.after calls).base = e.base ∧ (e.after calls).limit = e.limit := by
  induction calls generalizing e with
  | nil => exact ⟨rfl, rfl⟩
  | cons call rest ih =>
    rw [after, List.foldl_cons, ← after]
    cases hcall : call.run e with
    | error error => exact ih e
    | ok next =>
      obtain ⟨hbase, hlimit⟩ := Call.run_base hcall
      exact ⟨(ih next).1.trans hbase, (ih next).2.trans hlimit⟩

/-- **Calls do not interact.** Whatever calls came before, a call fails with
the error with which it fails as the only call on the node, or puts on top
what it puts there as the only call: one predicate or none, and the mark when
it sets it. A list of calls fails as the first of its calls that fails alone.
Otherwise the node underneath is the same as before, on top of it is what the
calls put there one by one, in order, and under any limit it compiles to the
branch of the node underneath, with the predicates behind the node's own. The
node underneath may be an enriched one itself. -/
theorem calls_independent (base : α) (limit : Nat) (calls : List (Call α)) :
    (∀ (before : List (Call α)) (call : Call α), call.run ((fresh base limit).after before) =
        (call.run (fresh base limit)).map ((fresh base limit).after before).plus) ∧
      (fresh base limit).runAll calls =
        (calls.mapM (Call.run (fresh base limit))).map (gather base limit) ∧
      ∀ parts, calls.mapM (Call.run (fresh base limit)) = .ok parts →
        (∀ part ∈ parts, part.predicates.length ≤ 1) ∧
        ((gather base limit parts).isMatch = true ↔ Call.markMatch ∈ calls) ∧
        ∀ limit', (ExampleNode.rooted (gather base limit parts)).compile limit' =
          ((ExampleNode.rooted base).compile limit').map fun b =>
            { step := { b.step with
                predicates := b.step.predicates ++ parts.flatMap (·.predicates) }
              isMatch := b.isMatch || (gather base limit parts).isMatch } := by
  have hrun : (fresh base limit).runAll calls =
      (calls.mapM (Call.run (fresh base limit))).map (gather base limit) := by
    refine (runAll_eq (fresh base limit) calls).trans (congrArg (Except.map · _) ?_)
    exact funext fun parts => fresh_plus base limit parts
  refine ⟨fun before call => ?_, hrun, fun parts hparts => ⟨fun part hpart => ?_, ?_, fun limit' => ?_⟩⟩
  · obtain ⟨hbase, hlimit⟩ := after_base (fresh base limit) before
    rw [Call.run_eq, hbase, hlimit]
    rfl
  · obtain ⟨call, -, hcall⟩ := exists_of_mapM_eq_ok hparts part hpart
    exact Call.run_length_le hcall
  · rw [hparts] at hrun
    rw [runAll_isMatch hrun]
    simp [fresh, Enriched.of]
  · rw [compile_eq_map]
    congr 1
    funext b
    simp only [onBranch, gather, Bool.or_comm]

/-- A build of the main branch, with a predicate on top. -/
def release : Enriched Example :=
  (Enriched.of ((Example.ofTag "Build").set "branch" (.scalar (.string "main")))).addCustomPredicate "[@tagged]"

def failed (build : Enriched Example) : Enriched Example :=
  { build with base := build.base.set "state" (.scalar (.string "failed")) }

theorem calls_independent_release :
    let calls : List (Call (Enriched Example)) := [.addCustomPredicate "[@signed]", .markMatch, .not failed]
    ∃ parts, calls.mapM (Call.run (fresh release 8)) = .ok parts ∧
      (fresh release 8).runAll calls = .ok (gather release 8 parts) ∧
      (ExampleNode.rooted (gather release 8 parts)).compile 8 = .ok
        { step :=
            { tag := "Build"
              predicates := [.equals "branch" (.string "main"), .custom "[@tagged]", .custom "[@signed]",
                .negated (.equals "state" (.string "failed"))]
              matched := [] }
          isMatch := true } := by
  intro calls
  obtain ⟨-, hrun, hparts⟩ := calls_independent release 8 calls
  have hcalls : calls.mapM (Call.run (fresh release 8)) = .ok
      [(fresh release 8).addCustomPredicate "[@signed]", (fresh release 8).markMatch,
        (fresh release 8).addPredicate (.negated (.equals "state" (.string "failed")))] := by cbv
  obtain ⟨-, -, hcompile⟩ := hparts _ hcalls
  refine ⟨_, hcalls, by rw [hrun, hcalls]; rfl, ?_⟩
  rw [hcompile]
  rfl

end QueryByExample.Enriched
