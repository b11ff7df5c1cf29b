/-
What the combinators mean.

The operand of a combinator is not what the changed node asks for but what it
asks for beyond the base, so it says the same only where the base's own
constraints hold (`beyond_holds`). They do wherever the enriched node is asked
for, and with that a negation and an alternative mean what they say of the
changed nodes as a whole (`Enriched.not_or_correct`), however the changes go
about it.
-/
import QueryByExample.Example.Basic
import QueryByExample.Proofs.Enriched.Constraints

namespace QueryByExample
variable {α ι : Type}

/-- An assignment of truth values to predicates that does not tell equal ones
apart and reads negations, alternatives and conjunctions classically. -/
structure IsClassical (v : Predicate → Prop) : Prop where
  congr : ∀ {p q : Predicate}, p == q → (v p ↔ v q)
  negated : ∀ {p : Predicate}, v (.negated p) ↔ ¬ v p
  either : ∀ {p q : Predicate}, v (.either p q) ↔ v p ∨ v q
  every : ∀ {ps : List Predicate}, v (.every ps) ↔ ∀ p ∈ ps, v p

/-- All that the branch asks of its node is true. -/
def Branch.Holds (v : Predicate → Prop) (b : Branch) : Prop :=
  ∀ p ∈ b.step.constraints, v p

mutual

/-- An assignment to the predicates that are not put together from others goes
on to all of them. -/
def Predicate.Holds (atom : Predicate → Prop) : Predicate → Prop
  | .negated p => ¬ p.Holds atom
  | .either p q => p.Holds atom ∨ q.Holds atom
  | .every ps => Predicate.AllHold atom ps
  | .equals name value => atom (.equals name value)
  | .related r => atom (.related r)
  | .optional p => atom (.optional p)
  | .custom text => atom (.custom text)

def Predicate.AllHold (atom : Predicate → Prop) : List Predicate → Prop
  | [] => True
  | p :: ps => p.Holds atom ∧ Predicate.AllHold atom ps

end

namespace Predicate
variable {atom : Predicate → Prop}

theorem allHold_iff (ps : List Predicate) : AllHold atom ps ↔ ∀ p ∈ ps, p.Holds atom := by
  induction ps with
  | nil => simp [AllHold]
  | cons p ps ih => rw [AllHold, ih, List.forall_mem_cons]

mutual

theorem holds_congr (hatom : ∀ {p q : Predicate}, p == q → (atom p ↔ atom q)) (p q : Predicate)
    (h : p.equal q) : p.Holds atom ↔ q.Holds atom := by
  -- different constructors are not equal
  cases p <;> cases q <;> try (simp only [Predicate.equal, Bool.false_eq_true] at h; done)
  case negated.negated p q =>
    rw [Predicate.equal] at h
    rw [Holds, Holds, holds_congr hatom p q h]
  case either.either p q p' q' =>
    rw [Predicate.equal, Bool.and_eq_true] at h
    rw [Holds, Holds, holds_congr hatom p p' h.1, holds_congr hatom q q' h.2]
  case every.every ps qs =>
    rw [Predicate.equal] at h
    rw [Holds, Holds, allHold_congr hatom ps qs h]
  all_goals exact hatom h

theorem allHold_congr (hatom : ∀ {p q : Predicate}, p == q → (atom p ↔ atom q))
    (ps qs : List Predicate) (h : equalAll ps qs) : AllHold atom ps ↔ AllHold atom qs := by
  cases ps <;> cases qs <;> try (simp only [equalAll, Bool.false_eq_true] at h; done)
  case nil.nil => rfl
  case cons.cons p ps q qs =>
    rw [equalAll, Bool.and_eq_true] at h
    rw [AllHold, AllHold, holds_congr hatom p q h.1, allHold_congr hatom ps qs h.2]

end

theorem isClassical_holds (hatom : ∀ {p q : Predicate}, p == q → (atom p ↔ atom q)) :
    IsClassical (Holds atom) where
  congr h := holds_congr hatom _ _ h
  negated := Iff.rfl
  either := Iff.rfl
  every := allHold_iff _

end Predicate

namespace IsClassical
variable {v : Predicate → Prop}

theorem all?_iff (hv : IsClassical v) : ∀ ps : List Predicate,
    (∀ p ∈ Predicate.all? ps, v p) ↔ ∀ p ∈ ps, v p
  | [] => by simp [Predicate.all?]
  | [p] => by simp [Predicate.all?]
  | p :: q :: ps => by simp only [Predicate.all?, Option.mem_some_iff, forall_eq', hv.every]

/-- Where `before` holds, the rest of `after` says as much as `after`: what
was taken out of it is equal to a predicate of `before`. -/
theorem beyond_holds (hv : IsClassical v) {before : List Predicate} (after : List Predicate)
    (h : ∀ p ∈ before, v p) : (∀ p ∈ beyond before after, v p) ↔ ∀ p ∈ after, v p := by
  induction after generalizing before with
  | nil => rfl
  | cons x after ih =>
    rw [beyond, List.forall_mem_cons]
    by_cases hx : before.any (· == x)
    · obtain ⟨p, hp, hpx⟩ := List.any_eq_true.1 hx
      have hvx : v x := (hv.congr hpx).1 (h p hp)
      have hrest : ∀ p ∈ before.eraseP (· == x), v p := fun p hp => h p (List.mem_of_mem_eraseP hp)
      rw [if_pos hx, ih hrest]
      exact (and_iff_right hvx).symm
    · rw [if_neg hx, List.forall_mem_cons, ih h]

/-- The operand that a change gives says of a node on which the base holds what
the changed node says. -/
theorem operand_iff (hv : IsClassical v) {before after : Branch} {operand : Predicate}
    (hall : Predicate.all? (beyond before.step.constraints after.step.constraints) = some operand)
    (h : before.Holds v) : v operand ↔ after.Holds v := by
  have hiff := (hv.all?_iff _).trans (hv.beyond_holds after.step.constraints h)
  simpa [hall, Branch.Holds] using hiff

theorem holds_of_no_operand (hv : IsClassical v) {before after : Branch}
    (hall : Predicate.all? (beyond before.step.constraints after.step.constraints) = none)
    (h : before.Holds v) : after.Holds v := by
  have hiff := (hv.all?_iff _).trans (hv.beyond_holds after.step.constraints h)
  exact hiff.1 (by simp [hall])

end IsClassical

namespace Enriched
variable {v : Predicate → Prop} {e : Enriched α} {b : Branch}

theorem holds_onBranch : (e.onBranch b).Holds v ↔ b.Holds v ∧ ∀ p ∈ e.predicates, v p := by
  simp only [Branch.Holds, mem_constraints_onBranch, or_imp, forall_and]

theorem holds_addPredicate {p : Predicate} :
    ((e.addPredicate p).onBranch b).Holds v ↔ (e.onBranch b).Holds v ∧ v p := by
  simp only [holds_onBranch, addPredicate, List.forall_mem_append, List.forall_mem_singleton, and_assoc]

variable [ExampleNode α ι] [DecidableEq ι]

theorem not_holds (hv : IsClassical v) {f : α → α} {base changed : Branch}
    (hbase : (ExampleNode.rooted e.base).compile e.limit = .ok base)
    (hf : (ExampleNode.rooted (f e.base)).compile e.limit = .ok changed) :
    (∃ e', e.not f = .ok e' ∧ e'.base = e.base ∧
        ((e'.onBranch base).Holds v ↔ (e.onBranch base).Holds v ∧ ¬ changed.Holds v)) ∨
      (e.not f = .error .misuse ∧ (base.Holds v → changed.Holds v)) := by
  rw [not_eq (added_eq hbase hf)]
  cases hall : Predicate.all? (beyond base.step.constraints changed.step.constraints) with
  | none => exact .inr ⟨rfl, hv.holds_of_no_operand hall⟩
  | some operand =>
    refine .inl ⟨_, rfl, rfl, ?_⟩
    rw [holds_addPredicate, hv.negated]
    exact and_congr_right fun h => not_congr (hv.operand_iff hall (holds_onBranch.1 h).1)

theorem or_holds (hv : IsClassical v) {f g : α → α} {base left right : Branch}
    (hbase : (ExampleNode.rooted e.base).compile e.limit = .ok base)
    (hf : (ExampleNode.rooted (f e.base)).compile e.limit = .ok left)
    (hg : (ExampleNode.rooted (g e.base)).compile e.limit = .ok right) :
    ∃ e', e.or f g = .ok e' ∧ e'.base = e.base ∧
      ((e'.onBranch base).Holds v ↔ (e.onBranch base).Holds v ∧ (left.Holds v ∨ right.Holds v)) := by
  have hunder : (e.onBranch base).Holds v → base.Holds v := fun h => (holds_onBranch.1 h).1
  rw [or_eq (added_eq hbase hf) (added_eq hbase hg)]
  cases hl : Predicate.all? (beyond base.step.constraints left.step.constraints) with
  | none =>
    refine ⟨e, rfl, rfl, (and_iff_left_of_imp fun h => .inl ?_).symm⟩
    exact hv.holds_of_no_operand hl (hunder h)
  | some p =>
    cases hr : Predicate.all? (beyond base.step.constraints right.step.constraints) with
    | none =>
      refine ⟨e, rfl, rfl, (and_iff_left_of_imp fun h => .inr ?_).symm⟩
      exact hv.holds_of_no_operand hr (hunder h)
    | some q =>
      refine ⟨_, rfl, rfl, ?_⟩
      rw [holds_addPredicate, hv.either]
      exact and_congr_right fun h =>
        or_congr (hv.operand_iff hl (hunder h)) (hv.operand_iff hr (hunder h))

/-- **The combinators are logically right.** Let a node and what two changes
make of it compile. Then the enriched node compiles, and whatever the truth of
the predicates may be: a negation either holds exactly where the enriched node
holds and the changed one does not, or is refused, and then the changed node
holds wherever the node does; and an alternative holds exactly where the
enriched node holds and one of the changed ones does. -/
theorem not_or_correct (hv : IsClassical v) (e : Enriched α) {f g : α → α} {base left right : Branch}
    (hbase : (ExampleNode.rooted e.base).compile e.limit = .ok base)
    (hf : (ExampleNode.rooted (f e.base)).compile e.limit = .ok left)
    (hg : (ExampleNode.rooted (g e.base)).compile e.limit = .ok right) :
    ∃ b, (ExampleNode.rooted e).compile e.limit = .ok b ∧
      ((∃ e' b', e.not f = .ok e' ∧ (ExampleNode.rooted e').compile e.limit = .ok b' ∧
          (b'.Holds v ↔ b.Holds v ∧ ¬ left.Holds v)) ∨
        (e.not f = .error .misuse ∧ (base.Holds v → left.Holds v))) ∧
      ∃ e' b', e.or f g = .ok e' ∧ (ExampleNode.rooted e').compile e.limit = .ok b' ∧
        (b'.Holds v ↔ b.Holds v ∧ (left.Holds v ∨ right.Holds v)) := by
  refine ⟨_, compile_of_base rfl hbase, ?_, ?_⟩
  · obtain ⟨e', hnot, hsame, hiff⟩ | hmisuse := not_holds hv hbase hf
    · exact .inl ⟨e', _, hnot, compile_of_base hsame hbase, hiff⟩
    · exact .inr hmisuse
  · obtain ⟨e', hor, hsame, hiff⟩ := or_holds hv hbase hf hg
    exact ⟨e', _, hor, compile_of_base hsame hbase, hiff⟩

/-- A build of the main branch. -/
def mainBuild : Enriched Example :=
  .of ((Example.ofTag "Build").set "branch" (.scalar (.string "main")))

def failedOnAny (build : Example) : Example :=
  (build.remove "branch").set "state" (.scalar (.string "failed"))

def onAny (build : Example) : Example :=
  build.remove "branch"

/-- Whether a predicate is an equality on the branch. -/
def asksOfBranch : Predicate → Prop
  | .equals name _ => name = "branch"
  | _ => False

theorem asksOfBranch_congr {p q : Predicate} (h : p == q) : asksOfBranch p ↔ asksOfBranch q := by
  change p.equal q at h
  cases p <;> cases q <;> try (simp only [Predicate.equal, Bool.false_eq_true] at h; done)
  case equals.equals name value name' value' =>
    rw [Predicate.equal, Bool.and_eq_true, beq_iff_eq] at h
    simp only [asksOfBranch, h.1]
  all_goals rfl

theorem not_or_correct_mainBuild : ∃ e' b', mainBuild.not failedOnAny = .ok e' ∧
    (ExampleNode.rooted e').compile mainBuild.limit = .ok b' ∧ b'.Holds (Predicate.Holds asksOfBranch) := by
  have hbase : (ExampleNode.rooted mainBuild.base).compile mainBuild.limit =
      .ok ⟨⟨"Build", [.equals "branch" (.string "main")], []⟩, false⟩ := rfl
  have hfailed : (ExampleNode.rooted (failedOnAny mainBuild.base)).compile mainBuild.limit =
      .ok ⟨⟨"Build", [.equals "state" (.string "failed")], []⟩, false⟩ := rfl
  have hany : (ExampleNode.rooted (onAny mainBuild.base)).compile mainBuild.limit =
      .ok ⟨⟨"Build", [], []⟩, false⟩ := rfl
  obtain ⟨b, hb, hnot, -⟩ :=
    not_or_correct (Predicate.isClassical_holds asksOfBranch_congr) mainBuild hbase hfailed hany
  obtain rfl : ⟨⟨"Build", [.equals "branch" (.string "main")], []⟩, false⟩ = b := Except.ok.inj hb
  have hholds : Branch.Holds (Predicate.Holds asksOfBranch)
      ⟨⟨"Build", [.equals "branch" (.string "main")], []⟩, false⟩ := by
    simp [Branch.Holds, Step.constraints, Predicate.Holds, asksOfBranch]
  have hfails : ¬ Branch.Holds (Predicate.Holds asksOfBranch)
      ⟨⟨"Build", [.equals "state" (.string "failed")], []⟩, false⟩ := by
    simp [Branch.Holds, Step.constraints, Predicate.Holds, asksOfBranch]
  obtain ⟨e', b', he', hb', hiff⟩ | ⟨-, himp⟩ := hnot
  · exact ⟨e', b', he', hb', hiff.2 ⟨hholds, hfails⟩⟩
  · exact absurd (himp hholds) hfails

end Enriched
end QueryByExample
