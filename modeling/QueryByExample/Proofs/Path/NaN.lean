/-
Predicates that are not equal to themselves.

Doubles are compared as numbers, and no number is NaN. A predicate is equal to
itself unless NaN occurs in it, however deep (`Predicate.beq_self`).
-/
import QueryByExample.Path.Basic

namespace QueryByExample

def Scalar.isNaN : Scalar → Bool
  | .float .nan => true
  | _ => false

mutual

/-- NaN occurs in the step or in a step to which it leads. -/
def Step.mentionsNaN : Step → Bool
  | ⟨_, predicates, matched⟩ => Predicate.anyMentionsNaN predicates || Relation.anyMentionsNaN matched

def Relation.mentionsNaN : Relation → Bool
  | ⟨_, step⟩ => step.mentionsNaN

def Relation.anyMentionsNaN : List Relation → Bool
  | [] => false
  | r :: rs => r.mentionsNaN || Relation.anyMentionsNaN rs

def Predicate.mentionsNaN : Predicate → Bool
  | .equals _ value => value.isNaN
  | .related r => r.mentionsNaN
  | .negated p => p.mentionsNaN
  | .either p q => p.mentionsNaN || q.mentionsNaN
  | .every ps => Predicate.anyMentionsNaN ps
  | .optional p => p.mentionsNaN
  | .custom _ => false

def Predicate.anyMentionsNaN : List Predicate → Bool
  | [] => false
  | p :: ps => p.mentionsNaN || Predicate.anyMentionsNaN ps

end

theorem Predicate.anyMentionsNaN_eq (ps : List Predicate) : anyMentionsNaN ps = ps.any mentionsNaN := by
  induction ps with
  | nil => rfl
  | cons p ps ih => rw [anyMentionsNaN, List.any_cons, ih]

theorem Relation.anyMentionsNaN_eq (rs : List Relation) : anyMentionsNaN rs = rs.any mentionsNaN := by
  induction rs with
  | nil => rfl
  | cons r rs ih => rw [anyMentionsNaN, List.any_cons, ih]

/-- A step mentions what its constraints mention. -/
theorem Step.mentionsNaN_eq (s : Step) : s.mentionsNaN = s.constraints.any Predicate.mentionsNaN := by
  obtain ⟨tag, predicates, matched⟩ := s
  rw [mentionsNaN, Predicate.anyMentionsNaN_eq, Relation.anyMentionsNaN_eq, constraints, List.any_append, List.any_map]
  rfl

theorem Scalar.equal_self (value : Scalar) : value.equal value = !value.isNaN := by
  cases value with
  | float x => cases x <;> simp [equal, isNaN, BEq.beq, Binary64.equal]
  | _ => simp [equal, isNaN]

mutual

theorem Step.equal_self : (s : Step) → s.equal s = !s.mentionsNaN
  | ⟨tag, predicates, matched⟩ => by
    rw [Step.equal, Step.mentionsNaN, Predicate.equalAll_self predicates, Relation.equalAll_self matched,
      beq_self_eq_true, Bool.true_and, Bool.not_or]

theorem Relation.equal_self : (r : Relation) → r.equal r = !r.mentionsNaN
  | ⟨name, step⟩ => by
    rw [Relation.equal, Relation.mentionsNaN, Step.equal_self step, beq_self_eq_true, Bool.true_and]

theorem Relation.equalAll_self : (rs : List Relation) → Relation.equalAll rs rs = !Relation.anyMentionsNaN rs
  | [] => by rw [Relation.equalAll, Relation.anyMentionsNaN, Bool.not_false]
  | r :: rs => by
    rw [Relation.equalAll, Relation.anyMentionsNaN, Relation.equal_self r, Relation.equalAll_self rs, Bool.not_or]

theorem Predicate.equal_self : (p : Predicate) → p.equal p = !p.mentionsNaN
  | .equals name value => by
    rw [Predicate.equal, Predicate.mentionsNaN, beq_self_eq_true, Bool.true_and]
    exact Scalar.equal_self value
  | .related r => by rw [Predicate.equal, Predicate.mentionsNaN, Relation.equal_self r]
  | .negated p => by rw [Predicate.equal, Predicate.mentionsNaN, Predicate.equal_self p]
  | .either p q => by
    rw [Predicate.equal, Predicate.mentionsNaN, Predicate.equal_self p, Predicate.equal_self q, Bool.not_or]
  | .every ps => by rw [Predicate.equal, Predicate.mentionsNaN, Predicate.equalAll_self ps]
  | .optional p => by rw [Predicate.equal, Predicate.mentionsNaN, Predicate.equal_self p]
  | .custom text => by rw [Predicate.equal, Predicate.mentionsNaN, beq_self_eq_true, Bool.not_false]

theorem Predicate.equalAll_self : (ps : List Predicate) → Predicate.equalAll ps ps = !Predicate.anyMentionsNaN ps
  | [] => by rw [Predicate.equalAll, Predicate.anyMentionsNaN, Bool.not_false]
  | p :: ps => by
    rw [Predicate.equalAll, Predicate.anyMentionsNaN, Predicate.equal_self p, Predicate.equalAll_self ps, Bool.not_or]

end

theorem Predicate.beq_self (p : Predicate) : (p == p) = !p.mentionsNaN :=
  Predicate.equal_self p

end QueryByExample
