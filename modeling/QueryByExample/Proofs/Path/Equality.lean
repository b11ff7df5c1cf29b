/-
Equality of scalars and predicates.

Doubles are compared as numbers, so equality is not reflexive: NaN differs
from itself, and so does whatever mentions it. It is symmetric and transitive,
and that is what telling equal predicates from others needs.
-/
import QueryByExample.Path.Basic

namespace QueryByExample

instance : PartialEquivBEq Binary64 where
  symm {x y} h := by
    change x.equal y at h
    change y.equal x
    cases x <;> cases y <;> simp only [Binary64.equal, Bool.false_eq_true] at h ⊢
    all_goals exact BEq.symm h
  trans {x y z} h h' := by
    change x.equal y at h
    change y.equal z at h'
    change x.equal z
    cases x <;> cases y <;> simp only [Binary64.equal, Bool.false_eq_true] at h <;> cases z <;>
      simp only [Binary64.equal, Bool.false_eq_true] at h' ⊢
    all_goals exact BEq.trans h h'

instance : PartialEquivBEq Scalar where
  symm {v w} h := by
    change v.equal w at h
    change w.equal v
    cases v <;> cases w <;> simp only [Scalar.equal, Bool.false_eq_true] at h ⊢
    all_goals exact BEq.symm h
  trans {v w u} h h' := by
    change v.equal w at h
    change w.equal u at h'
    change v.equal u
    cases v <;> cases w <;> simp only [Scalar.equal, Bool.false_eq_true] at h <;> cases u <;>
      simp only [Scalar.equal, Bool.false_eq_true] at h' ⊢
    all_goals exact BEq.trans h h'

mutual

theorem Step.equal_symm : (s t : Step) → s.equal t → t.equal s
  | ⟨_, ps, rs⟩, ⟨_, qs, ss⟩, h => by
    simp only [Step.equal, Bool.and_eq_true] at h ⊢
    exact ⟨⟨BEq.symm h.1.1, Predicate.equalAll_symm ps qs h.1.2⟩, Relation.equalAll_symm rs ss h.2⟩

theorem Relation.equal_symm : (r s : Relation) → r.equal s → s.equal r
  | ⟨_, step⟩, ⟨_, step'⟩, h => by
    simp only [Relation.equal, Bool.and_eq_true] at h ⊢
    exact ⟨BEq.symm h.1, Step.equal_symm step step' h.2⟩

theorem Relation.equalAll_symm (rs ss : List Relation) (h : Relation.equalAll rs ss) : Relation.equalAll ss rs := by
  cases rs <;> cases ss <;> try (simp only [Relation.equalAll, Bool.false_eq_true] at h; done)
  case nil.nil => exact h
  case cons.cons r rs s ss =>
    rw [Relation.equalAll, Bool.and_eq_true] at h ⊢
    exact ⟨Relation.equal_symm r s h.1, Relation.equalAll_symm rs ss h.2⟩

theorem Predicate.equal_symm (p q : Predicate) (h : p.equal q) : q.equal p := by
  -- different constructors are not equal
  cases p <;> cases q <;> try (simp only [Predicate.equal, Bool.false_eq_true] at h; done)
  all_goals simp only [Predicate.equal, Bool.and_eq_true] at h ⊢
  case equals.equals => exact ⟨BEq.symm h.1, BEq.symm h.2⟩
  case related.related r s => exact Relation.equal_symm r s h
  case negated.negated p q => exact Predicate.equal_symm p q h
  case either.either p q p' q' => exact ⟨Predicate.equal_symm p p' h.1, Predicate.equal_symm q q' h.2⟩
  case every.every ps qs => exact Predicate.equalAll_symm ps qs h
  case optional.optional p q => exact Predicate.equal_symm p q h
  case custom.custom => exact BEq.symm h

theorem Predicate.equalAll_symm (ps qs : List Predicate) (h : Predicate.equalAll ps qs) :
    Predicate.equalAll qs ps := by
  cases ps <;> cases qs <;> try (simp only [Predicate.equalAll, Bool.false_eq_true] at h; done)
  case nil.nil => exact h
  case cons.cons p ps q qs =>
    rw [Predicate.equalAll, Bool.and_eq_true] at h ⊢
    exact ⟨Predicate.equal_symm p q h.1, Predicate.equalAll_symm ps qs h.2⟩

end

mutual

theorem Step.equal_trans : (s t u : Step) → s.equal t → t.equal u → s.equal u
  | ⟨_, ps, rs⟩, ⟨_, ps', rs'⟩, ⟨_, ps'', rs''⟩, h, h' => by
    simp only [Step.equal, Bool.and_eq_true] at h h' ⊢
    exact ⟨⟨BEq.trans h.1.1 h'.1.1, Predicate.equalAll_trans ps ps' ps'' h.1.2 h'.1.2⟩,
      Relation.equalAll_trans rs rs' rs'' h.2 h'.2⟩

theorem Relation.equal_trans : (r s t : Relation) → r.equal s → s.equal t → r.equal t
  | ⟨_, step⟩, ⟨_, step'⟩, ⟨_, step''⟩, h, h' => by
    simp only [Relation.equal, Bool.and_eq_true] at h h' ⊢
    exact ⟨BEq.trans h.1 h'.1, Step.equal_trans step step' step'' h.2 h'.2⟩

theorem Relation.equalAll_trans (rs ss ts : List Relation) (h : Relation.equalAll rs ss)
    (h' : Relation.equalAll ss ts) : Relation.equalAll rs ts := by
  cases rs <;> cases ss <;> try (simp only [Relation.equalAll, Bool.false_eq_true] at h; done)
  all_goals cases ts <;> try (simp only [Relation.equalAll, Bool.false_eq_true] at h'; done)
  case nil.nil.nil => exact h
  case cons.cons.cons r rs s ss t ts =>
    rw [Relation.equalAll, Bool.and_eq_true] at h h' ⊢
    exact ⟨Relation.equal_trans r s t h.1 h'.1, Relation.equalAll_trans rs ss ts h.2 h'.2⟩

theorem Predicate.equal_trans (p q r : Predicate) (h : p.equal q) (h' : q.equal r) : p.equal r := by
  cases p <;> cases q <;> try (simp only [Predicate.equal, Bool.false_eq_true] at h; done)
  all_goals cases r <;> try (simp only [Predicate.equal, Bool.false_eq_true] at h'; done)
  all_goals simp only [Predicate.equal, Bool.and_eq_true] at h h' ⊢
  case equals.equals.equals => exact ⟨BEq.trans h.1 h'.1, BEq.trans h.2 h'.2⟩
  case related.related.related r s t => exact Relation.equal_trans r s t h h'
  case negated.negated.negated p q r => exact Predicate.equal_trans p q r h h'
  case either.either.either p₁ p₂ q₁ q₂ r₁ r₂ =>
    exact ⟨Predicate.equal_trans p₁ q₁ r₁ h.1 h'.1, Predicate.equal_trans p₂ q₂ r₂ h.2 h'.2⟩
  case every.every.every ps qs rs => exact Predicate.equalAll_trans ps qs rs h h'
  case optional.optional.optional p q r => exact Predicate.equal_trans p q r h h'
  case custom.custom.custom => exact BEq.trans h h'

theorem Predicate.equalAll_trans (ps qs rs : List Predicate) (h : Predicate.equalAll ps qs)
    (h' : Predicate.equalAll qs rs) : Predicate.equalAll ps rs := by
  cases ps <;> cases qs <;> try (simp only [Predicate.equalAll, Bool.false_eq_true] at h; done)
  all_goals cases rs <;> try (simp only [Predicate.equalAll, Bool.false_eq_true] at h'; done)
  case nil.nil.nil => exact h
  case cons.cons.cons p ps q qs r rs =>
    rw [Predicate.equalAll, Bool.and_eq_true] at h h' ⊢
    exact ⟨Predicate.equal_trans p q r h.1 h'.1, Predicate.equalAll_trans ps qs rs h.2 h'.2⟩

end

instance : PartialEquivBEq Predicate where
  symm {p q} := Predicate.equal_symm p q
  trans {p q r} := Predicate.equal_trans p q r

end QueryByExample
