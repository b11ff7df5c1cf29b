/-
The truth of a body, read from its text.

`truth?` reads a body with `not` before `and` before `or` and with
parentheses, as a formula. Its atoms, the equalities and the paths, have the
truth that an assignment gives to their own texts; where one ends, the reader
of path expressions tells.

`PredicateText.Means` is the invariant: a predicate's body is read with a
truth value, and it is as tight as its binding claims. Each way of building a
predicate keeps it, so the body of a plain predicate is read with the truth of
the predicate (`Predicate.means`).
-/
import QueryByExample.Proofs.Path.ReadBack

namespace QueryByExample

namespace Reading

/-- The text of an equality or a path. -/
def atom? : Reader String := fun cs => do
  let (_, rest) ← operand? cs.length cs
  return (String.ofList (cs.take (cs.length - rest.length)), rest)

def conjunctionTruth? (operand : Reader Bool) : Reader Bool := fun cs =>
  joined? " and ".toList (· && ·) operand (cs.length + 1) cs

def disjunctionTruth? (operand : Reader Bool) : Reader Bool := fun cs =>
  joined? " or ".toList (· || ·) (conjunctionTruth? operand) (cs.length + 1) cs

/-- The truth of an operand with operands nested in it to a depth. -/
def operandTruth? (v : String → Bool) : (depth : Nat) → Reader Bool
  | 0, _ => none
  | depth + 1, cs =>
    match cs with
    | '@' :: _ | '/' :: _ => do
      let (atom, rest) ← atom? cs
      return (v atom, rest)
    | '(' :: rest => do
      let (b, rest) ← disjunctionTruth? (operandTruth? v depth) rest
      let rest ← after? [')'] rest
      return (b, rest)
    | _ => do
      let rest ← after? "not ".toList cs
      let (b, rest) ← operandTruth? v depth rest
      return (!b, rest)

/-- The truth of a whole body where the assignment tells that of its atoms. -/
def truth? (v : String → Bool) (body : String) : Option Bool := do
  match ← disjunctionTruth? (operandTruth? v body.length) body.toList with
  | (b, []) => return b
  | _ => none

section Operands
variable {v : String → Bool} {t rest : List Char}

theorem atom?_append {body : Body} (h : IsOperand t body) (hrest : Ends rest) :
    atom? (t ++ rest) = some (String.ofList t, rest) := by
  have hread := h (t ++ rest).length rest (by simp) hrest
  simp only [atom?, hread, Option.bind_eq_bind, Option.bind_some]
  simp

theorem TakenAs.atom {body : Body} (h : IsOperand t body) (hstart : t.head?.any (['@', '/'].contains ·) = true) :
    TakenAs (operandTruth? v) t (v (String.ofList t)) := by
  intro depth rest hd hrest
  have hatom := atom?_append h hrest
  cases t with
  | nil => cases hstart
  | cons c t =>
    obtain ⟨depth, rfl⟩ : ∃ k, depth = k + 1 := ⟨depth - 1, by simp at hd; omega⟩
    obtain rfl | rfl : c = '@' ∨ c = '/' := by simpa using hstart
    all_goals
      rw [List.cons_append] at hatom ⊢
      simp only [operandTruth?, hatom, Option.bind_eq_bind, Option.bind_some]
      rfl

theorem TakenAs.negated {b : Bool} (h : TakenAs (operandTruth? v) t b) :
    TakenAs (operandTruth? v) ("not ".toList ++ t) (!b) := by
  intro depth rest hd hrest
  obtain ⟨depth, rfl⟩ : ∃ k, depth = k + 1 := ⟨depth - 1, by simp at hd; omega⟩
  have hb := h depth rest (by simp at hd; omega) hrest
  rw [operandTruth?]
  · simp only [List.append_assoc, after?_append, Option.bind_eq_bind, Option.bind_some, hb]
    rfl
  all_goals simp

theorem TakenAs.parens {b : Bool}
    (h : Joined " or ".toList (· || ·) (Joined " and ".toList (· && ·) (TakenAs (operandTruth? v))) t b) :
    TakenAs (operandTruth? v) ('(' :: t ++ [')']) b := by
  intro depth rest hd _
  obtain ⟨depth, rfl⟩ : ∃ k, depth = k + 1 := ⟨depth - 1, by simp at hd; omega⟩
  simp only [List.cons_append, List.length_cons, List.length_append] at hd
  obtain ⟨hends, hand, hor⟩ := Closes.ends ⟨rest, .inl (rfl : ')' :: rest = ')' :: rest)⟩
  have hbody : disjunctionTruth? (operandTruth? v depth) (t ++ ')' :: rest) = some (b, ')' :: rest) :=
    h.readOr depth (')' :: rest) (by omega) hends hand hor
  simp only [List.cons_append, List.append_assoc, List.nil_append, operandTruth?, hbody,
    Option.bind_eq_bind, Option.bind_some]
  rfl

end Operands
end Reading

open Reading

/-- The text of a predicate inside another one. -/
def Predicate.bodyText (p : Predicate) : String :=
  String.ofList p.written.body

mutual

/-- The truth of a predicate where an assignment tells that of its atoms, by
their texts. Raw text is an atom as a whole. -/
def Predicate.truth (v : String → Bool) : Predicate → Bool
  | .equals name value => v (Predicate.equals name value).bodyText
  | .related r => v (Predicate.related r).bodyText
  | .negated p => !p.truth v
  | .either p q => p.truth v || q.truth v
  | .every ps => (Predicate.truths v ps).all id
  | .optional p => p.truth v
  | .custom text => v text

def Predicate.truths (v : String → Bool) : List Predicate → List Bool
  | [] => []
  | p :: rest => p.truth v :: Predicate.truths v rest

end

namespace PredicateText

/-- A predicate's body is read with a truth value, and holds together as its
binding tells. -/
def Means (v : String → Bool) (p : PredicateText) (b : Bool) : Prop :=
  p.binding.Joins (· && ·) (· || ·) (TakenAs (operandTruth? v)) p.body b

namespace Means
variable {v : String → Bool} {p q : PredicateText} {b c : Bool}

theorem parens (h : p.Means v b) : TakenAs (operandTruth? v) ('(' :: p.body ++ [')']) b :=
  .parens (Binding.Joins.disjunction h)

theorem negated (h : p.Means v b) : p.negated.Means v (!b) :=
  TakenAs.negated (Binding.Joins.negatedOperand h h.parens)

theorem either (hp : p.Means v b) (hq : q.Means v c) : (p.either q).Means v (b || c) :=
  (Binding.Joins.orOperand hp hp.parens).append Bool.or_assoc (Binding.Joins.orOperand hq hq.parens)

theorem every {ps : List PredicateText} {bs : List Bool} (h : List.Forall₂ (Means v) ps bs) (hne : ps ≠ []) :
    (PredicateText.every ps).Means v (bs.all id) := by
  have hoperands : List.Forall₂ (Joined " and ".toList (· && ·) (TakenAs (operandTruth? v)))
      (ps.map (·.operand [.tight, .conjunction])) bs := by
    rw [List.forall₂_map_left_iff]
    refine h.imp fun p b hp => ?_
    exact Binding.Joins.andOperand hp hp.parens
  exact Joined.intercalate Bool.and_assoc (·.all id) Bool.and_true (fun _ _ _ => rfl) hoperands (by simpa using hne)

theorem truth? (h : p.Means v b) : truth? v (String.ofList p.body) = some b := by
  have hread : disjunctionTruth? (operandTruth? v p.body.length) (p.body ++ []) = some (b, []) :=
    (Binding.Joins.disjunction h).readOr _ [] (Nat.le_refl _) (notNext_nil _) rfl rfl
  rw [List.append_nil] at hread
  simp only [Reading.truth?, String.length_ofList, String.toList_ofList, hread, Option.bind_eq_bind, Option.bind_some]
  rfl

end Means
end PredicateText

mutual

theorem Predicate.means (v : String → Bool) : (p : Predicate) → p.isPlain = true → p.written.Means v (p.truth v)
  | .equals name value, h => .atom (Predicate.reads (.equals name value) h).body rfl
  | .related r, h => .atom (Predicate.reads (.related r) h).body rfl
  | .negated p, h => (Predicate.means v p h).negated
  | .either p q, h => by
    simp only [Predicate.isPlain, Bool.and_eq_true] at h
    exact (Predicate.means v p h.1).either (Predicate.means v q h.2)
  | .every ps, h => by
    simp only [Predicate.isPlain, Bool.and_eq_true, Bool.not_eq_true', List.isEmpty_eq_false_iff] at h
    refine .every (Predicate.allMean v ps h.2) ?_
    cases ps with
    | nil => exact absurd rfl h.1
    | cons p rest => simp [Predicate.writtenAll]
  | .optional p, h => Predicate.means v p h
  | .custom _, h => by cases h

theorem Predicate.allMean (v : String → Bool) : (ps : List Predicate) → Predicate.allPlain ps = true →
    List.Forall₂ (PredicateText.Means v) (Predicate.writtenAll ps) (Predicate.truths v ps)
  | [], _ => .nil
  | p :: rest, h => by
    simp only [Predicate.allPlain, Bool.and_eq_true] at h
    exact .cons (Predicate.means v p h.1) (Predicate.allMean v rest h.2)

end

end QueryByExample
