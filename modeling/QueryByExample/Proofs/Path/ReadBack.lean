/-
The text of a plain step is read as the step's segments.

`PredicateText.ReadsAs` is the invariant: a predicate's text in its three
places is read as the predicate's reading, and its body is as tight as its
binding claims, which is what decides where parentheses stand. Each way of
building a predicate keeps it, so every plain predicate has it
(`Predicate.reads`), along with the steps in it (`Step.reads`).
-/
import QueryByExample.Path.Text
import QueryByExample.Proofs.Path.Grammar
import QueryByExample.Proofs.Path.Segments

namespace QueryByExample
open Reading

/-- A body is put together as the binding tells, from texts of operands. Of
unknown structure it can be anything. -/
def Binding.Joins {α : Type} (and or : α → α → α) (operand : List Char → α → Prop) :
    Binding → List Char → α → Prop
  | .tight => operand
  | .conjunction => Joined " and ".toList and operand
  | .disjunction | .unknown => Joined " or ".toList or (Joined " and ".toList and operand)

section Joins
variable {α : Type} {and or : α → α → α} {operand : List Char → α → Prop} {x : α}

theorem Binding.Joins.disjunction {binding : Binding} {t : List Char} (h : binding.Joins and or operand t x) :
    Joined " or ".toList or (Joined " and ".toList and operand) t x := by
  cases binding with
  | tight => exact .one (.one h)
  | conjunction => exact .one h
  | disjunction => exact h
  | unknown => exact h

-- A body that in parentheses is an operand goes without them where it holds
-- together.
variable {p : PredicateText} (h : p.binding.Joins and or operand p.body x)
  (hparens : operand ('(' :: p.body ++ [')']) x)
include h hparens

/-- Under a negation only a tight body goes without parentheses. -/
theorem Binding.Joins.negatedOperand : operand (p.operand [.tight]) x := by
  cases hb : p.binding <;> simp only [hb, Joins, PredicateText.operand] at h ⊢
  · simpa using h
  all_goals simpa using hparens

theorem Binding.Joins.andOperand : Joined " and ".toList and operand (p.operand [.tight, .conjunction]) x := by
  cases hb : p.binding <;> simp only [hb, Joins, PredicateText.operand] at h ⊢
  · exact .one (by simpa using h)
  · exact .one (by simpa using hparens)
  · simpa using h
  · exact .one (by simpa using hparens)

theorem Binding.Joins.orOperand :
    Joined " or ".toList or (Joined " and ".toList and operand) (p.operand [.tight, .disjunction]) x := by
  cases hb : p.binding <;> simp only [hb, Joins, PredicateText.operand] at h ⊢
  · exact .one (.one (by simpa using h))
  · simpa using h
  · exact .one (.one (by simpa using hparens))
  · exact .one (.one (by simpa using hparens))

end Joins

/-- A body that holds together as the binding tells. -/
def Binding.Holds : Binding → List Char → Body → Prop
  | .tight => IsOperand
  | .conjunction => IsConjunction
  | .disjunction => IsDisjunction
  | .unknown => fun _ _ => False

theorem Binding.Holds.joins {binding : Binding} {t b} (h : binding.Holds t b) :
    binding.Joins .and .or IsOperand t b := by
  cases binding with
  | unknown => exact h.elim
  | _ => exact h

namespace PredicateText

structure ReadsAs (p : PredicateText) (r : PredicateReading) : Prop where
  body : p.binding.Holds p.body r.body
  onStep : Listed IsItem p.onStep r.onStep
  unmarked : Listed IsItem p.unmarked r.unmarked

theorem ReadsAs.bracketed {binding : Binding} {t b} (h : binding.Holds t b) :
    (PredicateText.bracketed binding t).ReadsAs (.ofBody b) :=
  have hitem : Listed IsItem ('[' :: t ++ [']']) [.body b] := .single ⟨t, rfl, h.joins.disjunction⟩
  ⟨h, hitem, hitem⟩

theorem ReadsAs.parens {p : PredicateText} {r : PredicateReading} (h : p.ReadsAs r) :
    IsOperand ('(' :: p.body ++ [')']) r.body :=
  IsDisjunction.parens h.body.joins.disjunction

theorem ReadsAs.equals {name : String} (h : isName name = true) (value : Scalar) :
    (PredicateText.equals name value).ReadsAs (.ofBody (.equals name (String.ofList value.text))) :=
  .bracketed (IsOperand.equals h value.text)

theorem ReadsAs.negated {p r} (h : ReadsAs p r) : p.negated.ReadsAs (.ofBody (.negated r.body)) :=
  .bracketed (h.body.joins.negatedOperand h.parens).negated

theorem ReadsAs.either {p q r s} (hp : ReadsAs p r) (hq : ReadsAs q s) :
    (p.either q).ReadsAs (.ofBody (r.body.or s.body)) :=
  .bracketed ((hp.body.joins.orOperand hp.parens).append Body.or_assoc (hq.body.joins.orOperand hq.parens))

theorem ReadsAs.optional {p r} (h : ReadsAs p r) : p.optional.ReadsAs r.optional :=
  ⟨h.body, h.unmarked.append (.single rfl), h.unmarked⟩

theorem ReadsAs.conjunctionOfAll {ps : List PredicateText} {rs : List PredicateReading}
    (h : List.Forall₂ ReadsAs ps rs) (hne : ps ≠ []) :
    IsConjunction (List.intercalate " and ".toList (ps.map (·.operand [.tight, .conjunction])))
      (.all (rs.map (·.body))) := by
  have hoperands : List.Forall₂ IsConjunction (ps.map (·.operand [.tight, .conjunction])) (rs.map (·.body)) := by
    rw [List.forall₂_map_left_iff, List.forall₂_map_right_iff]
    exact h.imp fun p r hp => hp.body.joins.andOperand hp.parens
  exact Joined.intercalate Body.and_assoc Body.all (fun _ => rfl) (fun _ _ _ => rfl) hoperands (by simpa using hne)

theorem ReadsAs.itemsOfAll {ps : List PredicateText} {rs : List PredicateReading}
    (h : List.Forall₂ ReadsAs ps rs) :
    Listed IsItem (ps.flatMap (·.onStep)) (rs.flatMap (·.onStep)) := by
  induction h with
  | nil => exact .nil
  | cons hp _ ih => exact hp.onStep.append ih

theorem ReadsAs.every {ps : List PredicateText} {rs : List PredicateReading}
    (h : List.Forall₂ ReadsAs ps rs) (hne : ps ≠ []) :
    (PredicateText.every ps).ReadsAs (.every rs) :=
  ⟨conjunctionOfAll h hne, itemsOfAll h, itemsOfAll h⟩

end PredicateText

mutual

theorem Step.reads (relation : Option String) :
    (s : Step) → s.isPlain = true → IsStep relation s.chars (s.segments relation)
  | ⟨tag, predicates, matched⟩, h => by
    simp only [Step.isPlain, Bool.and_eq_true] at h
    obtain ⟨⟨htag, hpredicates⟩, hmatched⟩ := h
    have hitems := PredicateText.ReadsAs.itemsOfAll (Predicate.readsAll predicates hpredicates)
    have hfirst : IsSegment _ ⟨relation, tag, _⟩ := ⟨htag, _, rfl, hitems⟩
    exact .mk hfirst (Relation.readsAll matched hmatched)

theorem Relation.reads : (r : Relation) → r.isPlain = true → Listed IsRelated ('/' :: r.chars) r.segments
  | ⟨name, step⟩, h => by
    simp only [Relation.isPlain, Bool.and_eq_true] at h
    exact (Step.reads (some name) step h.2).related h.1

theorem Relation.readsAll : (rs : List Relation) → Relation.allPlain rs = true →
    Listed IsRelated (Relation.continuations rs) (Relation.segmentsOfAll rs)
  | [], _ => .nil
  | r :: rest, h => by
    simp only [Relation.allPlain, Bool.and_eq_true] at h
    exact (Relation.reads r h.1).append (Relation.readsAll rest h.2)

theorem Predicate.reads : (p : Predicate) → p.isPlain = true → p.written.ReadsAs p.reading
  | .equals name value, h => .equals h value
  | .related r, h => .bracketed (IsOperand.path (Relation.reads r h))
  | .negated p, h => (Predicate.reads p h).negated
  | .either p q, h => by
    simp only [Predicate.isPlain, Bool.and_eq_true] at h
    exact (Predicate.reads p h.1).either (Predicate.reads q h.2)
  | .every ps, h => by
    simp only [Predicate.isPlain, Bool.and_eq_true, Bool.not_eq_true', List.isEmpty_eq_false_iff] at h
    refine .every (Predicate.readsAll ps h.2) ?_
    cases ps with
    | nil => exact absurd rfl h.1
    | cons p rest => simp [Predicate.writtenAll]
  | .optional p, h => (Predicate.reads p h).optional
  | .custom _, h => by simp [Predicate.isPlain] at h

theorem Predicate.readsAll : (ps : List Predicate) → Predicate.allPlain ps = true →
    List.Forall₂ PredicateText.ReadsAs (Predicate.writtenAll ps) (Predicate.readings ps)
  | [], _ => .nil
  | p :: rest, h => by
    simp only [Predicate.allPlain, Bool.and_eq_true] at h
    exact .cons (Predicate.reads p h.1) (Predicate.readsAll rest h.2)

end

/-- The reader takes the whole text of a plain step and returns the step's
segments. -/
theorem Step.read?_text {s : Step} (h : s.isPlain = true) : read? s.text = some (s.segments none) :=
  (Step.reads none s h).read

/-- A build whose title holds a quote, not of a repository that is closed or
called `]`, and with commits to match. -/
def Step.titledBuild : Step where
  tag := "Build"
  predicates :=
    [.optional (.every [.equals "title" (.string "it's"),
      .negated (.related ⟨"repo", ⟨"Repo", [.either (.equals "closed" (.bool true))
        (.every [.optional (.equals "name" (.string "]"))])], []⟩⟩)])]
  matched := [⟨"commits", ⟨"Commit", [], []⟩⟩]

theorem Step.read?_text_titledBuild :
    Step.titledBuild.isPlain = true ∧
      read? Step.titledBuild.text =
        some [⟨none, "Build", [.body (.equals "title" "it's"),
            .body (.negated (.path [⟨some "repo", "Repo",
              [.body (.any [.equals "closed" "true", .equals "name" "]"])]⟩])), .mark]⟩,
          ⟨some "commits", "Commit", []⟩] :=
  ⟨by decide, Step.read?_text (by decide)⟩

end QueryByExample
