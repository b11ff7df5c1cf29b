/-
One value in a path expression.

When the value of one equality changes and nothing else does, the text of a
step stays the same before and after this equality (`VariesOnlyAt`), however
deep in the conditions and matches of the step the equality is.
-/
import QueryByExample.Path.Text

namespace QueryByExample

theorem Predicate.writtenAll_append (ps qs : List Predicate) :
    Predicate.writtenAll (ps ++ qs) = Predicate.writtenAll ps ++ Predicate.writtenAll qs := by
  induction ps with
  | nil => rfl
  | cons p ps ih => rw [List.cons_append, writtenAll, ih, writtenAll, List.cons_append]

theorem Relation.continuations_append (rs ss : List Relation) :
    Relation.continuations (rs ++ ss) = Relation.continuations rs ++ Relation.continuations ss := by
  induction rs with
  | nil => rfl
  | cons r rs ih =>
    rw [List.cons_append, continuations, ih, continuations]
    simp only [List.cons_append, List.append_assoc]

/-- For all values the texts are the same, but for one equality of that name
with the value in it. -/
def VariesOnlyAt (name : String) (text : Scalar → List Char) : Prop :=
  ∃ before after, ∀ value, text value = before ++ (Predicate.equals name value).written.onStep ++ after

namespace VariesOnlyAt
variable {name : String} {text : Scalar → List Char}

theorem equality (name : String) : VariesOnlyAt name fun value => (Predicate.equals name value).written.onStep :=
  ⟨[], [], fun _ => by rw [List.nil_append, List.append_nil]⟩

theorem within (h : VariesOnlyAt name text) (before after : List Char) :
    VariesOnlyAt name fun value => before ++ (text value ++ after) := by
  obtain ⟨before', after', heq⟩ := h
  exact ⟨before ++ before', after' ++ after, fun value => by simp only [heq, List.append_assoc]⟩

theorem predicate {p : Scalar → Predicate} (h : VariesOnlyAt name fun value => (p value).written.onStep) (tag : String)
    (before after : List Predicate) (matched : List Relation) :
    VariesOnlyAt name fun value => Step.chars ⟨tag, before ++ p value :: after, matched⟩ := by
  have hwithin := h.within (tag.toList ++ "()".toList ++ (Predicate.writtenAll before).flatMap (·.onStep))
    ((Predicate.writtenAll after).flatMap (·.onStep) ++ Relation.continuations matched)
  simp only [Step.chars, Predicate.writtenAll_append, Predicate.writtenAll, List.flatMap_append, List.flatMap_cons,
    List.append_assoc] at hwithin ⊢
  exact hwithin

theorem relation {step : Scalar → Step} (h : VariesOnlyAt name fun value => (step value).chars) (relation : String) :
    VariesOnlyAt name fun value => Relation.chars ⟨relation, step value⟩ := by
  have hwithin := h.within (relation.toList ++ "::".toList) []
  simp only [List.append_nil] at hwithin
  exact hwithin

theorem condition {r : Scalar → Relation} (h : VariesOnlyAt name fun value => (r value).chars) (tag : String)
    (before after : List Predicate) (matched : List Relation) :
    VariesOnlyAt name fun value => Step.chars ⟨tag, before ++ .related (r value) :: after, matched⟩ :=
  (h.within ['[', '/'] [']']).predicate (p := fun value => .related (r value)) tag before after matched

theorem matched {r : Scalar → Relation} (h : VariesOnlyAt name fun value => (r value).chars) (tag : String)
    (predicates : List Predicate) (before after : List Relation) :
    VariesOnlyAt name fun value => Step.chars ⟨tag, predicates, before ++ r value :: after⟩ := by
  have hwithin := h.within (tag.toList ++ "()".toList ++ (Predicate.writtenAll predicates).flatMap (·.onStep) ++
    Relation.continuations before ++ ['/']) (Relation.continuations after)
  simp only [Step.chars, Relation.continuations_append, Relation.continuations, List.append_assoc,
    List.cons_append, List.nil_append] at hwithin ⊢
  exact hwithin

end VariesOnlyAt
end QueryByExample
