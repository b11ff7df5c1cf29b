/-
Raw text in place of predicates.

Raw text takes part in other predicates by the bodies of its bracketed
predicates, each of which is taken for an operand or not by its blanks. So the
text that predicates have on a step can stand for them: it is split into their
bodies, and in another predicate it comes to the same as their conjunction
(`Predicate.truth?_fill_custom`). Only optional predicates must not be among
them, for their marks stand outside all brackets.
-/
import QueryByExample.Proofs.Path.Brackets
import QueryByExample.Proofs.Path.Truth
import QueryByExample.Proofs.Path.Values

namespace QueryByExample

mutual

/-- The predicates that a predicate is on a step: those of its operands, if it
is a conjunction. -/
def Predicate.conjuncts : Predicate → List Predicate
  | .every ps => Predicate.conjunctsOfAll ps
  | p => [p]

def Predicate.conjunctsOfAll : List Predicate → List Predicate
  | [] => []
  | p :: rest => p.conjuncts ++ Predicate.conjunctsOfAll rest

end

def Predicate.isOptional : Predicate → Bool
  | .optional _ => true
  | _ => false

/-- A predicate that is a body in brackets on a step. -/
def Predicate.isSingle : Predicate → Bool
  | .equals .. | .related _ | .negated _ | .either .. => true
  | _ => false

mutual

theorem Predicate.onStep_eq_flatMap : (p : Predicate) → p.written.onStep = p.conjuncts.flatMap (·.written.onStep)
  | .every ps => Predicate.onStepOfAll_eq_flatMap ps
  | .equals .. | .related _ | .negated _ | .either .. | .optional _ | .custom _ => by
    rw [Predicate.conjuncts, List.flatMap_singleton]
    -- Left is that none of these is a conjunction.
    all_goals simp

theorem Predicate.onStepOfAll_eq_flatMap : (ps : List Predicate) →
    (Predicate.writtenAll ps).flatMap (·.onStep) = (Predicate.conjunctsOfAll ps).flatMap (·.written.onStep)
  | [] => rfl
  | p :: rest => by
    rw [Predicate.writtenAll, Predicate.conjunctsOfAll, List.flatMap_cons, List.flatMap_append,
      Predicate.onStep_eq_flatMap p, Predicate.onStepOfAll_eq_flatMap rest]

end

mutual

theorem Predicate.truth_eq_all (v : String → Bool) : (p : Predicate) → p.truth v = p.conjuncts.all (·.truth v)
  | .every ps => Predicate.truths_all v ps
  | .equals .. | .related _ | .negated _ | .either .. | .optional _ | .custom _ => by
    rw [Predicate.conjuncts, List.all_cons, List.all_nil, Bool.and_true]
    all_goals simp

theorem Predicate.truths_all (v : String → Bool) : (ps : List Predicate) →
    (Predicate.truths v ps).all id = (Predicate.conjunctsOfAll ps).all (·.truth v)
  | [] => rfl
  | p :: rest => by
    rw [Predicate.truths, List.all_cons, Predicate.conjunctsOfAll, List.all_append, id, Predicate.truth_eq_all v p,
      Predicate.truths_all v rest]

end

mutual

theorem Predicate.isPlain_of_mem_conjuncts : (p : Predicate) → p.isPlain = true →
    ∀ q ∈ p.conjuncts, q.isPlain = true ∧ (q.isOptional = false → q.isSingle = true)
  | .every ps, h => by
    simp only [Predicate.isPlain, Bool.and_eq_true] at h
    exact Predicate.isPlain_of_mem_conjunctsOfAll ps h.2
  | .equals .., h | .related _, h | .negated _, h | .either .., h => fun _ hq =>
    List.mem_singleton.1 hq ▸ ⟨h, fun _ => rfl⟩
  | .optional _, h => fun _ hq => List.mem_singleton.1 hq ▸ ⟨h, nofun⟩
  | .custom _, h => by cases h

theorem Predicate.isPlain_of_mem_conjunctsOfAll : (ps : List Predicate) → Predicate.allPlain ps = true →
    ∀ q ∈ Predicate.conjunctsOfAll ps, q.isPlain = true ∧ (q.isOptional = false → q.isSingle = true)
  | [], _ => by simp [Predicate.conjunctsOfAll]
  | p :: rest, h => by
    simp only [Predicate.allPlain, Bool.and_eq_true] at h
    exact List.forall_mem_append.2
      ⟨Predicate.isPlain_of_mem_conjuncts p h.1, Predicate.isPlain_of_mem_conjunctsOfAll rest h.2⟩

end

mutual

theorem Predicate.conjuncts_ne_nil : (p : Predicate) → p.isPlain = true → p.conjuncts ≠ []
  | .every ps, h => by
    simp only [Predicate.isPlain, Bool.and_eq_true, Bool.not_eq_true', List.isEmpty_eq_false_iff] at h
    exact Predicate.conjunctsOfAll_ne_nil ps h.2 h.1
  | .equals .., _ | .related _, _ | .negated _, _ | .either .., _ | .optional _, _ => List.cons_ne_nil _ _

theorem Predicate.conjunctsOfAll_ne_nil : (ps : List Predicate) → Predicate.allPlain ps = true → ps ≠ [] →
    Predicate.conjunctsOfAll ps ≠ []
  | p :: rest, h, _ => by
    simp only [Predicate.allPlain, Bool.and_eq_true] at h
    exact List.append_ne_nil_of_left_ne_nil (Predicate.conjuncts_ne_nil p h.1) _

end

section Single
variable {p : Predicate}

theorem Predicate.onStep_of_isSingle (h : p.isSingle = true) : p.written.onStep = '[' :: p.written.body ++ [']'] := by
  cases p with
  | equals | related | negated | either => rfl
  | every | optional | custom => cases h

/-- A body without blanks is tight: only a disjunction is not, and that has
blanks around its `or`. -/
theorem Predicate.binding_of_isSingle (h : p.isSingle = true) (hplain : p.isPlain = true)
    (hblank : Bracketed.hasBlank p.written.body = false) : p.written.binding = .tight := by
  cases p with
  | equals | related | negated => rfl
  | either p q =>
    simp only [Predicate.isPlain, Bool.and_eq_true] at hplain
    have hside := (Predicate.isBalanced p hplain.1).operand [.tight, .disjunction]
    have hor (rest : List Char) : Bracketed.hasBlank (" or ".toList ++ rest) = true := rfl
    change Bracketed.hasBlank (_ ++ " or ".toList ++ _) = false at hblank
    rw [List.append_assoc, Bracketed.hasBlank_append hside, hor, Bool.or_true] at hblank
    cases hblank
  | every | optional | custom => cases h

/-- The body is read as raw text with the truth of the predicate. -/
theorem Predicate.means_ofBody (v : String → Bool) (h : p.isSingle = true) (hplain : p.isPlain = true) :
    (PredicateText.ofBody p.written.body).Means v (p.truth v) := by
  have hmeans := Predicate.means v p hplain
  rw [PredicateText.ofBody]
  split
  next => exact Binding.Joins.disjunction hmeans
  next hblank =>
    rw [PredicateText.Means, Predicate.binding_of_isSingle h hplain (by simpa using hblank)] at hmeans
    exact hmeans

end Single

/-- Raw text whose bodies have truth values is read as their conjunction. -/
theorem PredicateText.Means.custom {v : String → Bool} {text : List Char} {bs : List Bool}
    (h : List.Forall₂ (fun body b => (PredicateText.ofBody body).Means v b) (Bracketed.bodies text) bs) :
    (PredicateText.custom text).Means v (bs.all id) := by
  have hne := Bracketed.bodies_ne_nil text
  unfold PredicateText.custom
  generalize Bracketed.bodies text = bodies at h hne
  cases h with
  | nil => exact absurd rfl hne
  | @cons body b bodies bs hbody hbodies =>
    cases hbodies with
    | nil =>
      rw [List.all_cons, List.all_nil, Bool.and_true]
      exact hbody
    | @cons body' b' bodies bs hbody' hbodies =>
      have hall : List.Forall₂ (Means v) ((body :: body' :: bodies).map ofBody) (b :: b' :: bs) :=
        List.forall₂_map_left_iff.2 (.cons hbody (.cons hbody' hbodies))
      exact Means.every hall (List.cons_ne_nil _ _)

/-- A predicate with a hole in it, under any negations, disjunctions,
conjunctions and optional predicates. -/
inductive Predicate.Context where
  | hole
  | negated (inner : Context)
  | left (inner : Context) (other : Predicate)
  | right (other : Predicate) (inner : Context)
  | every (before : List Predicate) (inner : Context) (after : List Predicate)
  | optional (inner : Context)

namespace Predicate.Context

def fill (p : Predicate) : Context → Predicate
  | .hole => p
  | .negated c => .negated (c.fill p)
  | .left c q => .either (c.fill p) q
  | .right q c => .either q (c.fill p)
  | .every before c after => .every (before ++ c.fill p :: after)
  | .optional c => .optional (c.fill p)

/-- What stands beside the hole is plain. -/
def isPlain : Context → Bool
  | .hole => true
  | .negated c => c.isPlain
  | .left c q => c.isPlain && q.isPlain
  | .right q c => q.isPlain && c.isPlain
  | .every before c after => Predicate.allPlain before && c.isPlain && Predicate.allPlain after
  | .optional c => c.isPlain

end Predicate.Context

theorem Predicate.truths_append (v : String → Bool) (ps qs : List Predicate) :
    Predicate.truths v (ps ++ qs) = Predicate.truths v ps ++ Predicate.truths v qs := by
  induction ps with
  | nil => rfl
  | cons p ps ih => rw [List.cons_append, truths, ih, truths, List.cons_append]

/-- A text that is read with the truth of a predicate can stand for it
anywhere. -/
theorem Predicate.Context.means {v : String → Bool} {p q : Predicate} (h : p.written.Means v (q.truth v)) :
    (c : Context) → c.isPlain = true → (c.fill p).written.Means v ((c.fill q).truth v)
  | .hole, _ => h
  | .negated c, hc => (means h c hc).negated
  | .left c other, hc => by
    simp only [isPlain, Bool.and_eq_true] at hc
    exact (means h c hc.1).either (Predicate.means v other hc.2)
  | .right other c, hc => by
    simp only [isPlain, Bool.and_eq_true] at hc
    exact (Predicate.means v other hc.1).either (means h c hc.2)
  | .every before c after, hc => by
    simp only [isPlain, Bool.and_eq_true] at hc
    obtain ⟨⟨hbefore, hinner⟩, hafter⟩ := hc
    have hall := List.rel_append (Predicate.allMean v before hbefore)
      (.cons (means h c hinner) (Predicate.allMean v after hafter))
    rw [fill, fill, Predicate.written, Predicate.truth, Predicate.writtenAll_append, Predicate.truths_append]
    exact .every hall (by simp [Predicate.writtenAll])
  | .optional c, hc => means h c hc

/-- The texts of predicates on a step, one after the other. -/
theorem Predicate.toList_join_text (ps : List Predicate) :
    (String.join (ps.map Predicate.text)).toList = (Predicate.conjunctsOfAll ps).flatMap (·.written.onStep) := by
  rw [← Predicate.onStepOfAll_eq_flatMap, String.toList_join]
  induction ps with
  | nil => rfl
  | cons p ps ih =>
    rw [List.map_cons, List.flatMap_cons, ih, Predicate.text, String.toList_ofList, Predicate.writtenAll,
      List.flatMap_cons]

section Conjuncts
variable {ps : List Predicate} (hne : ps ≠ []) (hplain : Predicate.allPlain ps = true)
  (hmarks : ∀ p ∈ Predicate.conjunctsOfAll ps, p.isOptional = false)
include hne hplain hmarks

theorem Predicate.bodies_join_text : Bracketed.bodies (String.join (ps.map Predicate.text)).toList =
    (Predicate.conjunctsOfAll ps).map (·.written.body) := by
  have hconjuncts := Predicate.isPlain_of_mem_conjunctsOfAll ps hplain
  have henclosed : (Predicate.conjunctsOfAll ps).flatMap (·.written.onStep) =
      ((Predicate.conjunctsOfAll ps).map (·.written.body)).flatMap fun body => '[' :: body ++ [']'] := by
    rw [List.flatMap_map]
    exact List.flatMap_congr fun p hp => Predicate.onStep_of_isSingle ((hconjuncts p hp).2 (hmarks p hp))
  have hbalanced : ∀ body ∈ (Predicate.conjunctsOfAll ps).map (·.written.body), Bracketed.IsBalanced body :=
    List.forall_mem_map.2 fun p hp => (Predicate.isBalanced p (hconjuncts p hp).1).body
  rw [Predicate.toList_join_text, henclosed]
  exact Bracketed.bodies_enclosed (by simpa using Predicate.conjunctsOfAll_ne_nil ps hplain hne) hbalanced

/-- The texts as raw text are read with the truth of the conjunction. -/
theorem Predicate.means_custom_join_text (v : String → Bool) :
    (Predicate.custom (String.join (ps.map Predicate.text))).written.Means v ((Predicate.every ps).truth v) := by
  have hconjuncts := Predicate.isPlain_of_mem_conjunctsOfAll ps hplain
  have hall : List.Forall₂ (fun body b => (PredicateText.ofBody body).Means v b)
      ((Predicate.conjunctsOfAll ps).map (·.written.body)) ((Predicate.conjunctsOfAll ps).map (·.truth v)) := by
    rw [List.forall₂_map_left_iff, List.forall₂_map_right_iff, List.forall₂_same]
    intro p hp
    obtain ⟨hpPlain, hsingle⟩ := hconjuncts p hp
    exact Predicate.means_ofBody v (hsingle (hmarks p hp)) hpPlain
  have htruth : (Predicate.every ps).truth v = ((Predicate.conjunctsOfAll ps).map (·.truth v)).all id := by
    rw [Predicate.truth_eq_all, Predicate.conjuncts, List.all_map]
    rfl
  rw [← Predicate.bodies_join_text hne hplain hmarks] at hall
  rw [htruth]
  exact .custom hall

end Conjuncts

/-- **Raw text nests as its conjunction.** The text of plain predicates on a
step, without marks, is split into their bodies; and it can stand for their
conjunction anywhere in a plain predicate: under every assignment to the atoms
the two have the same truth, that of the predicate with the conjunction. -/
theorem Predicate.truth?_fill_custom {ps : List Predicate} (hne : ps ≠ []) (hplain : Predicate.allPlain ps = true)
    (hmarks : ∀ p ∈ Predicate.conjunctsOfAll ps, p.isOptional = false) :
    let text := String.join (ps.map Predicate.text)
    Bracketed.bodies text.toList = (Predicate.conjunctsOfAll ps).map (·.written.body) ∧
      ∀ c : Context, c.isPlain = true → ∀ v : String → Bool,
        Reading.truth? v (c.fill (.custom text)).bodyText = some ((c.fill (.every ps)).truth v) ∧
          Reading.truth? v (c.fill (.every ps)).bodyText = some ((c.fill (.every ps)).truth v) := by
  intro text
  refine ⟨Predicate.bodies_join_text hne hplain hmarks, fun c hc v => ⟨?_, ?_⟩⟩
  · exact (Context.means (Predicate.means_custom_join_text hne hplain hmarks v) c hc).truth?
  · have hevery : (Predicate.every ps).isPlain = true := by
      simpa [Predicate.isPlain, hplain] using hne
    exact (Context.means (Predicate.means v (.every ps) hevery) c hc).truth?

/-- What is asked of a build: a title, not being a draft, and a repository. -/
def Predicate.finished : List Predicate :=
  [.every [.equals "title" (.string "it's [done]"), .negated (.equals "draft" (.bool true))],
    .related ⟨"repo", ⟨"Repo",
      [.either (.equals "name" (.string "]")) (.optional (.equals "closed" (.bool true)))], []⟩⟩]

/-- As raw text, bodies with blanks come in parentheses. -/
theorem Predicate.truth?_fill_custom_finished :
    let text := "[@title='it\\'s [done]'][not @draft='true'][/repo::Repo()[@name=']' or @closed='true']]"
    let context := Context.negated (.left .hole (.equals "open" (.bool true)))
    (finished ≠ [] ∧ allPlain finished = true ∧ ∀ p ∈ conjunctsOfAll finished, p.isOptional = false) ∧
      Bracketed.bodies text.toList = ["@title='it\\'s [done]'".toList, "not @draft='true'".toList,
        "/repo::Repo()[@name=']' or @closed='true']".toList] ∧
      (context.fill (.custom text)).bodyText = "not ((@title='it\\'s [done]' and (not @draft='true') and " ++
        "(/repo::Repo()[@name=']' or @closed='true'])) or @open='true')" ∧
      (context.fill (.every finished)).bodyText = "not ((@title='it\\'s [done]' and not @draft='true' and " ++
        "/repo::Repo()[@name=']' or @closed='true']) or @open='true')" ∧
      ∀ v,
        Reading.truth? v (context.fill (.custom text)).bodyText = some ((context.fill (.every finished)).truth v) ∧
        Reading.truth? v (context.fill (.every finished)).bodyText =
          some ((context.fill (.every finished)).truth v) := by
  intro text context
  have hne : finished ≠ [] := List.cons_ne_nil _ _
  have hplain : allPlain finished = true := by decide
  have hmarks : ∀ p ∈ conjunctsOfAll finished, p.isOptional = false := by decide
  have htext : String.join (finished.map Predicate.text) = text := by decide +kernel
  have hfill := truth?_fill_custom hne hplain hmarks
  rw [htext] at hfill
  obtain ⟨hbodies, htruth⟩ := hfill
  exact ⟨⟨hne, hplain, hmarks⟩, hbodies, by decide +kernel, by decide +kernel, htruth context rfl⟩

end QueryByExample
