/-
Texts whose brackets balance, and the bodies of bracketed texts.

A reader of bodies keeps two things in mind: how it stands with regard to
quoted values, and how many brackets are open. `scan?` tells both for the end
of a text, and a text is balanced when it leaves them as they were. The texts
of plain predicates are (`Predicate.isBalanced`): where a reader comes upon
one, it takes it whole. So a sequence of balanced texts in brackets is read as
these texts (`bodies_enclosed`).
-/
import QueryByExample.Path.Text
import QueryByExample.Proofs.Path.Grammar
import QueryByExample.Proofs.Path.Segments

namespace QueryByExample
namespace Bracketed
open Reading

/-- The quoting and the number of open brackets at the end of a text; nothing
if a bracket closes that was not opened. -/
def scan? : Quoting → Nat → List Char → Option (Quoting × Nat)
  | q, depth, [] => some (q, depth)
  | q, depth, c :: rest =>
    if q.covers c then scan? (q.after c) depth rest
    else if c = '[' then scan? q (depth + 1) rest
    else if c = ']' then
      match depth with
      | 0 => none
      | depth + 1 => scan? q depth rest
    else scan? q depth rest

theorem Quoting.eq_outside_of_not_covers {q : Quoting} {c : Char} (h : q.covers c = false) : q = .outside := by
  cases q <;> simp [covers] at h ⊢

-- One character, to a scan and to a reader that is inside of a predicate.
section Character
variable {q : Quoting} {depth : Nat} {seen rest : List Char} {c : Char}

theorem scan?_quoted (h : q.covers c = true) : scan? q depth (c :: rest) = scan? (q.after c) depth rest := by
  rw [scan?.eq_def]
  exact if_pos h

theorem body?_quoted (h : q.covers c = true) :
    body? q depth seen (c :: rest) = body? (q.after c) depth (c :: seen) rest := by
  rw [body?.eq_def]
  exact if_pos h

theorem scan?_opening (h : q.covers '[' = false) : scan? q depth ('[' :: rest) = scan? q (depth + 1) rest := by
  rw [scan?.eq_def]
  exact if_neg (by simp [h])

theorem body?_opening (h : q.covers '[' = false) :
    body? q depth seen ('[' :: rest) = body? q (depth + 1) ('[' :: seen) rest := by
  rw [body?.eq_def]
  exact if_neg (by simp [h])

theorem scan?_closing_inner (h : q.covers ']' = false) : scan? q (depth + 1) (']' :: rest) = scan? q depth rest := by
  rw [scan?.eq_def]
  exact if_neg (by simp [h])

theorem body?_closing_inner (h : q.covers ']' = false) :
    body? q (depth + 1) seen (']' :: rest) = body? q depth (']' :: seen) rest := by
  rw [body?.eq_def]
  exact if_neg (by simp [h])

theorem scan?_closing (h : q.covers ']' = false) : scan? q 0 (']' :: rest) = none := by
  rw [scan?.eq_def]
  exact if_neg (by simp [h])

theorem body?_closing (h : q.covers ']' = false) :
    body? q 0 seen (']' :: rest) = (sequence? rest).map (seen.reverse :: ·) := by
  rw [body?.eq_def]
  exact if_neg (by simp [h])

theorem scan?_plain (h : q.covers c = false) (hopening : c ≠ '[') (hclosing : c ≠ ']') :
    scan? q depth (c :: rest) = scan? q depth rest := by
  rw [scan?.eq_def]
  simp only [h, Bool.false_eq_true, if_false, hopening, hclosing]

theorem body?_plain (h : q.covers c = false) (hopening : c ≠ '[') (hclosing : c ≠ ']') :
    body? q depth seen (c :: rest) = body? q depth (c :: seen) rest := by
  rw [body?.eq_def]
  simp only [h, Bool.false_eq_true, if_false, hopening, hclosing]

end Character

theorem scan?_append (q : Quoting) (depth : Nat) (t u : List Char) :
    scan? q depth (t ++ u) = (scan? q depth t).bind fun s => scan? s.1 s.2 u := by
  fun_induction scan? q depth t <;> simp_all [scan?]

section Scanned
variable {q q' : Quoting} {depth depth' : Nat} {t : List Char}

/-- Brackets that were open before stay open. -/
theorem scan?_add (h : scan? q depth t = some (q', depth')) (before : Nat) :
    scan? q (before + depth) t = some (q', before + depth') := by
  fun_induction scan? q depth t with
  | case4 => cases h
  | _ => simp_all [scan?, ← Nat.add_assoc]

theorem Quoting.after_eq_self {c : Char} (h : q.covers c = false) : q.after c = q := by
  cases q <;> simp_all [covers, after]

theorem quoting_of_scan? (h : scan? q depth t = some (q', depth')) : t.foldl Quoting.after q = q' := by
  fun_induction scan? q depth t <;> simp_all [Quoting.after_eq_self]

/-- A reader of bodies goes on after the text as the scan ended. -/
theorem body?_of_scan? (h : scan? q depth t = some (q', depth')) (seen rest : List Char) :
    body? q depth seen (t ++ rest) = body? q' depth' (t.reverse ++ seen) rest := by
  fun_induction scan? q depth t generalizing seen <;> simp_all [body?]

theorem hasBlankFrom_of_scan? (h : scan? q depth t = some (q', depth')) (rest : List Char) :
    hasBlankFrom q (t ++ rest) = (hasBlankFrom q t || hasBlankFrom q' rest) := by
  fun_induction scan? q depth t <;>
    simp_all [hasBlankFrom, Bool.or_assoc, Quoting.after_eq_self]

end Scanned

/-- Outside quoted values no bracket closes that was not opened and all that
were opened are closed, and so is the last quoted value. -/
def IsBalanced (t : List Char) : Prop := scan? .outside 0 t = some (.outside, 0)

namespace IsBalanced
variable {t u : List Char}

theorem scan? (h : IsBalanced t) (depth : Nat) : scan? .outside depth t = some (.outside, depth) :=
  scan?_add h depth

theorem nil : IsBalanced [] := rfl

theorem append (ht : IsBalanced t) (hu : IsBalanced u) : IsBalanced (t ++ u) := by
  rw [IsBalanced, scan?_append, ht, Option.bind_some, hu]

/-- The text in brackets. -/
theorem enclosed (h : IsBalanced t) : IsBalanced ('[' :: t ++ [']']) := by
  change Bracketed.scan? .outside 1 (t ++ [']']) = _
  rw [scan?_append, h.scan? 1]
  rfl

theorem of_all (h : t.all (fun c => !(['\'', '[', ']'].contains c)) = true) : IsBalanced t := by
  induction t with
  | nil => rfl
  | cons c t ih =>
    simp only [List.all_cons, Bool.and_eq_true] at h
    have hc := h.1
    simp only [List.contains_cons, List.contains_nil, Bool.or_false, Bool.not_eq_true', Bool.or_eq_false_iff,
      beq_eq_false_iff_ne] at hc
    have ht := ih h.2
    simp_all [IsBalanced, Bracketed.scan?, Quoting.covers]

theorem name {s : String} (h : isName s = true) : IsBalanced s.toList := by
  simp only [isName, Bool.and_eq_true] at h
  refine of_all (List.all_eq_true.2 fun c hc => ?_)
  have hchar := List.all_eq_true.1 h.2 c hc
  simp only [isNameChar, Bool.and_eq_true, Bool.not_eq_true', ← Bool.not_eq_true] at hchar ⊢
  simp_all

/-- A value between quotes. -/
theorem quoted (value : List Char) : IsBalanced ('\'' :: escaped value ++ ['\'']) := by
  change Bracketed.scan? .inside 0 (escaped value ++ ['\'']) = _
  induction value with
  | nil => rfl
  | cons c value ih =>
    rw [escaped, List.flatMap_cons] at *
    by_cases h : c = '\'' ∨ c = '\\'
    · rw [if_pos h]
      exact ih
    · rw [if_neg h]
      simp_all [Bracketed.scan?, Quoting.covers, Quoting.after]

theorem flatMap {α : Type} {f : α → List Char} {l : List α} (h : ∀ a ∈ l, IsBalanced (f a)) :
    IsBalanced (l.flatMap f) := by
  induction l with
  | nil => exact nil
  | cons a l ih =>
    rw [List.forall_mem_cons] at h
    rw [List.flatMap_cons]
    exact h.1.append (ih h.2)

theorem intercalate {separator : List Char} {ts : List (List Char)} (hseparator : IsBalanced separator)
    (h : ∀ t ∈ ts, IsBalanced t) : IsBalanced (List.intercalate separator ts) := by
  induction ts with
  | nil => exact nil
  | cons t ts ih =>
    rw [List.forall_mem_cons] at h
    cases ts with
    | nil => simpa using h.1
    | cons u ts =>
      rw [List.intercalate_cons_cons]
      exact (h.1.append hseparator).append (ih h.2)

end IsBalanced

theorem bodies_ne_nil (text : List Char) : bodies text ≠ [] := by
  rw [bodies]
  split <;> exact List.cons_ne_nil _ _

theorem sequence?_enclosed {body : List Char} (h : IsBalanced body) (rest : List Char) :
    sequence? ('[' :: body ++ ']' :: rest) = (sequence? rest).map (body :: ·) := by
  rw [List.cons_append, sequence?, if_pos rfl, body?_of_scan? h, body?]
  simp [Quoting.covers]

/-- A sequence of bracketed predicates is read as their bodies. -/
theorem bodies_enclosed {bs : List (List Char)} (hne : bs ≠ []) (h : ∀ body ∈ bs, IsBalanced body) :
    bodies (bs.flatMap fun body => '[' :: body ++ [']']) = bs := by
  have hsequence : sequence? (bs.flatMap fun body => '[' :: body ++ [']']) = some bs := by
    clear hne
    induction bs with
    | nil => rw [List.flatMap_nil, sequence?]
    | cons body bs ih =>
      rw [List.forall_mem_cons] at h
      rw [List.flatMap_cons, List.append_assoc, List.singleton_append, sequence?_enclosed h.1, ih h.2, Option.map_some]
  rw [bodies, hsequence]
  cases bs with
  | nil => exact absurd rfl hne
  | cons body bs => rfl

/-- A blank stands in the balanced beginning of a text or after it. -/
theorem hasBlank_append {t : List Char} (h : IsBalanced t) (rest : List Char) :
    hasBlank (t ++ rest) = (hasBlank t || hasBlank rest) :=
  hasBlankFrom_of_scan? h rest

end Bracketed

namespace PredicateText
open Reading
open Bracketed (IsBalanced)

/-- Balanced in all three places. -/
structure Balanced (p : PredicateText) : Prop where
  body : IsBalanced p.body
  onStep : IsBalanced p.onStep
  unmarked : IsBalanced p.unmarked

namespace Balanced
variable {p q : PredicateText} {ps : List PredicateText}

theorem bracketed {binding : Binding} {body : List Char} (h : IsBalanced body) :
    (PredicateText.bracketed binding body).Balanced :=
  ⟨h, h.enclosed, h.enclosed⟩

theorem operand (h : p.Balanced) (held : List Binding) : IsBalanced (p.operand held) := by
  rw [PredicateText.operand]
  split
  · exact h.body
  · have hopen : IsBalanced ['('] := rfl
    have hclose : IsBalanced [')'] := rfl
    exact (hopen.append h.body).append hclose

theorem equals {name : String} (h : isName name = true) (value : Scalar) :
    (PredicateText.equals name value).Balanced := by
  have hat : IsBalanced ['@'] := rfl
  have hequals : IsBalanced ['='] := rfl
  have htext := ((hat.append (.name h)).append hequals).append (.quoted value.text)
  exact bracketed (by simpa [escaped] using htext)

theorem negated (h : p.Balanced) : p.negated.Balanced :=
  have hnot : IsBalanced "not ".toList := rfl
  bracketed (hnot.append (h.operand _))

theorem either (hp : p.Balanced) (hq : q.Balanced) : (p.either q).Balanced :=
  have hor : IsBalanced " or ".toList := rfl
  bracketed (((hp.operand _).append hor).append (hq.operand _))

theorem every (h : ∀ p ∈ ps, p.Balanced) : (PredicateText.every ps).Balanced := by
  have hand : IsBalanced " and ".toList := rfl
  have honStep : IsBalanced (ps.flatMap (·.onStep)) := .flatMap fun p hp => (h p hp).onStep
  exact ⟨.intercalate hand (List.forall_mem_map.2 fun p hp => (h p hp).operand _), honStep, honStep⟩

theorem optional (h : p.Balanced) : p.optional.Balanced :=
  have hmark : IsBalanced ['?'] := rfl
  ⟨h.body, h.unmarked.append hmark, h.unmarked⟩

end Balanced
end PredicateText

section Plain
open Bracketed (IsBalanced)

mutual

theorem Step.isBalanced : (s : Step) → s.isPlain = true → IsBalanced s.chars
  | ⟨tag, predicates, matched⟩, h => by
    simp only [Step.isPlain, Bool.and_eq_true] at h
    obtain ⟨⟨htag, hpredicates⟩, hmatched⟩ := h
    have hcall : IsBalanced "()".toList := rfl
    have hitems := IsBalanced.flatMap fun p hp => (Predicate.allBalanced predicates hpredicates p hp).onStep
    exact (((IsBalanced.name htag).append hcall).append hitems).append (Relation.allBalanced matched hmatched)

theorem Relation.isBalanced : (r : Relation) → r.isPlain = true → IsBalanced ('/' :: r.chars)
  | ⟨name, step⟩, h => by
    simp only [Relation.isPlain, Bool.and_eq_true] at h
    have hslash : IsBalanced ['/'] := rfl
    have hcolons : IsBalanced "::".toList := rfl
    exact hslash.append (((IsBalanced.name h.1).append hcolons).append (Step.isBalanced step h.2))

theorem Relation.allBalanced : (rs : List Relation) → Relation.allPlain rs = true →
    IsBalanced (Relation.continuations rs)
  | [], _ => .nil
  | r :: rest, h => by
    simp only [Relation.allPlain, Bool.and_eq_true] at h
    exact (Relation.isBalanced r h.1).append (Relation.allBalanced rest h.2)

theorem Predicate.isBalanced : (p : Predicate) → p.isPlain = true → p.written.Balanced
  | .equals _ value, h => .equals h value
  | .related r, h => .bracketed (Relation.isBalanced r h)
  | .negated p, h => (Predicate.isBalanced p h).negated
  | .either p q, h => by
    simp only [Predicate.isPlain, Bool.and_eq_true] at h
    exact (Predicate.isBalanced p h.1).either (Predicate.isBalanced q h.2)
  | .every ps, h => by
    simp only [Predicate.isPlain, Bool.and_eq_true] at h
    exact .every (Predicate.allBalanced ps h.2)
  | .optional p, h => (Predicate.isBalanced p h).optional
  | .custom _, h => by cases h

theorem Predicate.allBalanced : (ps : List Predicate) → Predicate.allPlain ps = true →
    ∀ p ∈ Predicate.writtenAll ps, p.Balanced
  | [], _ => by simp [Predicate.writtenAll]
  | p :: rest, h => by
    simp only [Predicate.allPlain, Bool.and_eq_true] at h
    exact List.forall_mem_cons.2 ⟨Predicate.isBalanced p h.1, Predicate.allBalanced rest h.2⟩

end

end Plain

end QueryByExample
