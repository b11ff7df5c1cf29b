/-
What the text of match continuations tells.

The continuations of a step and those of its matches stand one after the
other, so of a bare step, one of tags and matches alone, the text tells the
steps in preorder and nothing else: `text_siblings_eq_text_chain` gives two
steps with one text. What is missing is from which step each relation leaves,
that is how many leave from each step. Where that is known, or where no step
has two, the text tells the whole step (`text_eq_iff_of_isBare`).
-/
import QueryByExample.Proofs.Path.ReadBack

namespace QueryByExample
open Reading

mutual

/-- A step of tags and matches alone. -/
def Step.isBare : Step → Bool
  | ⟨tag, predicates, matched⟩ => isName tag && predicates.isEmpty && Relation.allBare matched

def Relation.allBare : List Relation → Bool
  | [] => true
  | ⟨name, step⟩ :: rest => isName name && step.isBare && Relation.allBare rest

end

mutual

/-- How many matches leave from each step, in preorder. -/
def Step.matchCounts : Step → List Nat
  | ⟨_, _, matched⟩ => matched.length :: Relation.matchCountsOfAll matched

def Relation.matchCountsOfAll : List Relation → List Nat
  | [] => []
  | ⟨_, step⟩ :: rest => step.matchCounts ++ Relation.matchCountsOfAll rest

end

mutual

theorem Step.isPlain_of_isBare : (s : Step) → s.isBare = true → s.isPlain = true
  | ⟨tag, predicates, matched⟩, h => by
    simp only [Step.isBare, Bool.and_eq_true, List.isEmpty_iff] at h
    obtain ⟨⟨htag, rfl⟩, hmatched⟩ := h
    simp [Step.isPlain, Predicate.allPlain, htag, Relation.allPlain_of_allBare matched hmatched]

theorem Relation.allPlain_of_allBare :
    (rs : List Relation) → Relation.allBare rs = true → Relation.allPlain rs = true
  | [], _ => rfl
  | ⟨name, step⟩ :: rest, h => by
    simp only [Relation.allBare, Bool.and_eq_true] at h
    simp [Relation.allPlain, Relation.isPlain, h.1.1, Step.isPlain_of_isBare step h.1.2,
      Relation.allPlain_of_allBare rest h.2]

end

def Reading.Segment.bareText (s : Segment) : List Char := s.tag.toList ++ "()".toList

/-- The text of bare segments, one after the other. -/
def Reading.bareText : List Segment → List Char
  | [] => []
  | s :: rest => s.bareText ++
      rest.flatMap fun s => '/' :: ((s.relation.getD "").toList ++ "::".toList ++ s.bareText)

mutual

theorem Step.chars_of_isBare (relation : Option String) :
    (s : Step) → s.isBare = true → s.chars = bareText (s.segments relation)
  | ⟨tag, predicates, matched⟩, h => by
    simp only [Step.isBare, Bool.and_eq_true, List.isEmpty_iff] at h
    obtain ⟨⟨-, rfl⟩, hmatched⟩ := h
    simp only [Step.chars, Step.segments, Predicate.writtenAll, List.flatMap_nil, List.append_nil,
      bareText, Segment.bareText, Relation.continuations_of_allBare matched hmatched]

theorem Relation.continuations_of_allBare :
    (rs : List Relation) → Relation.allBare rs = true → Relation.continuations rs =
      (Relation.segmentsOfAll rs).flatMap fun s =>
        '/' :: ((s.relation.getD "").toList ++ "::".toList ++ s.bareText)
  | [], _ => rfl
  | ⟨name, step⟩ :: rest, h => by
    simp only [Relation.allBare, Bool.and_eq_true] at h
    have hstep := Step.chars_of_isBare (some name) step h.1.2
    have hrest := Relation.continuations_of_allBare rest h.2
    cases step
    simp only [Step.segments, bareText] at hstep
    simp only [Relation.continuations, Relation.chars, Relation.segmentsOfAll, Relation.segments,
      Step.segments, hstep, hrest, List.flatMap_append, List.flatMap_cons, Option.getD_some]
    simp

end

/-- The text of a bare step tells its segments, in preorder, and no more. -/
theorem Step.text_eq_iff_segments {s t : Step} (hs : s.isBare = true) (ht : t.isBare = true) :
    s.text = t.text ↔ s.segments none = t.segments none := by
  constructor
  · intro h
    have hread := (Step.reads none s (Step.isPlain_of_isBare s hs)).read
    have hread' := (Step.reads none t (Step.isPlain_of_isBare t ht)).read
    unfold Step.text at h
    rw [h, hread'] at hread
    exact (Option.some.inj hread).symm
  · intro h
    unfold Step.text
    rw [Step.chars_of_isBare none s hs, Step.chars_of_isBare none t ht, h]

mutual

theorem Step.eq_of_segments_of_matchCounts : (s t : Step) → s.isBare = true → t.isBare = true →
    ∀ relation relation' xs ys ms ns, s.segments relation ++ xs = t.segments relation' ++ ys →
      s.matchCounts ++ ms = t.matchCounts ++ ns → relation = relation' ∧ s = t ∧ xs = ys ∧ ms = ns
  | ⟨tag, predicates, matched⟩, ⟨tag', predicates', matched'⟩, hs, ht => by
    intro relation relation' xs ys ms ns hseg hcount
    simp only [Step.isBare, Bool.and_eq_true, List.isEmpty_iff] at hs ht
    obtain ⟨⟨-, rfl⟩, hs⟩ := hs
    obtain ⟨⟨-, rfl⟩, ht⟩ := ht
    simp only [Step.segments, Step.matchCounts, List.cons_append, List.cons.injEq,
      Segment.mk.injEq] at hseg hcount
    obtain ⟨⟨rfl, rfl, -⟩, hseg⟩ := hseg
    obtain ⟨hlen, hcount⟩ := hcount
    obtain ⟨rfl, hxs, hms⟩ :=
      Relation.eq_of_segmentsOfAll matched matched' hs ht hlen xs ys ms ns hseg hcount
    exact ⟨rfl, rfl, hxs, hms⟩

theorem Relation.eq_of_segmentsOfAll : (rs ss : List Relation) → Relation.allBare rs = true →
    Relation.allBare ss = true → rs.length = ss.length → ∀ xs ys ms ns,
      Relation.segmentsOfAll rs ++ xs = Relation.segmentsOfAll ss ++ ys →
      Relation.matchCountsOfAll rs ++ ms = Relation.matchCountsOfAll ss ++ ns →
      rs = ss ∧ xs = ys ∧ ms = ns
  | [], [], _, _, _ => fun _ _ _ _ hseg hcount => ⟨rfl, hseg, hcount⟩
  | ⟨name, step⟩ :: rest, ⟨name', step'⟩ :: rest', hr, hs, hlen => by
    intro xs ys ms ns hseg hcount
    simp only [Relation.allBare, Bool.and_eq_true] at hr hs
    simp only [Relation.segmentsOfAll, Relation.segments, Relation.matchCountsOfAll,
      List.append_assoc] at hseg hcount
    obtain ⟨hname, rfl, hseg, hcount⟩ :=
      Step.eq_of_segments_of_matchCounts step step' hr.1.2 hs.1.2 _ _ _ _ _ _ hseg hcount
    obtain ⟨rfl, hxs, hms⟩ :=
      Relation.eq_of_segmentsOfAll rest rest' hr.2 hs.2 (by simpa using hlen) xs ys ms ns hseg hcount
    exact ⟨by rw [Option.some.inj hname], hxs, hms⟩

end

/-- In a chain of steps one match leaves from every step but the last. -/
theorem Step.matchCounts_of_chain : (s : Step) → (∀ n ∈ s.matchCounts, n ≤ 1) →
    ∀ relation, s.matchCounts = List.replicate ((s.segments relation).length - 1) 1 ++ [0]
  | ⟨_, _, []⟩, _ => fun _ => rfl
  | ⟨_, _, [⟨name, step⟩]⟩, h => by
    intro relation
    have hstep := Step.matchCounts_of_chain step
      (fun n hn => h n (by simp [Step.matchCounts, Relation.matchCountsOfAll, hn])) (some name)
    cases step
    simp only [Step.segments, Step.matchCounts, Relation.matchCountsOfAll, Relation.segmentsOfAll,
      Relation.segments, List.append_nil, List.length_cons, Nat.add_sub_cancel] at hstep ⊢
    simp [hstep, List.replicate_succ]
  | ⟨_, _, _ :: _ :: rest⟩, h => by
    have := h (rest.length + 2) (by simp [Step.matchCounts])
    omega

/-- Two matches that leave from one step. -/
def Step.siblings : Step :=
  ⟨"Build", [], [⟨"repo", ⟨"Repo", [], []⟩⟩, ⟨"org", ⟨"Org", [], []⟩⟩]⟩

/-- The same two matches, the second leaving from the first. -/
def Step.chain : Step :=
  ⟨"Build", [], [⟨"repo", ⟨"Repo", [], [⟨"org", ⟨"Org", [], []⟩⟩]⟩⟩]⟩

theorem Step.text_siblings_eq_text_chain :
    Step.siblings.isBare = true ∧ Step.chain.isBare = true ∧
      Step.siblings.text = Step.chain.text ∧ Step.siblings ≠ Step.chain :=
  ⟨by decide, by decide, by decide, by simp [Step.siblings, Step.chain]⟩

/-- **Continuations in preorder.** Two bare steps have the same text just when
they have the same segments in preorder. They are equal if besides as many
matches leave from each step of the one as of the other, as when no step has
two. -/
theorem Step.text_eq_iff_of_isBare {s t : Step} (hs : s.isBare = true) (ht : t.isBare = true) :
    (s.text = t.text ↔ s.segments none = t.segments none) ∧
      (s.text = t.text → s.matchCounts = t.matchCounts → s = t) ∧
      (s.text = t.text → (∀ n ∈ s.matchCounts, n ≤ 1) → (∀ n ∈ t.matchCounts, n ≤ 1) → s = t) := by
  have hiff := Step.text_eq_iff_segments hs ht
  have hcounts (h : s.text = t.text) (hc : s.matchCounts = t.matchCounts) : s = t := by
    have heq := Step.eq_of_segments_of_matchCounts s t hs ht none none [] [] [] []
    simp only [List.append_nil] at heq
    exact (heq (hiff.1 h) hc).2.1
  refine ⟨hiff, hcounts, fun h hs' ht' => hcounts h ?_⟩
  rw [Step.matchCounts_of_chain s hs' none, Step.matchCounts_of_chain t ht' none, hiff.1 h]

theorem Step.text_eq_iff_siblings_chain :
    (Step.siblings.isBare = true ∧ Step.chain.isBare = true) ∧
      (Step.siblings.text = Step.chain.text ↔
        Step.siblings.segments none = Step.chain.segments none) ∧
      (Step.siblings.text = Step.chain.text →
        Step.siblings.matchCounts = Step.chain.matchCounts → Step.siblings = Step.chain) ∧
      (Step.siblings.text = Step.chain.text → (∀ n ∈ Step.siblings.matchCounts, n ≤ 1) →
        (∀ n ∈ Step.chain.matchCounts, n ≤ 1) → Step.siblings = Step.chain) :=
  ⟨⟨by decide, by decide⟩, Step.text_eq_iff_of_isBare (by decide) (by decide)⟩

end QueryByExample
