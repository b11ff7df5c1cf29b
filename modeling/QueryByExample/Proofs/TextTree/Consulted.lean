/-
Where a comparison consults its test.

A comparison goes down two trees in step, in document order, and stops at the
first mismatch. Nothing in it depends on which tree is which, so with a symmetric
test the other way round is the same run with each pair swapped
(`compare_swap`). The test is consulted at the positions where all above is
undecided, the two nodes agree in name and number of children and their values
differ, as long as no mismatch comes before (`consults_iff`); `consultedAt` lists
them in order, and what a run reports are the nodes there
(`pairs_consultedAt`). `compare_symmetric` says all of this of both runs.
-/
import Mathlib.Data.List.Forall2
import QueryByExample.CommandLine.Run
import QueryByExample.Proofs.TextTree.DocumentOrder
import QueryByExample.Proofs.TextTree.Mismatch

namespace QueryByExample.TextTree
variable {deem : TextTree → TextTree → Bool} {a b : TextTree}

/-- A run with each consulted pair swapped. -/
def swapped (run : Bool × List (TextTree × TextTree)) : Bool × List (TextTree × TextTree) :=
  (run.1, run.2.map Prod.swap)

mutual

/-- With a symmetric test, each step of a comparison is the same the other way round. -/
theorem compare_swap (hsymm : ∀ x y, deem x y = deem y x) :
    (a b : TextTree) → compare deem b a = swapped (compare deem a b)
  | a, b => by
    have hbelow : compareAll deem b.children a.children = swapped (compareAll deem a.children b.children) := by
      cases a with
      | terminal => rw [children, compareAll_nil_right, compareAll_nil_left]; rfl
      | container name tags children => exact compareAll_swap hsymm children b.children
    rw [compare_eq deem b a, compare_eq deem a b, hbelow, hsymm b a]
    simp only [mismatch_comm (a := b), eq_comm (a := b.value)]
    split
    · rfl
    split
    · rfl
    split <;> rfl

theorem compareAll_swap (hsymm : ∀ x y, deem x y = deem y x) :
    (as bs : List TextTree) → compareAll deem bs as = swapped (compareAll deem as bs)
  | [], bs => by rw [compareAll_nil_right, compareAll_nil_left]; rfl
  | a :: as, [] => by rw [compareAll_nil_right, compareAll_nil_left]; rfl
  | a :: as, b :: bs => by
    rw [compareAll_cons, compareAll_cons, compare_swap hsymm a b, compareAll_swap hsymm as bs]
    cases hab : (compare deem a b).1 <;> simp [swapped, hab]

end

theorem equivalentWith_comm (hsymm : ∀ x y, deem x y = deem y x) (a b : TextTree) :
    equivalentWith deem b a = equivalentWith deem a b := by
  rw [equivalentWith, equivalentWith, compare_swap hsymm a b]
  rfl

theorem ifNamed_comm (names : List String) (a b : TextTree) : ifNamed names a b = ifNamed names b a := by
  by_cases hname : a.name = b.name
  · rw [ifNamed, ifNamed, hname]
  · rw [ifNamed, ifNamed, beq_false_of_ne hname, beq_false_of_ne (Ne.symm hname), Bool.false_and, Bool.false_and]

mutual

/-- The positions at which a comparison consults its test, in order. -/
def consultedAt (deem : TextTree → TextTree → Bool) (a b : TextTree) : List (List Nat) :=
  if Mismatch a b ∨ a.value = b.value then []
  else if deem a b then [[]]
  else
    match a with
    | .terminal .. => [[]]
    | .container _ _ children => [] :: numbered 0 (consultedBelow deem children b.children)

/-- The same of the children of two nodes, below each of them. -/
def consultedBelow (deem : TextTree → TextTree → Bool) : List TextTree → List TextTree → List (List (List Nat))
  | a :: as, b :: bs => consultedAt deem a b :: if equivalentWith deem a b then consultedBelow deem as bs else []
  | _, _ => []

end

theorem consultedBelow_nil_left (deem : TextTree → TextTree → Bool) (bs : List TextTree) :
    consultedBelow deem [] bs = [] := by
  rw [consultedBelow]
  simp

theorem consultedBelow_nil_right (deem : TextTree → TextTree → Bool) (as : List TextTree) :
    consultedBelow deem as [] = [] := by
  rw [consultedBelow]
  simp

theorem consultedAt_eq (deem : TextTree → TextTree → Bool) (a b : TextTree) : consultedAt deem a b =
    if Mismatch a b ∨ a.value = b.value then []
    else [] :: if deem a b then [] else numbered 0 (consultedBelow deem a.children b.children) := by
  cases a with
  | terminal name value tags =>
    rw [consultedAt, children, consultedBelow_nil_left]
    split
    · rfl
    · split <;> rfl
  | container name tags children =>
    rw [consultedAt]
    split
    · rfl
    · split <;> rfl

/-- Below a child the test is consulted only if all children before it are equivalent. -/
theorem consultedBelow_getElem? {as bs : List TextTree} {number : Nat} {positions : List (List Nat)} :
    (consultedBelow deem as bs)[number]? = some positions ↔ ∃ x y, as[number]? = some x ∧ bs[number]? = some y ∧
      (∀ (earlier : Nat) (x' y' : TextTree), earlier < number → as[earlier]? = some x' → bs[earlier]? = some y' →
        equivalentWith deem x' y' = true) ∧ consultedAt deem x y = positions := by
  induction as generalizing bs number with
  | nil => simp [consultedBelow_nil_left]
  | cons a as ih =>
    cases bs with
    | nil => simp [consultedBelow_nil_right]
    | cons b bs =>
      rw [consultedBelow]
      cases number with
      | zero => simp
      | succ number =>
        simp only [List.getElem?_cons_succ]
        cases hab : equivalentWith deem a b with
        | false =>
          simp only [Bool.false_eq_true, if_false, List.getElem?_nil, reduceCtorEq, false_iff]
          rintro ⟨x, y, -, -, hearlier, -⟩
          have hfirst := hearlier 0 a b (Nat.succ_pos number) rfl rfl
          rw [hab] at hfirst
          cases hfirst
        | true =>
          rw [if_pos rfl, ih]
          refine exists_congr fun x => exists_congr fun y => and_congr_right fun _ => and_congr_right fun _ =>
            and_congr_left fun _ => ⟨fun h earlier x' y' hlt hx' hy' => ?_, fun h earlier x' y' hlt hx' hy' => ?_⟩
          · cases earlier with
            | zero =>
              obtain rfl : a = x' := Option.some.inj hx'
              obtain rfl : b = y' := Option.some.inj hy'
              exact hab
            | succ earlier => exact h earlier x' y' (Nat.lt_of_succ_lt_succ hlt) hx' hy'
          · exact h (earlier + 1) x' y' (Nat.succ_lt_succ hlt) hx' hy'

/-- The nodes of two trees at a position are the given pair. -/
def PairAt (a b : TextTree) (path : List Nat) (pair : TextTree × TextTree) : Prop :=
  a.at? path = some pair.1 ∧ b.at? path = some pair.2

mutual

/-- The pairs that a comparison consults its test on stand at these positions. -/
theorem pairs_consultedAt : (a b : TextTree) →
    List.Forall₂ (PairAt a b) (consultedAt deem a b) (compare deem a b).2
  | a, b => by
    have hbelow : List.Forall₂ (PairAt a b) (numbered 0 (consultedBelow deem a.children b.children))
        (compareAll deem a.children b.children).2 := by
      cases a with
      | terminal => rw [children, consultedBelow_nil_left, compareAll_nil_left]; exact .nil
      | container name tags children =>
        exact pairs_consultedBelow children (container name tags children) b 0 b.children rfl rfl
    -- Both sides take the same way out, in the order in which a comparison looks for one.
    rw [consultedAt_eq, compare_eq]
    by_cases hmismatch : Mismatch a b
    · rw [if_pos (.inl hmismatch), if_pos hmismatch]
      exact .nil
    by_cases hvalue : a.value = b.value
    · rw [if_pos (.inr hvalue), if_neg hmismatch, if_pos hvalue]
      exact .nil
    rw [if_neg (by simp [hmismatch, hvalue]), if_neg hmismatch, if_neg hvalue]
    split
    · exact .cons ⟨rfl, rfl⟩ .nil
    · exact .cons ⟨rfl, rfl⟩ hbelow

/-- Of two nodes, of which only the children from a number on are looked at. -/
theorem pairs_consultedBelow : (as : List TextTree) → (a b : TextTree) → (first : Nat) → (bs : List TextTree) →
    a.children.drop first = as → b.children.drop first = bs →
    List.Forall₂ (PairAt a b) (numbered first (consultedBelow deem as bs)) (compareAll deem as bs).2
  | [], a, b, first, bs, _, _ => by rw [consultedBelow_nil_left, compareAll_nil_left]; exact .nil
  | x :: as, a, b, first, [], _, _ => by rw [consultedBelow_nil_right, compareAll_nil_right]; exact .nil
  | x :: as, a, b, first, y :: bs, has, hbs => by
    have hx : a.children[first]? = some x := by rw [← List.head?_drop, has]; rfl
    have hy : b.children[first]? = some y := by rw [← List.head?_drop, hbs]; rfl
    have hhere : List.Forall₂ (PairAt a b) ((consultedAt deem x y).map (first :: ·)) (compare deem x y).2 := by
      rw [List.forall₂_map_left_iff]
      refine (pairs_consultedAt x y).imp fun path pair hpair => ?_
      rw [PairAt, at?, at?, hx, hy]
      exact hpair
    have hrest := pairs_consultedBelow as a b (first + 1) bs
      (by rw [← List.tail_drop, has]; rfl) (by rw [← List.tail_drop, hbs]; rfl)
    rw [consultedBelow, compareAll_cons, numbered, equivalentWith]
    cases (compare deem x y).1 with
    | false => simpa [numbered] using hhere
    | true => exact List.rel_append hhere hrest

end

theorem consultedAt_pairwise (deem : TextTree → TextTree → Bool) (a b : TextTree) :
    (consultedAt deem a b).Pairwise (· < ·) := by
  rw [consultedAt_eq]
  split
  · exact .nil
  split
  · exact List.pairwise_singleton _ _
  · refine pairwise_nil_cons_numbered fun positions hpositions => ?_
    obtain ⟨number, hnumber⟩ := List.mem_iff_getElem?.1 hpositions
    obtain ⟨x, y, hx, hy, -, rfl⟩ := consultedBelow_getElem?.1 hnumber
    have hsmaller := sizeOf_lt_of_child hx
    exact consultedAt_pairwise deem x y
termination_by sizeOf a

/-- A comparison consults its test on the nodes at that position. -/
inductive Consults (deem : TextTree → TextTree → Bool) : List Nat → TextTree → TextTree → Prop
  | here {a b : TextTree} : ¬ Mismatch a b → a.value ≠ b.value → Consults deem [] a b
  | child {a b x y : TextTree} {number : Nat} {path : List Nat} : Undecided deem a b →
      a.children[number]? = some x → b.children[number]? = some y →
      (∀ (earlier : Nat) (x' y' : TextTree), earlier < number → a.children[earlier]? = some x' →
        b.children[earlier]? = some y' → equivalentWith deem x' y' = true) →
      Consults deem path x y → Consults deem (number :: path) a b

theorem mem_consultedAt_iff {path : List Nat} : path ∈ consultedAt deem a b ↔ Consults deem path a b := by
  induction path generalizing a b with
  | nil =>
    rw [consultedAt_eq]
    constructor
    · intro h
      split at h
      · cases h
      next hgoes =>
      rw [not_or] at hgoes
      exact .here hgoes.1 hgoes.2
    · rintro ⟨hmismatch, hvalue⟩
      rw [if_neg (by simp [hmismatch, hvalue])]
      exact List.mem_cons_self
  | cons number path ih =>
    rw [consultedAt_eq]
    constructor
    · intro h
      split at h
      · cases h
      next hgoes =>
      rw [not_or] at hgoes
      rcases List.mem_cons.1 h with h | h
      · cases h
      split at h
      · cases h
      next hdeem =>
      obtain ⟨positions, hpositions, hpath⟩ := mem_numbered.1 h
      obtain ⟨x, y, hx, hy, hearlier, rfl⟩ := consultedBelow_getElem?.1 hpositions
      obtain ⟨hname, hcount⟩ := not_mismatch_iff.1 hgoes.1
      exact .child ⟨hname, hcount, hgoes.2, Bool.eq_false_iff.2 hdeem⟩ hx hy hearlier (ih.1 hpath)
    · intro h
      cases h with
      | child hundecided hx hy hearlier hpath =>
        rw [if_neg (by simp [hundecided.not_mismatch, hundecided.value]), if_neg (by simp [hundecided.deemed])]
        refine List.mem_cons_of_mem _ (mem_numbered.2 ⟨_, consultedBelow_getElem?.2 ⟨_, _, hx, hy, hearlier, rfl⟩, ?_⟩)
        exact ih.2 hpath

/-- A position below a child comes before every mismatch when the children before
that one are equivalent and it comes before those below the child itself. -/
theorem before_failures_iff {x y : TextTree} {number : Nat} {path : List Nat} (hundecided : Undecided deem a b)
    (hx : a.children[number]? = some x) (hy : b.children[number]? = some y) :
    (∀ failure, FailsAt deem failure a b → number :: path < failure) ↔
      (∀ (earlier : Nat) (x' y' : TextTree), earlier < number → a.children[earlier]? = some x' →
        b.children[earlier]? = some y' → equivalentWith deem x' y' = true) ∧
      ∀ failure, FailsAt deem failure x y → path < failure := by
  constructor
  · intro h
    refine ⟨fun earlier x' y' hearlier hx' hy' => ?_, fun failure hfailure => ?_⟩
    · by_contra hdiffer
      -- A child before this one that is not equivalent has a mismatch below it, earlier than here.
      obtain ⟨failure, hfailure⟩ := exists_failsAt x' y' (Bool.eq_false_iff.2 hdiffer)
      rcases List.cons_lt_cons_iff.1 (h _ (.child hundecided hx' hy' hfailure)) with hlater | ⟨rfl, -⟩
      · exact Nat.lt_asymm hearlier hlater
      · exact Nat.lt_irrefl _ hearlier
    · rcases List.cons_lt_cons_iff.1 (h _ (.child hundecided hx hy hfailure)) with hlater | ⟨-, hbefore⟩
      · exact absurd hlater (Nat.lt_irrefl number)
      · exact hbefore
  · rintro ⟨hearlier, hbelow⟩ failure hfailure
    cases hfailure with
    | here hhere => exact absurd hhere hundecided.not_mismatch
    | @child _ _ x' y' number' failure' _ hx' hy' hfailure =>
      rcases Nat.lt_trichotomy number number' with hlt | rfl | hlt
      · exact List.cons_lt_cons_iff.2 (.inl hlt)
      · obtain rfl : x = x' := Option.some.inj (hx.symm.trans hx')
        obtain rfl : y = y' := Option.some.inj (hy.symm.trans hy')
        exact List.cons_lt_cons_iff.2 (.inr ⟨rfl, hbelow failure' hfailure⟩)
      · have hequal := hearlier number' x' y' hlt hx' hy'
        rw [hfailure.not_equivalent] at hequal
        cases hequal

/-- The way down is undecided, the two nodes agree in all but their values, and
no mismatch comes earlier. -/
theorem consults_iff {path : List Nat} : Consults deem path a b ↔
    (∀ above, above <+: path → above ≠ path →
      ∃ x y, a.at? above = some x ∧ b.at? above = some y ∧ Undecided deem x y) ∧
    (∃ x y, a.at? path = some x ∧ b.at? path = some y ∧ ¬ Mismatch x y ∧ x.value ≠ y.value) ∧
    ∀ failure, FailsAt deem failure a b → path < failure := by
  induction path generalizing a b with
  | nil =>
    constructor
    · rintro ⟨hmismatch, hvalue⟩
      refine ⟨fun above habove hne => absurd (List.prefix_nil.1 habove) hne, ⟨a, b, rfl, rfl, hmismatch, hvalue⟩, ?_⟩
      intro failure hfailure
      cases hfailure with
      | here hhere => exact absurd hhere hmismatch
      | child => exact List.nil_lt_cons _ _
    · rintro ⟨-, ⟨_, _, ⟨⟩, ⟨⟩, hmismatch, hvalue⟩, -⟩
      exact .here hmismatch hvalue
  | cons number path ih =>
    rw [forall_above_cons]
    constructor
    · rintro (_ | ⟨hundecided, hx, hy, hearlier, hpath⟩)
      obtain ⟨hway, hpair, hfirst⟩ := ih.1 hpath
      simp only [at?, hx, hy, Option.bind_some]
      exact ⟨⟨⟨a, b, rfl, rfl, hundecided⟩, hway⟩, hpair, (before_failures_iff hundecided hx hy).2 ⟨hearlier, hfirst⟩⟩
    · rintro ⟨⟨⟨_, _, ⟨⟩, ⟨⟩, hundecided⟩, hway⟩, ⟨x', y', hx', hy', hpair⟩, hfirst⟩
      rw [at?, Option.bind_eq_some_iff] at hx' hy'
      obtain ⟨x, hx, hx'⟩ := hx'
      obtain ⟨y, hy, hy'⟩ := hy'
      simp only [at?, hx, hy, Option.bind_some] at hway
      obtain ⟨hearlier, hfirst⟩ := (before_failures_iff hundecided hx hy).1 hfirst
      exact .child hundecided hx hy hearlier (ih.2 ⟨hway, ⟨x', y', hx', hy', hpair⟩, hfirst⟩)

/-- **A comparison does not care which tree is which.** With a symmetric test
the other way round gives the same answer and consults the test on the same
pairs, in the same order and each swapped. In both runs these are the nodes at
certain positions, one after the other in document order and so none twice: the
positions where the two nodes agree in name and number of children and their
values differ, and likewise all above them without the test holding there, as far
as they come before every mismatch in reach. The test by names is symmetric, so
whatever names are ignored, the answer is the same both ways. -/
theorem compare_symmetric (hsymm : ∀ x y, deem x y = deem y x) (a b : TextTree) :
    (compare deem b a).1 = (compare deem a b).1 ∧
    (compare deem b a).2 = (compare deem a b).2.map Prod.swap ∧
    (∃ positions : List (List Nat), positions.Pairwise (· < ·) ∧
      List.Forall₂ (PairAt a b) positions (compare deem a b).2 ∧
      List.Forall₂ (PairAt b a) positions (compare deem b a).2 ∧
      ∀ path, path ∈ positions ↔
        (∀ above, above <+: path → above ≠ path → ∃ x y, a.at? above = some x ∧ b.at? above = some y ∧
          x.name = y.name ∧ x.children.length = y.children.length ∧ x.value ≠ y.value ∧ deem x y = false) ∧
        (∃ x y, a.at? path = some x ∧ b.at? path = some y ∧
          x.name = y.name ∧ x.children.length = y.children.length ∧ x.value ≠ y.value) ∧
        ∀ failure, FailsAt deem failure a b → path < failure) ∧
    ∀ ignored, CommandLine.equivalentIgnoring ignored b a = CommandLine.equivalentIgnoring ignored a b := by
  have hswap : compare deem b a = swapped (compare deem a b) := compare_swap hsymm a b
  have hpairs : List.Forall₂ (PairAt a b) (consultedAt deem a b) (compare deem a b).2 := pairs_consultedAt a b
  refine ⟨by rw [hswap]; rfl, by rw [hswap]; rfl, ?_, fun ignored => ?_⟩
  · refine ⟨consultedAt deem a b, consultedAt_pairwise deem a b, hpairs, ?_, fun path => ?_⟩
    · rw [hswap, swapped, List.forall₂_map_right_iff]
      exact hpairs.imp fun path pair hpair => ⟨hpair.2, hpair.1⟩
    · rw [mem_consultedAt_iff, consults_iff]
      simp only [undecided_iff, not_mismatch_iff, and_assoc]
  · exact equivalentWith_comm (ifNamed_comm ignored) a b

/-- Two calls with another name and another body: both bodies are deemed equivalent, and the test
is never asked of what is in them. -/
theorem compare_symmetric_bodies :
    let left := container "file" []
      [.container "fn" [] [.terminal "name" "run" []], .container "body" [] [.terminal "stmt" "a();" []]]
    let right := container "file" []
      [.container "fn" [] [.terminal "name" "walk" []],
        .container "body" [] [.container "stmt" [] [.terminal "call" "b()" []]]]
    (∀ x y, ifNamed ["body"] x y = ifNamed ["body"] y x) ∧
    (compare (ifNamed ["body"]) right left).1 = (compare (ifNamed ["body"]) left right).1 ∧
    (compare (ifNamed ["body"]) right left).2 = (compare (ifNamed ["body"]) left right).2.map Prod.swap ∧
    (compare (ifNamed ["body"]) left right).1 = true ∧
    (compare (ifNamed ["body"]) left right).2.map (fun pair => pair.1.name) = ["file", "fn", "name", "body"] := by
  intro left right
  have hcompare := compare_symmetric (ifNamed_comm ["body"]) left right
  exact ⟨ifNamed_comm ["body"], hcompare.1, hcompare.2.1, by decide, by decide⟩

end QueryByExample.TextTree
