/-
Trees that are not equivalent.

A comparison fails at a pair of nodes that differ in name or in number of
children, and it comes to a pair below only where nothing above has settled the
answer: everywhere on the way down the two nodes agree in name and number of
children, their values differ and the test does not hold for them. So it fails
exactly when such a way leads to such a pair (`equivalentWith_eq_false_iff`).
-/
import QueryByExample.Proofs.TextTree.Position
import QueryByExample.TextTree.Equivalence

namespace QueryByExample.TextTree

/-- Two nodes that no comparison accepts. -/
def Mismatch (a b : TextTree) : Prop :=
  a.name ≠ b.name ∨ a.children.length ≠ b.children.length

instance (a b : TextTree) : Decidable (Mismatch a b) := inferInstanceAs (Decidable (_ ∨ _))

/-- Two nodes of which a comparison knows only by their children. -/
structure Undecided (deem : TextTree → TextTree → Bool) (a b : TextTree) : Prop where
  name : a.name = b.name
  childCount : a.children.length = b.children.length
  value : a.value ≠ b.value
  deemed : deem a b = false

/-- A comparison comes to a mismatch when it goes down to that position. -/
inductive FailsAt (deem : TextTree → TextTree → Bool) : List Nat → TextTree → TextTree → Prop
  | here {a b : TextTree} : Mismatch a b → FailsAt deem [] a b
  | child {a b x y : TextTree} {number : Nat} {path : List Nat} : Undecided deem a b →
      a.children[number]? = some x → b.children[number]? = some y → FailsAt deem path x y →
      FailsAt deem (number :: path) a b

variable {deem : TextTree → TextTree → Bool} {a b : TextTree}

theorem Mismatch.symm (h : Mismatch a b) : Mismatch b a :=
  h.imp Ne.symm Ne.symm

theorem mismatch_comm : Mismatch a b ↔ Mismatch b a :=
  ⟨.symm, .symm⟩

theorem Undecided.not_mismatch (h : Undecided deem a b) : ¬ Mismatch a b :=
  fun hmismatch => hmismatch.elim (· h.name) (· h.childCount)

theorem not_mismatch_iff : ¬ Mismatch a b ↔ a.name = b.name ∧ a.children.length = b.children.length := by
  simp only [Mismatch, not_or, ne_eq, Decidable.not_not]

theorem undecided_iff : Undecided deem a b ↔
    a.name = b.name ∧ a.children.length = b.children.length ∧ a.value ≠ b.value ∧ deem a b = false :=
  ⟨fun h => ⟨h.name, h.childCount, h.value, h.deemed⟩, fun h => ⟨h.1, h.2.1, h.2.2.1, h.2.2.2⟩⟩

/-- What comparing two nodes comes to, of whatever kind they are. -/
theorem compare_eq (deem : TextTree → TextTree → Bool) (a b : TextTree) : compare deem a b =
    if Mismatch a b then (false, [])
    else if a.value = b.value then (true, [])
    else if deem a b then (true, [(a, b)])
    else ((compareAll deem a.children b.children).1, (a, b) :: (compareAll deem a.children b.children).2) := by
  cases a with
  | terminal name value tags =>
    rw [compare]
    -- A terminal is compared with a node without children, so there is nothing below.
    have hnone : compareAll deem (terminal name value tags).children b.children = (true, []) := by
      rw [children, compareAll]
      simp
    rw [hnone]
    rfl
  | container name tags children =>
    rw [compare]
    rfl

theorem equivalentWith_of_mismatch (h : Mismatch a b) : equivalentWith deem a b = false := by
  rw [equivalentWith, compare_eq, if_pos h]

theorem equivalentWith_of_undecided (h : Undecided deem a b) :
    equivalentWith deem a b = (compareAll deem a.children b.children).1 := by
  rw [equivalentWith, compare_eq, if_neg h.not_mismatch, if_neg h.value, if_neg (by simp [h.deemed])]

/-- Where a comparison fails and the two nodes agree, it is for their children. -/
theorem undecided_of_not_equivalent (h : equivalentWith deem a b = false) (hagree : ¬ Mismatch a b) :
    Undecided deem a b := by
  obtain ⟨hname, hcount⟩ := not_mismatch_iff.1 hagree
  rw [equivalentWith, compare_eq, if_neg hagree] at h
  split at h
  · cases h
  next hvalue =>
  split at h
  · cases h
  next hdeem => exact ⟨hname, hcount, hvalue, Bool.eq_false_iff.2 hdeem⟩

theorem compareAll_nil_left (deem : TextTree → TextTree → Bool) (bs : List TextTree) :
    compareAll deem [] bs = (true, []) := by
  rw [compareAll]
  simp

theorem compareAll_nil_right (deem : TextTree → TextTree → Bool) (as : List TextTree) :
    compareAll deem as [] = (true, []) := by
  rw [compareAll]
  simp

theorem compareAll_cons (deem : TextTree → TextTree → Bool) (a b : TextTree) (as bs : List TextTree) :
    compareAll deem (a :: as) (b :: bs) =
      if (compare deem a b).1 then ((compareAll deem as bs).1, (compare deem a b).2 ++ (compareAll deem as bs).2)
      else (false, (compare deem a b).2) := by
  rw [compareAll]

theorem compareAll_eq_all (deem : TextTree → TextTree → Bool) (as bs : List TextTree) :
    (compareAll deem as bs).1 = (as.zip bs).all fun (x, y) => equivalentWith deem x y := by
  induction as generalizing bs with
  | nil => rfl
  | cons a as ih =>
    cases bs with
    | nil => rfl
    | cons b bs =>
      rw [compareAll, List.zip_cons_cons, List.all_cons, ← ih]
      change _ = ((compare deem a b).1 && (compareAll deem as bs).1)
      obtain ⟨answer, consulted⟩ := compare deem a b
      cases answer <;> rfl

/-- One pair that is not equivalent decides for all. -/
theorem compareAll_eq_false_iff {as bs : List TextTree} : (compareAll deem as bs).1 = false ↔
    ∃ (number : Nat) (x y : TextTree),
      as[number]? = some x ∧ bs[number]? = some y ∧ equivalentWith deem x y = false := by
  rw [compareAll_eq_all, List.all_eq_false]
  constructor
  · rintro ⟨⟨x, y⟩, hmem, h⟩
    obtain ⟨number, hnumber⟩ := List.mem_iff_getElem?.1 hmem
    obtain ⟨hx, hy⟩ := List.getElem?_zip_eq_some.1 hnumber
    exact ⟨number, x, y, hx, hy, Bool.eq_false_iff.2 h⟩
  · rintro ⟨number, x, y, hx, hy, h⟩
    have hmem : (x, y) ∈ as.zip bs := List.mem_of_getElem? (List.getElem?_zip_eq_some.2 ⟨hx, hy⟩)
    exact ⟨(x, y), hmem, Bool.eq_false_iff.1 h⟩

theorem exists_failsAt (a b : TextTree) (h : equivalentWith deem a b = false) : ∃ path, FailsAt deem path a b := by
  by_cases hmismatch : Mismatch a b
  · exact ⟨[], .here hmismatch⟩
  · have hundecided : Undecided deem a b := undecided_of_not_equivalent h hmismatch
    rw [equivalentWith_of_undecided hundecided, compareAll_eq_false_iff] at h
    obtain ⟨number, x, y, hx, hy, hxy⟩ := h
    have hsmaller := sizeOf_lt_of_child hx
    obtain ⟨path, hpath⟩ := exists_failsAt x y hxy
    exact ⟨number :: path, .child hundecided hx hy hpath⟩
termination_by sizeOf a

theorem FailsAt.not_equivalent {path : List Nat} (h : FailsAt deem path a b) : equivalentWith deem a b = false := by
  induction h with
  | here hmismatch => exact equivalentWith_of_mismatch hmismatch
  | child hundecided hx hy _ ih =>
    rw [equivalentWith_of_undecided hundecided, compareAll_eq_false_iff]
    exact ⟨_, _, _, hx, hy, ih⟩

/-- The way down, position by position. -/
theorem failsAt_iff {path : List Nat} : FailsAt deem path a b ↔
    (∀ above, above <+: path → above ≠ path →
      ∃ x y, a.at? above = some x ∧ b.at? above = some y ∧ Undecided deem x y) ∧
    ∃ x y, a.at? path = some x ∧ b.at? path = some y ∧ Mismatch x y := by
  induction path generalizing a b with
  | nil =>
    constructor
    · rintro ⟨hmismatch⟩
      exact ⟨fun above habove hne => absurd (List.prefix_nil.1 habove) hne, a, b, rfl, rfl, hmismatch⟩
    · rintro ⟨-, _, _, ⟨⟩, ⟨⟩, hmismatch⟩
      exact .here hmismatch
  | cons number path ih =>
    rw [forall_above_cons]
    constructor
    · rintro (_ | ⟨hundecided, hx, hy, hpath⟩)
      simp only [at?, hx, hy, Option.bind_some]
      exact ⟨⟨⟨a, b, rfl, rfl, hundecided⟩, (ih.1 hpath).1⟩, (ih.1 hpath).2⟩
    · rintro ⟨⟨⟨_, _, ⟨⟩, ⟨⟩, hundecided⟩, hway⟩, x', y', hx', hy', hmismatch⟩
      rw [at?, Option.bind_eq_some_iff] at hx' hy'
      obtain ⟨x, hx, hx'⟩ := hx'
      obtain ⟨y, hy, hy'⟩ := hy'
      simp only [at?, hx, hy, Option.bind_some] at hway
      exact .child hundecided hx hy (ih.2 ⟨hway, x', y', hx', hy', hmismatch⟩)

/-- **A comparison is false exactly when a mismatch is in reach.** Two trees,
views among them, are not equivalent if and only if there is a position at
which both have a node and the two nodes differ in name or in number of
children, and above which both have nodes that agree in both, with different
values and without the test holding for them. -/
theorem equivalentWith_eq_false_iff (deem : TextTree → TextTree → Bool) (a b : TextTree) :
    equivalentWith deem a b = false ↔ ∃ path : List Nat,
      (∀ above, above <+: path → above ≠ path → ∃ x y, a.at? above = some x ∧ b.at? above = some y ∧
        x.name = y.name ∧ x.children.length = y.children.length ∧ x.value ≠ y.value ∧ deem x y = false) ∧
      ∃ x y, a.at? path = some x ∧ b.at? path = some y ∧
        (x.name ≠ y.name ∨ x.children.length ≠ y.children.length) := by
  have hundecided : ∀ x y : TextTree, Undecided deem x y ↔
      x.name = y.name ∧ x.children.length = y.children.length ∧ x.value ≠ y.value ∧ deem x y = false :=
    fun x y => ⟨fun ⟨hname, hcount, hvalue, hdeem⟩ => ⟨hname, hcount, hvalue, hdeem⟩,
      fun ⟨hname, hcount, hvalue, hdeem⟩ => ⟨hname, hcount, hvalue, hdeem⟩⟩
  simp only [← hundecided]
  exact ⟨fun h => (exists_failsAt a b h).imp fun _ => failsAt_iff.1,
    fun ⟨_, hpath⟩ => (failsAt_iff.2 hpath).not_equivalent⟩

end QueryByExample.TextTree
