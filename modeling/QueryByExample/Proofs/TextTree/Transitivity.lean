/-
Equivalence across three trees.

Equal values settle a comparison whatever is below, and equal shapes settle it
whatever the values are. So two comparisons with the same tree may hold for
different reasons, one by a value that covers other nodes, the other by nodes
that carry other values, and the outer trees need not be equivalent
(`equivalent_not_trans`). In no other way is equivalence not transitive; it is
always reflexive and symmetric (`equivalent_laws`).
-/
import QueryByExample.Proofs.TextTree.Consulted

namespace QueryByExample.TextTree
variable {a b c : TextTree}

theorem equivalent_refl (a : TextTree) : equivalent a a = true := by
  have hagree : ¬ Mismatch a a := not_mismatch_iff.2 ⟨rfl, rfl⟩
  rw [equivalent, equivalentWith, compare_eq, if_neg hagree, if_pos rfl]

theorem equivalent_symm (a b : TextTree) : equivalent b a = equivalent a b :=
  equivalentWith_comm (fun _ _ => rfl) a b

theorem not_mismatch_of_equivalent (h : equivalent a b = true) : ¬ Mismatch a b := fun hmismatch => by
  rw [equivalent, equivalentWith_of_mismatch hmismatch] at h
  cases h

/-- Where two nodes differ in value, it is for a child that they are not equivalent. -/
theorem not_equivalent_of_child {x y : TextTree} {number : Nat} (hagree : ¬ Mismatch a b) (hvalue : a.value ≠ b.value)
    (hx : a.children[number]? = some x) (hy : b.children[number]? = some y) (hxy : equivalent x y = false) :
    equivalent a b = false := by
  obtain ⟨hname, hcount⟩ := not_mismatch_iff.1 hagree
  have hundecided : Undecided (fun _ _ => false) a b := ⟨hname, hcount, hvalue, rfl⟩
  rw [equivalent, equivalentWith_of_undecided hundecided, compareAll_eq_false_iff]
  exact ⟨number, x, y, hx, hy, hxy⟩

/-- Nothing but equal values covers a difference below. -/
theorem value_eq_of_child {x y : TextTree} {number : Nat} (h : equivalent a b = true)
    (hx : a.children[number]? = some x) (hy : b.children[number]? = some y) (hxy : equivalent x y = false) :
    a.value = b.value := by
  by_contra hvalue
  rw [not_equivalent_of_child (not_mismatch_of_equivalent h) hvalue hx hy hxy] at h
  cases h

theorem not_mismatch_trans (hab : equivalent a b = true) (hbc : equivalent b c = true) : ¬ Mismatch a c := by
  obtain ⟨hname, hcount⟩ := not_mismatch_iff.1 (not_mismatch_of_equivalent hab)
  obtain ⟨hname', hcount'⟩ := not_mismatch_iff.1 (not_mismatch_of_equivalent hbc)
  exact not_mismatch_iff.2 ⟨hname.trans hname', hcount.trans hcount'⟩

/-- The middle one of three nodes is equivalent to both others, whose values
differ. -/
structure Bridges (x y z : TextTree) : Prop where
  left : equivalent x y = true
  right : equivalent y z = true
  value : x.value ≠ z.value

theorem Bridges.not_mismatch (h : Bridges a b c) : ¬ Mismatch a c :=
  not_mismatch_trans h.left h.right

/-- The middle one of three nodes has the value of one of the others, but a
child of it is not equivalent to that one's, nor are those children of the outer
nodes to each other. -/
def CoversDifference (x y z : TextTree) : Prop :=
  (x.value = y.value ∨ y.value = z.value) ∧ ∃ (number : Nat) (x' y' z' : TextTree),
    x.children[number]? = some x' ∧ y.children[number]? = some y' ∧ z.children[number]? = some z' ∧
    equivalent x' z' = false ∧ (x.value = y.value → equivalent x' y' = false) ∧
    (y.value = z.value → equivalent y' z' = false)

/-- All the way down to a position the middle tree bridges the others, and there
it covers a difference. -/
inductive PartsAt : List Nat → TextTree → TextTree → TextTree → Prop
  | here {a b c : TextTree} : Bridges a b c → CoversDifference a b c → PartsAt [] a b c
  | child {a b c x y z : TextTree} {number : Nat} {path : List Nat} : Bridges a b c →
      a.children[number]? = some x → b.children[number]? = some y → c.children[number]? = some z →
      PartsAt path x y z → PartsAt (number :: path) a b c

theorem PartsAt.not_equivalent {path : List Nat} (h : PartsAt path a b c) : equivalent a c = false := by
  induction h with
  | here hbridges hcovers =>
    obtain ⟨-, number, x, y, z, hx, -, hz, hxz, -⟩ := hcovers
    exact not_equivalent_of_child hbridges.not_mismatch hbridges.value hx hz hxz
  | child hbridges hx _ hz _ ih => exact not_equivalent_of_child hbridges.not_mismatch hbridges.value hx hz ih

/-- Down to where the outer trees differ, the middle one bridges them until one
of the two comparisons holds by the value alone. -/
theorem FailsAt.exists_partsAt {path : List Nat} (h : FailsAt (fun _ _ => false) path a c)
    (hab : equivalent a b = true) (hbc : equivalent b c = true) : ∃ path, PartsAt path a b c := by
  induction h generalizing b with
  | here hmismatch => exact absurd hmismatch (not_mismatch_trans hab hbc)
  | @child a c x z number path hundecided hx hz hpath ih =>
    have hbridges : Bridges a b c := ⟨hab, hbc, hundecided.value⟩
    obtain ⟨y, hy⟩ : ∃ y, b.children[number]? = some y := by
      have hcount := (not_mismatch_iff.1 (not_mismatch_of_equivalent hab)).2
      have hlt := (List.getElem?_eq_some_iff.1 hx).1
      exact ⟨_, List.getElem?_eq_getElem (hcount ▸ hlt)⟩
    cases hxy : equivalent x y with
    | false =>
      have hvalue : a.value = b.value := value_eq_of_child hab hx hy hxy
      exact ⟨[], .here hbridges ⟨.inl hvalue, number, x, y, z, hx, hy, hz, hpath.not_equivalent, fun _ => hxy,
        fun hvalue' => absurd (hvalue.trans hvalue') hundecided.value⟩⟩
    | true =>
      cases hyz : equivalent y z with
      | false =>
        have hvalue : b.value = c.value := value_eq_of_child hbc hy hz hyz
        exact ⟨[], .here hbridges ⟨.inr hvalue, number, x, y, z, hx, hy, hz, hpath.not_equivalent,
          fun hvalue' => absurd (hvalue'.trans hvalue) hundecided.value, fun _ => hyz⟩⟩
      | true =>
        obtain ⟨path, hparts⟩ := ih hxy hyz
        exact ⟨number :: path, .child hbridges hx hy hz hparts⟩

theorem partsAt_iff {path : List Nat} : PartsAt path a b c ↔
    (∀ above, above <+: path → ∃ x y z,
      a.at? above = some x ∧ b.at? above = some y ∧ c.at? above = some z ∧ Bridges x y z) ∧
    ∃ x y z, a.at? path = some x ∧ b.at? path = some y ∧ c.at? path = some z ∧ CoversDifference x y z := by
  induction path generalizing a b c with
  | nil =>
    constructor
    · rintro ⟨hbridges, hcovers⟩
      refine ⟨fun above habove => ?_, a, b, c, rfl, rfl, rfl, hcovers⟩
      obtain rfl := List.prefix_nil.1 habove
      exact ⟨a, b, c, rfl, rfl, rfl, hbridges⟩
    · rintro ⟨hway, _, _, _, ⟨⟩, ⟨⟩, ⟨⟩, hcovers⟩
      obtain ⟨_, _, _, ⟨⟩, ⟨⟩, ⟨⟩, hbridges⟩ := hway [] List.nil_prefix
      exact .here hbridges hcovers
  | cons number path ih =>
    rw [forall_prefix_cons]
    constructor
    · rintro (_ | ⟨hbridges, hx, hy, hz, hparts⟩)
      simp only [at?, hx, hy, hz, Option.bind_some]
      exact ⟨⟨⟨a, b, c, rfl, rfl, rfl, hbridges⟩, (ih.1 hparts).1⟩, (ih.1 hparts).2⟩
    · rintro ⟨⟨⟨_, _, _, ⟨⟩, ⟨⟩, ⟨⟩, hbridges⟩, hway⟩, x', y', z', hx', hy', hz', hcovers⟩
      rw [at?, Option.bind_eq_some_iff] at hx' hy' hz'
      obtain ⟨x, hx, hx'⟩ := hx'
      obtain ⟨y, hy, hy'⟩ := hy'
      obtain ⟨z, hz, hz'⟩ := hz'
      simp only [at?, hx, hy, hz, Option.bind_some] at hway
      exact .child hbridges hx hy hz (ih.2 ⟨hway, x', y', z', hx', hy', hz', hcovers⟩)

/-- **How far equivalence is an equivalence relation.** It is reflexive and
symmetric. Two trees that are equivalent to a third one between them are
equivalent themselves, but for one case: somewhere the middle tree's node has
the value of one neighbour's and not of the other's, and by that value covers a
difference, children with one number that are not equivalent to each other, as
those of the two neighbours are not; and there as everywhere above, the middle
tree bridges its neighbours. -/
theorem equivalent_laws (a b c : TextTree) :
    equivalent a a = true ∧
    (equivalent a b = true → equivalent b a = true) ∧
    (equivalent a b = true → equivalent b c = true →
      (equivalent a c = false ↔ ∃ path : List Nat,
        (∀ above, above <+: path → ∃ x y z,
          a.at? above = some x ∧ b.at? above = some y ∧ c.at? above = some z ∧ Bridges x y z) ∧
        ∃ x y z, a.at? path = some x ∧ b.at? path = some y ∧ c.at? path = some z ∧ CoversDifference x y z)) := by
  refine ⟨equivalent_refl a, fun hab => (equivalent_symm a b).trans hab, fun hab hbc => ?_⟩
  simp only [← partsAt_iff]
  constructor
  · intro h
    obtain ⟨path, hpath⟩ := exists_failsAt a c h
    exact hpath.exists_partsAt hab hbc
  · rintro ⟨path, hparts⟩
    exact hparts.not_equivalent

/-- A call, the same call with its name under another name, and another call: the
first two agree in value, the last two in shape. -/
theorem equivalent_laws_call :
    let named := container "call" [] [.terminal "name" "run" []]
    let identified := container "call" [] [.terminal "ident" "run" []]
    let other := container "call" [] [.terminal "ident" "walk" []]
    equivalent named identified = true ∧ equivalent identified named = true ∧ equivalent identified other = true ∧
    ∃ path : List Nat, ∃ x y z, named.at? path = some x ∧ identified.at? path = some y ∧ other.at? path = some z ∧
      CoversDifference x y z := by
  intro named identified other
  have hleft : equivalent named identified = true := by decide
  have hright : equivalent identified other = true := by decide
  obtain ⟨-, hsymm, hparts⟩ := equivalent_laws named identified other
  obtain ⟨path, -, hcovers⟩ := (hparts hleft hright).1 (by decide)
  exact ⟨hleft, hsymm hleft, hright, path, hcovers⟩

/-- Equivalence is not transitive: those calls, end to end. -/
theorem equivalent_not_trans : ¬ ∀ a b c : TextTree,
    equivalent a a = true ∧ (equivalent a b = true → equivalent b a = true) ∧
    (equivalent a b = true → equivalent b c = true → equivalent a c = true) := by
  intro h
  have htrans := (h (container "call" [] [.terminal "name" "run" []]) (container "call" [] [.terminal "ident" "run" []])
    (container "call" [] [.terminal "ident" "walk" []])).2.2 (by decide) (by decide)
  exact absurd htrans (by decide)

end QueryByExample.TextTree
