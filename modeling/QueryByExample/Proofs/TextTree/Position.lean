/-
Positions in a tree.

A position is the list of the numbers of the children that lead to it from
the root. What can be seen of the nodes at all positions makes up the tree
(`looksLike_iff`).
-/
import QueryByExample.TextTree.Basic

namespace QueryByExample.TextTree

/-- What holds of every terminal, and of a container when it does of its children,
holds of every tree. -/
@[elab_as_elim]
theorem inductionOnChildren {motive : TextTree → Prop} (terminal : ∀ name value tags, motive (.terminal name value tags))
    (container : ∀ name tags children, (∀ child ∈ children, motive child) → motive (.container name tags children))
    (t : TextTree) : motive t := by
  cases t with
  | terminal name value tags => exact terminal name value tags
  | container name tags children =>
    refine container name tags children fun child hchild => ?_
    have hsmaller : sizeOf child < sizeOf children := List.sizeOf_lt_of_mem hchild
    exact inductionOnChildren terminal container child
termination_by sizeOf t

/-- The node at a position. -/
def at? (t : TextTree) : List Nat → Option TextTree
  | [] => some t
  | number :: path => t.children[number]?.bind (·.at? path)

theorem at?_append (t : TextTree) (path rest : List Nat) : t.at? (path ++ rest) = (t.at? path).bind (·.at? rest) := by
  induction path generalizing t with
  | nil => rfl
  | cons number path ih =>
    rw [List.cons_append, at?, at?, Option.bind_assoc]
    congr 1
    funext child
    exact ih child

theorem sizeOf_lt_of_child {a x : TextTree} {number : Nat} (h : a.children[number]? = some x) :
    sizeOf x < sizeOf a := by
  have hmem : x ∈ a.children := List.mem_of_getElem? h
  cases a with
  | terminal => cases hmem
  | container name tags children =>
    have hlt : sizeOf x < sizeOf children := List.sizeOf_lt_of_mem hmem
    rw [container.sizeOf_spec]
    omega

/-- What holds all the way down to a position, the position itself apart. -/
theorem forall_above_cons {P : List Nat → Prop} {number : Nat} {path : List Nat} :
    (∀ above, above <+: number :: path → above ≠ number :: path → P above) ↔
      P [] ∧ ∀ above, above <+: path → above ≠ path → P (number :: above) := by
  constructor
  · intro h
    refine ⟨h [] List.nil_prefix (by simp), fun above habove hne => ?_⟩
    exact h (number :: above) (List.cons_prefix_cons.2 ⟨rfl, habove⟩) (by simpa using hne)
  · rintro ⟨hroot, hbelow⟩ above habove hne
    rcases List.prefix_cons_iff.1 habove with rfl | ⟨rest, rfl, hrest⟩
    · exact hroot
    · exact hbelow rest hrest fun heq => hne (by rw [heq])

/-- What holds all the way down to a position and there. -/
theorem forall_prefix_cons {P : List Nat → Prop} {number : Nat} {path : List Nat} :
    (∀ above, above <+: number :: path → P above) ↔
      P [] ∧ ∀ above, above <+: path → P (number :: above) := by
  constructor
  · intro h
    exact ⟨h [] List.nil_prefix, fun above habove => h _ (List.cons_prefix_cons.2 ⟨rfl, habove⟩)⟩
  · rintro ⟨hroot, hbelow⟩ above habove
    rcases List.prefix_cons_iff.1 habove with rfl | ⟨rest, rfl, hrest⟩
    · exact hroot
    · exact hbelow rest hrest

/-- What can be seen of a node without going to its children. -/
structure Face where
  name : String
  tags : List String
  isTerminal : Bool
  value : String
  childCount : Nat

def face (t : TextTree) : Face where
  name := t.name
  tags := t.tags
  isTerminal := t.isTerminal
  value := t.value
  childCount := t.children.length

/-- The two trees look the same at every position. -/
def LooksLike (t u : TextTree) : Prop :=
  ∀ path, (t.at? path).map face = (u.at? path).map face

mutual

theorem LooksLike.eq : (t u : TextTree) → t.LooksLike u → t = u
  | .terminal name value tags, u, h => by
    have hface := Option.some.inj (h [])
    cases u with
    | terminal => simp_all [face, TextTree.name, TextTree.value, TextTree.tags]
    | container => simp [face, isTerminal] at hface
  | .container name tags children, u, h => by
    have hface := Option.some.inj (h [])
    cases u with
    | terminal => simp [face, isTerminal] at hface
    | container name' tags' children' =>
      simp only [face, Face.mk.injEq] at hface
      obtain ⟨rfl, rfl, -, -, hlength⟩ := hface
      rw [LooksLike.eq_all children children' hlength fun number path => h (number :: path)]
      rfl

theorem LooksLike.eq_all : (ts us : List TextTree) → ts.length = us.length →
    (∀ (number : Nat) (path : List Nat), (ts[number]?.bind fun t : TextTree => t.at? path).map face =
      (us[number]?.bind fun u : TextTree => u.at? path).map face) → ts = us
  | [], [], _, _ => rfl
  | t :: ts, u :: us, hlength, h => by
    have hfirst : t = u := LooksLike.eq t u fun path => h 0 path
    have hrest : ts = us := LooksLike.eq_all ts us (by simpa using hlength) fun number path => h (number + 1) path
    rw [hfirst, hrest]

end

theorem looksLike_iff {t u : TextTree} : t.LooksLike u ↔ t = u :=
  ⟨LooksLike.eq t u, fun h _ => by rw [h]⟩

end QueryByExample.TextTree
