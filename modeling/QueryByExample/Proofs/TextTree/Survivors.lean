/-
Which nodes a view has.

A position survives a filter when the selector keeps the node there and all
above it but the root, asked of the nodes that the tree has there. The nodes of
the view are those at the surviving positions: `origin` leads from a position in
the view to the one in the tree that it shows (`origin_positions`). The text of
the tree falls into pieces, the surviving terminals and the topmost nodes that do
not survive (`textOf_pieces`), and the text of the view is what is left without
the latter (`value_filter`). `filter_survivors` says both of every node.
-/
import Mathlib.Data.List.Infix
import Mathlib.Data.List.Sort
import QueryByExample.Proofs.TextTree.DocumentOrder
import QueryByExample.Proofs.TextTree.Views

namespace QueryByExample.TextTree
variable (s : Selector Id)

/-! ## Surviving positions -/

/-- The selector keeps the node at the position and all above it, the root apart. -/
def Survives (t : TextTree) (path : List Nat) : Prop :=
  ∀ above, above <+: path → above ≠ [] → ∃ x, t.at? above = some x ∧ (s.keep x).run = true

instance (t : TextTree) : DecidablePred (Survives s t) := fun path =>
  decidable_of_iff (∀ above ∈ path.inits, above ≠ [] → (t.at? above).any fun x => (s.keep x).run) (by
    simp only [List.mem_inits, Option.any_eq_true, Survives])

@[simp] theorem survives_nil (t : TextTree) : Survives s t [] :=
  fun _ habove hne => absurd (List.prefix_nil.1 habove) hne

theorem survives_cons {t : TextTree} {number : Nat} {path : List Nat} : Survives s t (number :: path) ↔
    ∃ child, t.children[number]? = some child ∧ (s.keep child).run = true ∧ Survives s child path := by
  rw [Survives, forall_prefix_cons]
  simp only [ne_eq, not_true_eq_false, false_implies, true_and, reduceCtorEq, not_false_eq_true, true_implies, at?]
  constructor
  · intro h
    obtain ⟨child, hchild, hkeep⟩ := h [] List.nil_prefix
    obtain ⟨child, hnumber, ⟨⟩⟩ := Option.bind_eq_some_iff.1 hchild
    refine ⟨_, hnumber, hkeep, fun above habove _ => ?_⟩
    have hbelow := h above habove
    rw [hnumber] at hbelow
    exact hbelow
  · rintro ⟨child, hnumber, hkeep, hbelow⟩ above habove
    rw [hnumber]
    cases above with
    | nil => exact ⟨child, rfl, hkeep⟩
    | cons number above => exact hbelow (number :: above) habove (by simp)

/-! ## From the view to the tree -/

/-- The children that are kept, with their numbers. -/
def kept (t : TextTree) : List (TextTree × Nat) :=
  t.children.zipIdx.filter fun child => (s.keep child.1).run

theorem children_filter_eq (t : TextTree) : (t.filter s).children = (kept s t).map fun child => child.1.filter s := by
  rw [children_filter, kept]
  conv_lhs => rw [← List.zipIdx_map_fst 0 t.children, List.filter_map, List.map_map]
  rfl

theorem mem_kept_iff {t child : TextTree} {number : Nat} :
    (child, number) ∈ kept s t ↔ t.children[number]? = some child ∧ (s.keep child).run = true := by
  rw [kept, List.mem_filter, List.mem_zipIdx_iff_getElem?]

theorem kept_pairwise (t : TextTree) : (kept s t).Pairwise fun child child' => child.2 < child'.2 := by
  have hnumbers : (t.children.zipIdx.map Prod.snd).Pairwise (· < ·) := by
    rw [List.zipIdx_map_snd]
    exact List.pairwise_lt_range'
  exact (List.pairwise_map.1 hnumbers).filter _

/-- The position in the tree of the node that a view has at a position. -/
def origin (t : TextTree) : List Nat → List Nat
  | [] => []
  | number :: path =>
    match (kept s t)[number]? with
    | some (child, original) => original :: origin child path
    | none => number :: path

theorem origin_cons {t child : TextTree} {number original : Nat} {path : List Nat}
    (h : (kept s t)[number]? = some (child, original)) :
    origin s t (number :: path) = original :: origin s child path := by
  rw [origin, h]

theorem at?_filter_cons (t : TextTree) (number : Nat) (path : List Nat) : (t.filter s).at? (number :: path) =
    (kept s t)[number]?.bind fun child => (child.1.filter s).at? path := by
  rw [at?, children_filter_eq, List.getElem?_map, Option.bind_map]
  rfl

/-- A node of a view is the view of the node that it shows, which survives. -/
theorem at?_filter {t view : TextTree} {path : List Nat} (h : (t.filter s).at? path = some view) :
    ∃ x, t.at? (origin s t path) = some x ∧ view = x.filter s ∧ Survives s t (origin s t path) := by
  induction path generalizing t with
  | nil =>
    obtain rfl : t.filter s = view := Option.some.inj h
    exact ⟨t, rfl, rfl, survives_nil s t⟩
  | cons number path ih =>
    rw [at?_filter_cons, Option.bind_eq_some_iff] at h
    obtain ⟨⟨child, original⟩, hkept, h⟩ := h
    obtain ⟨hnumber, hkeep⟩ := (mem_kept_iff s).1 (List.mem_of_getElem? hkept)
    obtain ⟨x, hx, hview, hsurvives⟩ := ih h
    rw [origin_cons s hkept]
    refine ⟨x, ?_, hview, (survives_cons s).2 ⟨child, hnumber, hkeep, hsurvives⟩⟩
    rw [at?, hnumber]
    exact hx

/-- Every surviving node shows in the view. -/
theorem exists_origin {t : TextTree} {path : List Nat} (h : Survives s t path) :
    ∃ shown, ((t.filter s).at? shown).isSome ∧ origin s t shown = path := by
  induction path generalizing t with
  | nil => exact ⟨[], rfl, rfl⟩
  | cons original path ih =>
    obtain ⟨child, hnumber, hkeep, hbelow⟩ := (survives_cons s).1 h
    obtain ⟨shown, hshown, horigin⟩ := ih hbelow
    obtain ⟨number, hkept⟩ := List.mem_iff_getElem?.1 ((mem_kept_iff s).2 ⟨hnumber, hkeep⟩)
    refine ⟨number :: shown, ?_, by rw [origin_cons s hkept, horigin]⟩
    rw [at?_filter_cons, hkept]
    exact hshown

theorem origin_lt {t : TextTree} {path path' : List Nat} (h : ((t.filter s).at? path).isSome)
    (h' : ((t.filter s).at? path').isSome) (hlt : path < path') : origin s t path < origin s t path' := by
  induction path generalizing t path' with
  | nil =>
    cases path' with
    | nil => exact absurd hlt (List.not_lt_nil [])
    | cons number' path' =>
      rw [at?_filter_cons, Option.isSome_bind, Option.any_eq_true] at h'
      obtain ⟨⟨child', original'⟩, hkept', -⟩ := h'
      rw [origin_cons s hkept']
      exact List.nil_lt_cons original' _
  | cons number path ih =>
    cases path' with
    | nil => exact absurd hlt (List.not_lt_nil _)
    | cons number' path' =>
      rw [at?_filter_cons, Option.isSome_bind, Option.any_eq_true] at h h'
      obtain ⟨⟨child, original⟩, hkept, h⟩ := h
      obtain ⟨⟨child', original'⟩, hkept', h'⟩ := h'
      rw [origin_cons s hkept, origin_cons s hkept']
      rcases List.cons_lt_cons_iff.1 hlt with hnumber | ⟨rfl, hpath⟩
      · have horiginal : original < original' := by
          obtain ⟨hbound, hat⟩ := List.getElem?_eq_some_iff.1 hkept
          obtain ⟨hbound', hat'⟩ := List.getElem?_eq_some_iff.1 hkept'
          have hordered := List.pairwise_iff_getElem.1 (kept_pairwise s t) number number' hbound hbound' hnumber
          rwa [hat, hat'] at hordered
        exact List.cons_lt_cons_iff.2 (.inl horiginal)
      · rw [hkept] at hkept'
        obtain ⟨rfl, rfl⟩ : child = child' ∧ original = original' := by simpa using hkept'
        exact List.cons_lt_cons_iff.2 (.inr ⟨rfl, ih h h' hpath⟩)

/-- A child of a node in the view shows a child of the node that this one shows. -/
theorem origin_concat {t : TextTree} {path : List Nat} {number : Nat}
    (h : ((t.filter s).at? (path ++ [number])).isSome) :
    ∃ original, origin s t (path ++ [number]) = origin s t path ++ [original] := by
  induction path generalizing t with
  | nil =>
    rw [List.nil_append, at?_filter_cons, Option.isSome_bind, Option.any_eq_true] at h
    obtain ⟨⟨child, original⟩, hkept, -⟩ := h
    exact ⟨original, origin_cons s hkept⟩
  | cons number' path ih =>
    rw [List.cons_append, at?_filter_cons, Option.isSome_bind, Option.any_eq_true] at h
    obtain ⟨⟨child, original'⟩, hkept, h⟩ := h
    obtain ⟨original, horiginal⟩ := ih h
    refine ⟨original, ?_⟩
    rw [List.cons_append, origin_cons s hkept, origin_cons s hkept, horiginal, List.cons_append]

/-- **The nodes of a view** show, in document order, the nodes at the surviving
positions of the tree. -/
theorem origin_positions (t : TextTree) :
    (t.filter s).positions.map (origin s t) = t.positions.filter fun path => Survives s t path := by
  -- Both lists are in document order, so they are equal as soon as they have the same members.
  have hview : ((t.filter s).positions.map (origin s t)).Pairwise (· < ·) := by
    rw [List.pairwise_map]
    refine (positions_pairwise (t.filter s)).imp_of_mem fun h h' hlt => ?_
    exact origin_lt s (mem_positions_iff.1 h) (mem_positions_iff.1 h') hlt
  refine hview.eq_of_mem_iff ((positions_pairwise t).filter _) fun path => ?_
  simp only [List.mem_map, List.mem_filter, mem_positions_iff, decide_eq_true_eq]
  constructor
  · rintro ⟨shown, hshown, rfl⟩
    obtain ⟨view, hview⟩ := Option.isSome_iff_exists.1 hshown
    obtain ⟨x, hx, -, hsurvives⟩ := at?_filter s hview
    exact ⟨by rw [hx]; rfl, hsurvives⟩
  · rintro ⟨-, hsurvives⟩
    exact exists_origin s hsurvives

-- The comment in front is dropped, so what was the second child is the first in the view.
example :
    let call := container "call" [] [.terminal "comment" "/* hi */" [], .container "args" [] [.terminal "args" "()" []]]
    (call.filter (.named ["args"])).positions = [[], [0], [0, 0]] ∧
    (call.filter (.named ["args"])).positions.map (origin (.named ["args"]) call) = [[], [1], [1, 0]] := by decide

/-! ## Text -/

def isTerminalAt (t : TextTree) (path : List Nat) : Bool :=
  (t.at? path).any isTerminal

/-- The text of the node at a position. -/
def textAt (t : TextTree) (path : List Nat) : String :=
  ((t.at? path).map value).getD ""

/-- The position of a topmost node that does not survive. -/
def IsCutOff (t : TextTree) (path : List Nat) : Prop :=
  path ≠ [] ∧ Survives s t path.dropLast ∧ ¬ Survives s t path

instance (t : TextTree) : DecidablePred (IsCutOff s t) := fun _ => inferInstanceAs (Decidable (_ ∧ _))

/-- The position of a terminal that survives. -/
def IsKeptTerminal (t : TextTree) (path : List Nat) : Prop :=
  Survives s t path ∧ t.isTerminalAt path = true

instance (t : TextTree) : DecidablePred (IsKeptTerminal s t) := fun _ => inferInstanceAs (Decidable (_ ∧ _))

/-- The positions of the pieces that a filter cuts the text of a tree into. -/
def IsPiece (t : TextTree) (path : List Nat) : Prop :=
  IsKeptTerminal s t path ∨ IsCutOff s t path

instance (t : TextTree) : DecidablePred (IsPiece s t) := fun _ => inferInstanceAs (Decidable (_ ∨ _))

theorem survives_cons_of {t child : TextTree} {number : Nat} (h : t.children[number]? = some child) (path : List Nat) :
    Survives s t (number :: path) ↔ (s.keep child).run = true ∧ Survives s child path := by
  rw [survives_cons, h]
  simp

section Child
variable {t child : TextTree} {number : Nat} (h : t.children[number]? = some child) (path : List Nat)
include h

theorem at?_cons : t.at? (number :: path) = child.at? path := by
  rw [at?, h]
  rfl

theorem textAt_cons : t.textAt (number :: path) = child.textAt path := by
  rw [textAt, at?_cons h, textAt]

theorem isTerminalAt_cons : t.isTerminalAt (number :: path) = child.isTerminalAt path := by
  rw [isTerminalAt, at?_cons h, isTerminalAt]

theorem isPiece_of_keep (hkeep : (s.keep child).run = true) :
    IsPiece s t (number :: path) ↔ IsPiece s child path := by
  rw [IsPiece, IsKeptTerminal, IsCutOff, survives_cons_of s h, isTerminalAt_cons h, IsPiece, IsKeptTerminal, IsCutOff]
  cases path with
  | nil => simp [hkeep]
  | cons number' path => simp [hkeep, survives_cons_of s h]

theorem isPiece_of_not_keep (hkeep : (s.keep child).run = false) :
    IsPiece s t (number :: path) ↔ path = [] := by
  rw [IsPiece, IsKeptTerminal, IsCutOff, survives_cons_of s h]
  cases path with
  | nil => simp [hkeep]
  | cons number' path => simp [hkeep, survives_cons_of s h]

end Child

/-- The texts of the nodes at positions, one after the other. -/
def textOf (t : TextTree) (paths : List (List Nat)) : String :=
  String.join (paths.map t.textAt)

theorem textOf_below {t child : TextTree} {number : Nat} (h : t.children[number]? = some child)
    (paths : List (List Nat)) : t.textOf (paths.map (number :: ·)) = child.textOf paths := by
  rw [textOf, textOf, List.map_map]
  congr 1
  exact List.map_congr_left fun path _ => textAt_cons h path

/-- The pieces below a child: its own where it is kept, else the child as a whole. -/
theorem textOf_child_pieces {t child : TextTree} {number : Nat} (h : t.children[number]? = some child)
    (hpieces : child.textOf (child.positions.filter fun path => IsPiece s child path) = child.value) :
    t.textOf ((child.positions.map (number :: ·)).filter fun path => IsPiece s t path) = child.value := by
  rw [List.filter_map, textOf_below h]
  cases hkeep : (s.keep child).run with
  | true =>
    rw [← hpieces]
    congr 1
    exact List.filter_congr fun path _ => decide_eq_decide.2 (isPiece_of_keep s h path hkeep)
  | false =>
    have hroot : child.positions.filter ((fun path => decide (IsPiece s t path)) ∘ (number :: ·)) = [[]] := by
      rw [positions_eq, List.filter_cons_of_pos (by simp [isPiece_of_not_keep s h _ hkeep]), List.filter_eq_nil_iff.2]
      intro path hpath
      have hne : path ≠ [] := fun heq => not_nil_mem_numbered 0 _ (heq ▸ hpath)
      simp [isPiece_of_not_keep s h _ hkeep, hne]
    rw [hroot]
    simp [textOf, textAt, at?]

mutual

/-- The text of a tree is that of its pieces. -/
theorem textOf_pieces : (t : TextTree) → t.textOf (t.positions.filter fun path => IsPiece s t path) = t.value
  | .terminal name value tags => by
    have hroot : IsPiece s (terminal name value tags) [] := .inl ⟨survives_nil s _, rfl⟩
    rw [positions, List.filter_cons_of_pos (by simpa using hroot)]
    simp [textOf, textAt, at?]
  | .container name tags children => by
    have hroot : ¬ IsPiece s (container name tags children) [] := by
      simp [IsPiece, IsKeptTerminal, IsCutOff, isTerminalAt, at?, isTerminal]
    rw [positions, List.filter_cons_of_neg (by simpa using hroot), TextTree.value]
    exact textOf_piecesBelow children (container name tags children) 0 rfl

/-- Of a node, of which only the children from a number on are looked at. -/
theorem textOf_piecesBelow : (ts : List TextTree) → (t : TextTree) → (first : Nat) → t.children.drop first = ts →
    t.textOf ((numbered first (positionsOfAll ts)).filter fun path => IsPiece s t path) = valueOfAll ts
  | [], t, first, _ => by simp [positionsOfAll, numbered, textOf, valueOfAll]
  | child :: ts, t, first, hts => by
    have hchild : t.children[first]? = some child := by rw [← List.head?_drop, hts]; rfl
    have hrest := textOf_piecesBelow ts t (first + 1) (by rw [← List.tail_drop, hts]; rfl)
    rw [positionsOfAll, numbered, List.filter_append, textOf, List.map_append, String.join_append, ← textOf, ← textOf,
      hrest, textOf_child_pieces s hchild (textOf_pieces child), valueOfAll]

end

/-- Where nothing is cut off, the pieces are the terminals. -/
theorem textOf_terminals (t : TextTree) : t.textOf (t.positions.filter t.isTerminalAt) = t.value := by
  rw [← textOf_pieces .all t]
  congr 1
  refine List.filter_congr fun path hpath => ?_
  have hsurvives : Survives .all t path := fun above ⟨rest, hrest⟩ _ => by
    have hsome := mem_positions_iff.1 hpath
    rw [← hrest, at?_append, Option.isSome_bind, Option.any_eq_true] at hsome
    obtain ⟨x, hx, -⟩ := hsome
    exact ⟨x, hx, rfl⟩
  simp [IsPiece, IsKeptTerminal, IsCutOff, hsurvives]

/-- The text of a view is that of the terminals that survive. -/
theorem value_filter (t : TextTree) : (t.filter s).value = t.textOf (t.positions.filter fun path => IsKeptTerminal s t path) := by
  have hterminal : ∀ path ∈ (t.filter s).positions,
      (t.filter s).isTerminalAt path = t.isTerminalAt (origin s t path) := fun path hpath => by
    obtain ⟨view, hview⟩ := Option.isSome_iff_exists.1 (mem_positions_iff.1 hpath)
    obtain ⟨x, hx, rfl, -⟩ := at?_filter s hview
    rw [isTerminalAt, isTerminalAt, hview, hx, Option.any_some, Option.any_some, isTerminal_filter]
  have htext : ∀ path ∈ (t.filter s).positions.filter (t.filter s).isTerminalAt,
      (t.filter s).textAt path = t.textAt (origin s t path) := fun path hpath => by
    obtain ⟨hmem, hpath⟩ := List.mem_filter.1 hpath
    obtain ⟨view, hview⟩ := Option.isSome_iff_exists.1 (mem_positions_iff.1 hmem)
    obtain ⟨x, hx, rfl, -⟩ := at?_filter s hview
    rw [textAt, textAt, hview, hx]
    rw [isTerminalAt, hview, Option.any_some, isTerminal_filter] at hpath
    cases x with
    | terminal => rfl
    | container => cases hpath
  calc (t.filter s).value
      = (t.filter s).textOf ((t.filter s).positions.filter (t.filter s).isTerminalAt) := (textOf_terminals _).symm
    _ = t.textOf (((t.filter s).positions.filter (t.filter s).isTerminalAt).map (origin s t)) := by
        rw [textOf, textOf, List.map_map, List.map_congr_left htext]
        rfl
    _ = t.textOf (((t.filter s).positions.map (origin s t)).filter t.isTerminalAt) := by
        rw [List.filter_map, List.filter_congr hterminal]
        rfl
    _ = t.textOf (t.positions.filter fun path => IsKeptTerminal s t path) := by
        rw [origin_positions, List.filter_filter]
        congr 1
        refine List.filter_congr fun path _ => ?_
        rw [Bool.eq_iff_iff, Bool.and_eq_true, decide_eq_true_iff, decide_eq_true_iff]
        exact and_comm

/-! ## At every node -/

section Below
variable {t x : TextTree} {path : List Nat} (h : t.at? path = some x)
include h

/-- The positions at or below a position are those of the node there. -/
theorem positions_below : t.positions.filter (path <+: ·) = x.positions.map (path ++ ·) := by
  have hbelow : (x.positions.map (path ++ ·)).Pairwise (· < ·) :=
    List.pairwise_map.2 ((positions_pairwise x).imp fun hlt => List.append_left_lt hlt)
  refine ((positions_pairwise t).filter _).eq_of_mem_iff hbelow fun below => ?_
  simp only [List.mem_filter, List.mem_map, mem_positions_iff, decide_eq_true_eq]
  constructor
  · rintro ⟨hsome, rest, rfl⟩
    rw [at?_append, h] at hsome
    exact ⟨rest, hsome, rfl⟩
  · rintro ⟨rest, hsome, rfl⟩
    rw [at?_append, h]
    exact ⟨hsome, List.prefix_append path rest⟩

theorem textAt_below (rest : List Nat) : t.textAt (path ++ rest) = x.textAt rest := by
  rw [textAt, at?_append, h, textAt]
  rfl

theorem isTerminalAt_below (rest : List Nat) : t.isTerminalAt (path ++ rest) = x.isTerminalAt rest := by
  rw [isTerminalAt, at?_append, h, isTerminalAt]
  rfl

/-- The text at the positions at or below a position that have a property. -/
theorem textOf_positions_below (P Q : List Nat → Prop) [DecidablePred P] [DecidablePred Q]
    (hPQ : ∀ rest, P (path ++ rest) ↔ Q rest) :
    t.textOf (t.positions.filter fun below => path <+: below ∧ P below) = x.textOf (x.positions.filter fun rest => Q rest) := by
  have hfilter : t.positions.filter (fun below => path <+: below ∧ P below) =
      (x.positions.filter fun rest => Q rest).map (path ++ ·) := by
    have hboth : (fun below => decide (path <+: below ∧ P below)) = fun below => decide (P below) && decide (path <+: below) := by
      funext below
      rw [Bool.decide_and, Bool.and_comm]
    rw [hboth, ← List.filter_filter, positions_below h, List.filter_map]
    congr 1
    exact List.filter_congr fun rest _ => decide_eq_decide.2 (hPQ rest)
  rw [hfilter, textOf, textOf, List.map_map]
  congr 1
  exact List.map_congr_left fun rest _ => textAt_below h rest

end Below

theorem survives_append {t x : TextTree} {path : List Nat} (h : t.at? path = some x) (hpath : Survives s t path)
    (rest : List Nat) : Survives s t (path ++ rest) ↔ Survives s x rest := by
  induction path generalizing t with
  | nil =>
    obtain rfl : t = x := Option.some.inj h
    rfl
  | cons number path ih =>
    obtain ⟨child, hnumber, hkeep, hbelow⟩ := (survives_cons s).1 hpath
    rw [at?_cons hnumber] at h
    rw [List.cons_append, survives_cons_of s hnumber, ih h hbelow]
    exact and_iff_right hkeep

section Surviving
variable {t x : TextTree} {path : List Nat} (h : t.at? path = some x) (hpath : Survives s t path) (rest : List Nat)
include h hpath

theorem isKeptTerminal_append : IsKeptTerminal s t (path ++ rest) ↔ IsKeptTerminal s x rest := by
  rw [IsKeptTerminal, IsKeptTerminal, survives_append s h hpath, isTerminalAt_below h]

theorem isCutOff_append : IsCutOff s t (path ++ rest) ↔ IsCutOff s x rest := by
  rw [IsCutOff, IsCutOff, survives_append s h hpath]
  cases rest with
  | nil => simp
  | cons number rest =>
    have hne : number :: rest ≠ [] := List.cons_ne_nil number rest
    rw [List.dropLast_append_of_ne_nil hne, survives_append s h hpath]
    simp

theorem isPiece_append : IsPiece s t (path ++ rest) ↔ IsPiece s x rest := by
  rw [IsPiece, isKeptTerminal_append s h hpath, isCutOff_append s h hpath, IsPiece]

end Surviving

/-- **A view keeps the right nodes and the right text.** The nodes of a view
correspond one to one, in document order and each child to a child, to the
surviving positions of the tree, and each has the name, the tags and the kind of
the node there. Its value is the text of the surviving terminals at or below that
position, in document order; the value of the tree's own node has, between these,
the texts of the topmost nodes that do not survive, and no other text. -/
theorem filter_survivors (s : Selector Id) (t : TextTree) : ∃ place : List Nat → List Nat,
    (t.filter s).positions.map place = t.positions.filter (fun path => Survives s t path) ∧
    (∀ path path', ((t.filter s).at? path).isSome → ((t.filter s).at? path').isSome → path < path' →
      place path < place path') ∧
    place [] = [] ∧
    (∀ path number, ((t.filter s).at? (path ++ [number])).isSome →
      ∃ original, place (path ++ [number]) = place path ++ [original]) ∧
    ∀ path view, (t.filter s).at? path = some view → ∃ x, t.at? (place path) = some x ∧
      view.name = x.name ∧ view.tags = x.tags ∧ view.isTerminal = x.isTerminal ∧
      view.value = t.textOf (t.positions.filter fun below => place path <+: below ∧ IsKeptTerminal s t below) ∧
      x.value = t.textOf (t.positions.filter fun below =>
        place path <+: below ∧ (IsKeptTerminal s t below ∨ IsCutOff s t below)) := by
  refine ⟨origin s t, origin_positions s t, fun _ _ => origin_lt s, rfl, fun _ _ => origin_concat s,
    fun path view hview => ?_⟩
  obtain ⟨x, hx, rfl, hsurvives⟩ := at?_filter s hview
  refine ⟨x, hx, name_filter s x, tags_filter s x, isTerminal_filter s x, ?_, ?_⟩
  · rw [value_filter, textOf_positions_below hx _ (IsKeptTerminal s x) (isKeptTerminal_append s hx hsurvives)]
  · have hpieces := textOf_positions_below hx (IsPiece s t) (IsPiece s x) (isPiece_append s hx hsurvives)
    exact (hpieces.trans (textOf_pieces s x)).symm

end QueryByExample.TextTree
