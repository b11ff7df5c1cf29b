/-
The branch of one node, opened up: what its leaves come to, in order, and the
first of them that fails.
-/
import QueryByExample.Graph.Branch

namespace QueryByExample
variable {ι α β ε : Type}

theorem Node.branch_of_untagged {node : Node ι} {visit} (h : node.tags = []) :
    node.branch visit = .error (.missingTypeTag node.name) := by
  simp [Node.branch, h]

theorem Node.branch_of_tagged {node : Node ι} {visit} {tag : String} {tags : List String}
    (h : node.tags = tag :: tags) : node.branch visit =
      (node.leaves.mapM fun (leaf : String × Leaf ι) => leaf.2.part leaf.1 (visit leaf.1 tag)).map
        (Branch.ofParts tag node.isMatch node.custom) := by
  simp only [Node.branch, h]
  cases node.leaves.mapM fun (leaf : String × Leaf ι) => leaf.2.part leaf.1 (visit leaf.1 tag) <;> rfl

theorem mapM_eq_ite {f : α → Except ε β} {g : α → β} {p : α → Prop} [DecidablePred p] {e : ε}
    (xs : List α) (h : ∀ x ∈ xs, f x = if p x then .ok (g x) else .error e) :
    xs.mapM f = if ∀ x ∈ xs, p x then .ok (xs.map g) else .error e := by
  induction xs with
  | nil => rfl
  | cons x xs ih =>
    have hx := h x (by simp)
    have hxs := ih fun y hy => h y (by simp [hy])
    rw [List.mapM_cons, hx, hxs]
    by_cases hp : p x
    · by_cases hall : ∀ y ∈ xs, p y
      · rw [if_pos hp, if_pos hall, if_pos (List.forall_mem_cons.2 ⟨hp, hall⟩)]
        rfl
      · rw [if_pos hp, if_neg hall, if_neg fun h => hall (List.forall_mem_cons.1 h).2]
        rfl
    · rw [if_neg hp, if_neg fun h => hp (List.forall_mem_cons.1 h).1]
      rfl

theorem mapM_congr_mem {f g : α → Except ε β} {xs : List α} (h : ∀ x ∈ xs, f x = g x) : xs.mapM f = xs.mapM g := by
  induction xs with
  | nil => rfl
  | cons x xs ih =>
    rw [List.mapM_cons, List.mapM_cons, h x (by simp), ih fun y hy => h y (by simp [hy])]

theorem ok_of_mapM_eq_ok {f : α → Except ε β} {xs : List α} {ys : List β} (h : xs.mapM f = .ok ys) :
    ∀ x ∈ xs, ∃ y, f x = .ok y := by
  induction xs generalizing ys with
  | nil => simp
  | cons x xs ih =>
    rw [List.mapM_cons] at h
    cases hx : f x with
    | error e => rw [hx] at h; cases h
    | ok y =>
      cases hxs : xs.mapM f with
      | error e => rw [hx, hxs] at h; cases h
      | ok ys => exact List.forall_mem_cons.2 ⟨⟨y, hx⟩, ih hxs⟩

/-- A walk that succeeds gives what the visits give. -/
theorem eq_filterMap_of_mapM_eq_ok {f : α → Except ε β} {xs : List α} {ys : List β} (h : xs.mapM f = .ok ys) :
    ys = xs.filterMap fun x => (f x).toOption := by
  induction xs generalizing ys with
  | nil => cases h; rfl
  | cons x xs ih =>
    rw [List.mapM_cons] at h
    cases hx : f x with
    | error e => rw [hx] at h; cases h
    | ok y =>
      cases hxs : xs.mapM f with
      | error e => rw [hx, hxs] at h; cases h
      | ok ys' =>
        rw [hx, hxs] at h
        cases h
        rw [List.filterMap_cons, hx, ih hxs]
        rfl

theorem exists_of_mapM_eq_ok {f : α → Except ε β} {xs : List α} {ys : List β} (h : xs.mapM f = .ok ys) :
    ∀ y ∈ ys, ∃ x ∈ xs, f x = .ok y := by
  intro y hy
  rw [eq_filterMap_of_mapM_eq_ok h, List.mem_filterMap] at hy
  obtain ⟨x, hx, hsome⟩ := hy
  cases hfx : f x with
  | error e => rw [hfx] at hsome; cases hsome
  | ok y' => rw [hfx] at hsome; cases hsome; exact ⟨x, hx, hfx⟩

theorem eq_map_of_mapM_eq_ok {f : α → Except ε β} {g : α → β} {xs : List α} {ys : List β} (h : xs.mapM f = .ok ys)
    (hg : ∀ x ∈ xs, ∀ y, f x = .ok y → y = g x) : ys = xs.map g := by
  have hok : ∀ x ∈ xs, f x = .ok (g x) := fun x hx => by
    obtain ⟨y, hy⟩ := ok_of_mapM_eq_ok h x hx
    rw [hy, hg x hx y hy]
  rw [mapM_congr_mem hok] at h
  exact Except.ok.inj (h.symm.trans List.mapM_pure)

theorem exists_error_of_mapM_eq_error {f : α → Except ε β} {xs : List α} {e : ε}
    (h : xs.mapM f = .error e) : ∃ x ∈ xs, f x = .error e := by
  induction xs with
  | nil => cases h
  | cons x xs ih =>
    rw [List.mapM_cons] at h
    cases hx : f x with
    | error e' =>
      rw [hx] at h
      cases h
      exact ⟨x, by simp, hx⟩
    | ok y =>
      cases hxs : xs.mapM f with
      | ok ys => rw [hx, hxs] at h; cases h
      | error e' =>
        rw [hx, hxs] at h
        cases h
        obtain ⟨x', hx', he⟩ := ih hxs
        exact ⟨x', by simp [hx'], he⟩

theorem mapM_eq_or_error {f g : α → Except ε β} {e : ε} (xs : List α)
    (h : ∀ x ∈ xs, f x = g x ∨ f x = .error e) :
    xs.mapM f = xs.mapM g ∨ xs.mapM f = .error e := by
  induction xs with
  | nil => exact .inl rfl
  | cons x xs ih =>
    rw [List.mapM_cons, List.mapM_cons]
    rcases h x (by simp) with hx | hx
    · rcases ih fun y hy => h y (by simp [hy]) with hxs | hxs
      · exact .inl (by rw [hx, hxs])
      · rw [hxs, ← hx]
        -- an error of `x` itself comes before those of the rest
        cases hfx : f x with
        | error e' => exact .inl rfl
        | ok y => exact .inr rfl
    · rw [hx]
      exact .inr rfl

theorem Leaf.ok_of_part_node {name : String} {visit : ι → Except CompileError Branch} {id : ι} {part : Part}
    (h : (Leaf.node id).part name visit = .ok part) : ∃ b, visit id = .ok b ∧ part = .branch name b := by
  rw [Leaf.part] at h
  cases hv : visit id with
  | error e => rw [hv] at h; cases h
  | ok b => rw [hv] at h; exact ⟨b, rfl, (Except.ok.inj h).symm⟩

/-- A node that compiles has a tag, and its branch is made of the parts that its
leaves come to. -/
theorem Node.eq_ofParts_of_branch_eq_ok {node : Node ι} {visit} {b : Branch} (h : node.branch visit = .ok b) :
    ∃ tag tags parts, node.tags = tag :: tags ∧
      (node.leaves.mapM fun (leaf : String × Leaf ι) => leaf.2.part leaf.1 (visit leaf.1 tag)) = .ok parts ∧
      b = .ofParts tag node.isMatch node.custom parts := by
  cases htags : node.tags with
  | nil => rw [Node.branch_of_untagged htags] at h; cases h
  | cons tag tags =>
    rw [Node.branch_of_tagged htags] at h
    cases hparts : node.leaves.mapM fun (leaf : String × Leaf ι) => leaf.2.part leaf.1 (visit leaf.1 tag) with
    | error e => rw [hparts] at h; cases h
    | ok parts =>
      rw [hparts] at h
      exact ⟨tag, tags, parts, rfl, hparts, (Except.ok.inj h).symm⟩

/-- A node that compiles has a tag, and every node in its fields compiles. -/
theorem Node.ok_of_branch_eq_ok {node : Node ι} {visit} {b : Branch} (h : node.branch visit = .ok b) :
    ∃ tag tags, node.tags = tag :: tags ∧
      ∀ name id, (name, Leaf.node id) ∈ node.leaves → ∃ b', visit name tag id = .ok b' := by
  obtain ⟨tag, tags, parts, htags, hparts, -⟩ := eq_ofParts_of_branch_eq_ok h
  refine ⟨tag, tags, htags, fun name id hmem => ?_⟩
  obtain ⟨part, hpart⟩ := ok_of_mapM_eq_ok hparts _ hmem
  obtain ⟨b', hb', -⟩ := Leaf.ok_of_part_node hpart
  exact ⟨b', hb'⟩

/-- A node fails to compile for want of a tag, or because a node in its fields
fails. -/
theorem Node.error_of_branch_eq_error {node : Node ι} {visit} {e : CompileError}
    (h : node.branch visit = .error e) :
    (node.tags = [] ∧ e = .missingTypeTag node.name) ∨
      ∃ tag tags name id, node.tags = tag :: tags ∧ (name, Leaf.node id) ∈ node.leaves ∧
        visit name tag id = .error e := by
  cases htags : node.tags with
  | nil =>
    rw [Node.branch_of_untagged htags] at h
    exact .inl ⟨rfl, (Except.error.inj h).symm⟩
  | cons tag tags =>
    rw [Node.branch_of_tagged htags] at h
    cases hparts : node.leaves.mapM fun (leaf : String × Leaf ι) => leaf.2.part leaf.1 (visit leaf.1 tag) with
    | ok parts => rw [hparts] at h; cases h
    | error e' =>
      rw [hparts] at h
      cases h
      obtain ⟨⟨name, value | id⟩, hmem, hpart⟩ := exists_error_of_mapM_eq_error hparts
      · cases hpart
      · refine .inr ⟨tag, tags, name, id, rfl, hmem, ?_⟩
        simp only [Leaf.part] at hpart
        cases hv : visit name tag id with
        | ok b => rw [hv] at hpart; cases hpart
        | error e'' => rw [hv] at hpart; cases hpart; rfl

/-- Where a visit does as another one or fails with a given error, so does the
branch of a node. -/
theorem Node.branch_eq_or_error {node : Node ι} {visit visit'} {e : CompileError}
    (h : ∀ name tag id, visit name tag id = visit' name tag id ∨ visit name tag id = .error e) :
    node.branch visit = node.branch visit' ∨ node.branch visit = .error e := by
  cases htags : node.tags with
  | nil => exact .inl (by rw [Node.branch_of_untagged htags, Node.branch_of_untagged htags])
  | cons tag tags =>
    have hleaf : ∀ leaf ∈ node.leaves,
        leaf.2.part leaf.1 (visit leaf.1 tag) = leaf.2.part leaf.1 (visit' leaf.1 tag) ∨
          leaf.2.part leaf.1 (visit leaf.1 tag) = .error e := by
      rintro ⟨name, value | id⟩ -
      · exact .inl rfl
      · simp only [Leaf.part]
        rcases h name tag id with hv | hv
        · exact .inl (by rw [hv])
        · exact .inr (by rw [hv]; rfl)
    rw [Node.branch_of_tagged htags, Node.branch_of_tagged htags]
    rcases mapM_eq_or_error node.leaves hleaf with hm | hm
    · exact .inl (by rw [hm])
    · exact .inr (by rw [hm]; rfl)

end QueryByExample
