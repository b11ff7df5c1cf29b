/-
Reading the text of a filtered tree.

A node takes two levels of nesting in a text, its object and the array of its
children, so that no node of a tree read from a text has more than `maxLevel`
nodes above it. A node with as many has one level left, enough for a
terminal and for a container that comes with its name alone. But a container
is always written with an array of children, and one more level is beyond the
reader: the text of a filtered tree is read back unless it has a container
there (`read_filteredText`).
-/
import QueryByExample.CommandLine.Run
import QueryByExample.Proofs.Json.Layout
import QueryByExample.Proofs.TextTree.Encoding
import QueryByExample.Proofs.TextTree.Views

namespace QueryByExample.TextTree
open Json

theorem toItems_eq_map (ts : List TextTree) : toItems ts = ts.map toJson := by
  induction ts with
  | nil => rfl
  | cons t ts ih => rw [toItems, ih, List.map_cons]

theorem itemsNesting_strings (tags : List String) : itemsNesting (tags.map .string) = 0 := by
  induction tags with
  | nil => rfl
  | cons tag tags ih => rw [List.map_cons, itemsNesting, ih]; rfl

theorem membersNesting_head (name : String) (tags : List String) (key : String) (value : Json) :
    membersNesting (head name tags ++ [(key, value)]) = max (if tags = [] then 0 else 1) value.nesting := by
  cases tags with
  | nil => simp [head, membersNesting, nesting]
  | cons tag tags =>
    have htags := itemsNesting_strings (tag :: tags)
    rw [List.map_cons] at htags
    simp [head, membersNesting, nesting, htags]

theorem membersNumberFree_head (name : String) (tags : List String) (key : String) (value : Json) :
    membersNumberFree (head name tags ++ [(key, value)]) = value.isNumberFree := by
  have hstrings : allNumberFree (tags.map .string) = true := by
    induction tags with
    | nil => rfl
    | cons tag tags ih => rw [List.map_cons, allNumberFree, ih]; rfl
  cases tags with
  | nil => simp [head, membersNumberFree, isNumberFree]
  | cons tag tags =>
    rw [List.map_cons] at hstrings
    simp [head, membersNumberFree, isNumberFree, hstrings]

theorem nesting_terminal (name value : String) (tags : List String) :
    (terminal name value tags).toJson.nesting = if tags = [] then 1 else 2 := by
  rw [toJson, nesting, membersNesting_head]
  split <;> rfl

theorem nesting_container_le_iff (name : String) (tags : List String) (children : List TextTree) (n : Nat) :
    (container name tags children).toJson.nesting ≤ n + 2 ↔ ∀ child ∈ children, child.toJson.nesting ≤ n := by
  have hhead : (if tags = [] then 0 else 1) ≤ (array (toItems children)).nesting := by
    rw [nesting]
    split <;> omega
  rw [toJson, nesting, membersNesting_head, Nat.max_eq_right hhead, nesting, Nat.add_le_add_iff_right,
    Nat.add_le_add_iff_right, itemsNesting_le_iff, toItems_eq_map, List.forall_mem_map]

mutual

theorem isNumberFree_toJson : (t : TextTree) → t.toJson.isNumberFree = true
  | .terminal name value tags => by
    rw [toJson, isNumberFree, membersNumberFree_head]
    rfl
  | .container name tags children => by
    rw [toJson, isNumberFree, membersNumberFree_head]
    exact allNumberFree_toItems children

theorem allNumberFree_toItems : (ts : List TextTree) → allNumberFree (toItems ts) = true
  | [] => rfl
  | t :: rest => by
    rw [toItems, allNumberFree, isNumberFree_toJson t, allNumberFree_toItems rest]
    rfl

end

section Reading
variable {v : Json} {t : TextTree} {members : List (String × Json)} {tags : List String} {children : List TextTree}

theorem nesting_of_strings? (h : v.strings? = some tags) : 1 ≤ v.nesting := by
  cases v with
  | array items => exact Nat.le_add_left 1 _
  | _ => cases h

theorem nesting_of_tagsIn? (h : tagsIn? members = some tags) (hne : tags ≠ []) : 1 ≤ membersNesting members := by
  rw [tagsIn?] at h
  split at h
  next =>
    cases h
    exact absurd rfl hne
  next value hget =>
    have hle := membersNesting_le_iff.1 (Nat.le_refl _) _ (Keyed.mem_of_get? hget)
    exact Nat.le_trans (nesting_of_strings? h) hle

theorem nesting_of_childrenIn? (h : childrenIn? members = some children) (hne : children ≠ []) :
    ∃ items, ofItems? items = some children ∧ itemsNesting items + 1 ≤ membersNesting members := by
  induction members with
  | nil =>
    cases h
    exact absurd rfl hne
  | cons m rest ih =>
    obtain ⟨key, value⟩ := m
    unfold childrenIn? at h
    rw [membersNesting]
    split at h
    next =>
      split at h
      next items => exact ⟨items, h, Nat.le_max_left _ _⟩
      next => cases h
    next =>
      obtain ⟨items, hitems, hle⟩ := ih h
      exact ⟨items, hitems, Nat.le_trans hle (Nat.le_max_right _ _)⟩

theorem eq_terminal_of_terminalIn? (h : terminalIn? members = some t) :
    ∃ name value tags, tagsIn? members = some tags ∧ t = .terminal name value tags := by
  simp only [terminalIn?, Option.bind_eq_bind, Option.bind_eq_some_iff] at h
  obtain ⟨name, -, tags, htags, h⟩ := h
  split at h
  next value _ =>
    split at h
    next => exact ⟨name, value, tags, htags, (Option.some.inj h).symm⟩
    next => cases h
  next => cases h

/-- What is read from a value nests as its tags and its children ask for. -/
theorem nesting_of_ofJson? (h : ofJson? v = some t) : (t.tags ≠ [] → 2 ≤ v.nesting) ∧
    (t.children ≠ [] → ∃ items, ofItems? items = some t.children ∧ itemsNesting items + 2 ≤ v.nesting) := by
  unfold ofJson? at h
  split at h
  next members =>
    split at h
    next terminal hterminal =>
      cases h
      obtain ⟨name, value, tags, htags, rfl⟩ := eq_terminal_of_terminalIn? hterminal
      exact ⟨fun hne => Nat.succ_le_succ (nesting_of_tagsIn? htags hne), fun hne => absurd rfl hne⟩
    next =>
      simp only [Option.bind_eq_bind, Option.bind_eq_some_iff] at h
      obtain ⟨name, -, tags, htags, children, hchildren, h⟩ := h
      split at h
      next =>
        cases h
        refine ⟨fun hne => Nat.succ_le_succ (nesting_of_tagsIn? htags hne), fun hne => ?_⟩
        obtain ⟨items, hitems, hle⟩ := nesting_of_childrenIn? hchildren hne
        exact ⟨items, hitems, Nat.succ_le_succ hle⟩
      next => cases h
  next =>
    cases h
    exact ⟨fun hne => absurd rfl hne, fun hne => absurd rfl hne⟩
  next =>
    cases h
    exact ⟨fun hne => absurd rfl hne, fun hne => absurd rfl hne⟩
  next tags =>
    simp only [Option.bind_eq_bind, Option.bind_eq_some_iff] at h
    obtain ⟨strings, htags, h⟩ := h
    cases h
    refine ⟨fun _ => ?_, fun hne => absurd rfl hne⟩
    have hle := nesting_of_strings? htags
    simp only [nesting, itemsNesting]
    omega
  next items =>
    simp only [Option.bind_eq_bind, Option.bind_eq_some_iff] at h
    obtain ⟨children, hitems, h⟩ := h
    cases h
    refine ⟨fun hne => absurd rfl hne, fun _ => ⟨items, hitems, ?_⟩⟩
    simp only [nesting, itemsNesting]
    omega
  next items tags =>
    simp only [Option.bind_eq_bind, Option.bind_eq_some_iff] at h
    obtain ⟨strings, htags, children, hitems, h⟩ := h
    cases h
    have hle := nesting_of_strings? htags
    refine ⟨fun _ => ?_, fun _ => ⟨items, hitems, ?_⟩⟩
    all_goals
      simp only [nesting, itemsNesting]
      omega
  next => cases h

/-- A tree with no more than that many nodes above any node, of which those
with as many have neither tags nor children. -/
def Shallow : Nat → TextTree → Prop
  | 0, t => t.tags = [] ∧ t.children = []
  | level + 1, t => ∀ child ∈ t.children, Shallow level child

theorem exists_of_ofItems? {items : List Json} (h : ofItems? items = some children) :
    ∀ child ∈ children, ∃ item ∈ items, ofJson? item = some child := by
  induction items generalizing children with
  | nil =>
    cases h
    simp
  | cons item items ih =>
    simp only [ofItems?, Option.bind_eq_bind, Option.bind_eq_some_iff] at h
    obtain ⟨first, hfirst, others, hothers, h⟩ := h
    cases h
    refine List.forall_mem_cons.2 ⟨⟨item, List.mem_cons_self, hfirst⟩, fun child hchild => ?_⟩
    obtain ⟨item', hitem', hread⟩ := ih hothers child hchild
    exact ⟨item', List.mem_cons_of_mem _ hitem', hread⟩

theorem shallow_of_ofJson? {level : Nat} (h : ofJson? v = some t) (hv : v.nesting ≤ 2 * level + 1) :
    t.Shallow level := by
  induction level generalizing v t with
  | zero =>
    obtain ⟨htags, hchildren⟩ := nesting_of_ofJson? h
    refine ⟨Decidable.byContradiction fun hne => ?_, Classical.byContradiction fun hne => ?_⟩
    · have := htags hne
      omega
    · obtain ⟨items, -, hle⟩ := hchildren hne
      omega
  | succ level ih =>
    intro child hchild
    obtain ⟨items, hitems, hle⟩ := (nesting_of_ofJson? h).2 (List.ne_nil_of_mem hchild)
    obtain ⟨item, hitem, hread⟩ := exists_of_ofItems? hitems child hchild
    have hitem' := itemsNesting_le_iff.1 (Nat.le_refl _) item hitem
    exact ih hread (by omega)

end Reading

theorem Shallow.filter {level : Nat} {t : TextTree} (h : t.Shallow level) (s : Selector Id) :
    (t.filter s).Shallow level := by
  induction level generalizing t with
  | zero => exact ⟨by rw [tags_filter, h.1], by rw [children_filter, h.2]; rfl⟩
  | succ level ih =>
    intro child hchild
    rw [children_filter] at hchild
    obtain ⟨original, horiginal, rfl⟩ := List.mem_map.1 hchild
    exact ih (h original (List.mem_filter.1 horiginal).1)

/-- Whether a container has that many nodes above it. -/
def hasContainerAt : Nat → TextTree → Bool
  | 0, t => !t.isTerminal
  | level + 1, t => t.children.any (hasContainerAt level)

theorem Shallow.nesting_le_iff {level : Nat} {t : TextTree} (h : t.Shallow level) :
    t.toJson.nesting ≤ 2 * level + 1 ↔ t.hasContainerAt level = false := by
  induction level generalizing t with
  | zero =>
    obtain ⟨htags, -⟩ := h
    cases t with
    | terminal name value tags =>
      obtain rfl : tags = [] := htags
      simp [nesting_terminal, hasContainerAt, isTerminal]
    | container name tags children =>
      simp [toJson, nesting, membersNesting_head, hasContainerAt, isTerminal]
  | succ level ih =>
    cases t with
    | terminal name value tags =>
      have hle : (if tags = [] then 1 else 2) ≤ 2 * (level + 1) + 1 := by split <;> omega
      simp [nesting_terminal, hasContainerAt, children, hle]
    | container name tags children =>
      have hsum : 2 * (level + 1) + 1 = (2 * level + 1) + 2 := by omega
      rw [hsum, nesting_container_le_iff, hasContainerAt, List.any_eq_false]
      refine forall₂_congr fun child hchild => ?_
      rw [ih (h child hchild), Bool.not_eq_true]

/-- How many nodes there can be above a node of a tree in a text. -/
def maxLevel : Nat := nestingLimit / 2

theorem shallow_of_read {text : String} {t : TextTree} (h : read text = .ok t) : t.Shallow maxLevel := by
  rw [read, readAs] at h
  split at h
  next => cases h
  next v rest hfirst =>
    split at h
    next => cases h
    next tree htree =>
      split at h
      next =>
        cases h
        exact shallow_of_ofJson? htree (nesting_le_of_value? hfirst)
      next => cases h

/-- The text of a tree in either style is read as the tree, unless it nests
too deep. -/
theorem read_text (t : TextTree) (isPretty : Bool) :
    read (if isPretty then t.toJson.prettyText else t.toJson.compactText) =
      if t.toJson.nesting ≤ nestingLimit then .ok t else .error .malformed := by
  rw [read, readAs, readFirst?_text (isNumberFree_toJson t)]
  by_cases hle : t.toJson.nesting ≤ nestingLimit
  · simp only [hle, if_true, ofJson?_toJson]
    rfl
  · simp only [hle, if_false]

/-- **Reading back what filtering prints.** What is printed of a tree that was
read from a text, filtered by any names and in either style, is read as the
filtered tree, unless that has a container with `maxLevel` nodes above it; then
it is refused. -/
theorem read_filteredText {text : String} {t : TextTree} (h : read text = .ok t) (kept : List String)
    (isPretty : Bool) :
    let view := t.filter (.named kept)
    read (CommandLine.filteredText kept isPretty t) =
      if view.hasContainerAt maxLevel then .error .malformed else .ok view := by
  intro view
  have hview : view.Shallow maxLevel := (shallow_of_read h).filter (.named kept)
  have hle : view.toJson.nesting ≤ nestingLimit ↔ view.hasContainerAt maxLevel = false := hview.nesting_le_iff
  rw [CommandLine.filteredText, read_text]
  cases hcontainer : view.hasContainerAt maxLevel with
  | true =>
    have hdeep : ¬ view.toJson.nesting ≤ nestingLimit := fun hfits =>
      Bool.false_ne_true ((hle.1 hfits).symm.trans hcontainer)
    rw [if_neg hdeep, if_pos rfl]
  | false => rw [if_pos (hle.2 hcontainer), if_neg Bool.false_ne_true]

/-- A tree in two spellings; of its leaves one is dropped, and what is left
of its container is kept. -/
theorem read_filteredText_spellings :
    let text := "[\"t\",[[\"a\",\"x\"],\x7b\"children\":[[\"c\",\"y\"]],\"name\":\"b\"\x7d]]"
    let tree := container "t" [] [terminal "a" "x" [], container "b" [] [terminal "c" "y" []]]
    let view := container "t" [] [terminal "a" "x" [], container "b" [] []]
    read text = .ok tree ∧ read (CommandLine.filteredText ["a", "b"] true tree) = .ok view := by
  intro text tree view
  have hfirst : readFirst? text = some (.array [.string "t", .array [.array [.string "a", .string "x"],
      .object [("children", .array [.array [.string "c", .string "y"]]), ("name", .string "b")]]], []) := by
    unfold text
    rfl
  have hread : read text = .ok tree := by
    rw [read, readAs, hfirst]
    rfl
  have hview : tree.filter (.named ["a", "b"]) = view := rfl
  have hlevel : view.hasContainerAt maxLevel = false := rfl
  have hprinted : read (CommandLine.filteredText ["a", "b"] true tree) =
      if (tree.filter (.named ["a", "b"])).hasContainerAt maxLevel then .error .malformed
      else .ok (tree.filter (.named ["a", "b"])) := read_filteredText hread ["a", "b"] true
  rw [hview, hlevel] at hprinted
  exact ⟨hread, hprinted⟩

/-- Containers one in the other. -/
def chain : Nat → TextTree
  | 0 => container "a" [] []
  | n + 1 => container "a" [] [chain n]

/-- A spelling of a chain in which the innermost container comes with its name
alone. -/
def chainSpelling : Nat → Json
  | 0 => .object [("name", .string "a")]
  | n + 1 => .object [("name", .string "a"), ("children", .array [chainSpelling n])]

theorem ofJson?_chainSpelling (n : Nat) : ofJson? (chainSpelling n) = some (chain n) := by
  induction n with
  | zero => rfl
  | succ n ih =>
    have hitems : ofItems? [chainSpelling n] = some [chain n] := by rw [ofItems?, ih]; rfl
    change (ofItems? [chainSpelling n] >>= fun children => some (container "a" [] children)) = _
    rw [hitems]
    rfl

theorem isNumberFree_chainSpelling (n : Nat) : (chainSpelling n).isNumberFree = true := by
  induction n with
  | zero => rfl
  | succ n ih => simp [chainSpelling, isNumberFree, membersNumberFree, allNumberFree, ih]

theorem nesting_chainSpelling (n : Nat) : (chainSpelling n).nesting = 2 * n + 1 := by
  induction n with
  | zero => rfl
  | succ n ih =>
    simp only [chainSpelling, nesting, membersNesting, itemsNesting, ih]
    omega

theorem name_chain (n : Nat) : (chain n).name = "a" := by cases n <;> rfl

theorem filter_chain (n : Nat) : (chain n).filter (.named ["a"]) = chain n := by
  induction n with
  | zero => rfl
  | succ n ih =>
    have hkeep : ((Selector.named (m := Id) ["a"]).keep (chain n)).run = true := by
      simp [Selector.named, name_chain]
    rw [chain, filter_container, List.filter_cons, if_pos hkeep, List.filter_nil, List.map_singleton, ih]

theorem nesting_toJson_chain (n : Nat) : (chain n).toJson.nesting = 2 * n + 2 := by
  induction n with
  | zero => rfl
  | succ n ih =>
    simp only [chain, toJson, toItems, nesting, membersNesting_head, itemsNesting, ih, if_true]
    omega

/-- The text of a tree can be read and that of the filtered tree not. -/
theorem read_filteredText_chain :
    let text := (chainSpelling maxLevel).compactText
    read text = .ok (chain maxLevel) ∧
      ∀ isPretty, read (CommandLine.filteredText ["a"] isPretty (chain maxLevel)) = .error .malformed := by
  intro text
  have hfits : (chainSpelling maxLevel).nesting ≤ nestingLimit := by
    rw [nesting_chainSpelling]
    decide
  have hdeep : ¬ (chain maxLevel).toJson.nesting ≤ nestingLimit := by
    rw [nesting_toJson_chain]
    decide
  constructor
  · have hfirst : readFirst? text = some (chainSpelling maxLevel, []) :=
      (readFirst?_text (isNumberFree_chainSpelling maxLevel) false).trans (if_pos hfits)
    rw [read, readAs, hfirst]
    simp only [ofJson?_chainSpelling]
    rfl
  · intro isPretty
    rw [CommandLine.filteredText, filter_chain, read_text, if_neg hdeep]

end QueryByExample.TextTree
