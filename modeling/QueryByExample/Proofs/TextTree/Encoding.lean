/-
Trees as JSON and back.

A tree is written as an object whose keys tell a terminal from a container, so
that what is read from it is the tree (`ofJson?_toJson`). The children that a
view leaves to a container may be none at all and are written all the same, so
views are read back as well (`ofJson_toJson_view`).
-/
import QueryByExample.Proofs.TextTree.Position
import QueryByExample.TextTree.Filter
import QueryByExample.TextTree.Json

namespace QueryByExample.TextTree

theorem strings?_array (tags : List String) : (Json.array (tags.map .string)).strings? = some tags := by
  simp only [Json.strings?]
  induction tags with
  | nil => rfl
  | cons tag tags ih => rw [List.map_cons, List.mapM_cons, ih]; rfl

section Members
variable (name : String) (tags : List String) (key : String) (value : Json)

theorem nameIn?_head : nameIn? (head name tags ++ [(key, value)]) = some name := rfl

theorem tagsIn?_head (hkey : key ≠ "tags") : tagsIn? (head name tags ++ [(key, value)]) = some tags := by
  cases tags with
  | nil => simp [tagsIn?, head, Keyed.get?, hkey]
  | cons tag tags => exact strings?_array (tag :: tags)

theorem get?_head (hname : key ≠ "name") (htags : key ≠ "tags") :
    Keyed.get? key (head name tags ++ [(key, value)]) = some value := by
  cases tags <;> simp [head, Keyed.get?, hname.symm, htags.symm]

theorem keysFit_head (hname : key ≠ "name") (htags : key ≠ "tags") :
    keysFit ["name", key, "tags"] (head name tags ++ [(key, value)]) = true := by
  cases tags <;> simp [head, keysFit, htags, hname.symm, htags.symm]

theorem terminalIn?_head (value : String) :
    terminalIn? (head name tags ++ [("value", .string value)]) = some (.terminal name value tags) := by
  have hvalue := get?_head name tags "value" (.string value) (by decide) (by decide)
  have hfit := keysFit_head name tags "value" (.string value) (by decide) (by decide)
  simp only [terminalIn?, nameIn?_head, tagsIn?_head name tags "value" _ (by decide), hvalue, hfit,
    Option.bind_eq_bind, Option.bind_some, if_true]

/-- The members of a container are not those of a terminal, whatever the children. -/
theorem terminalIn?_children : terminalIn? (head name tags ++ [("children", value)]) = none := by
  have hvalue : Keyed.get? "value" (head name tags ++ [("children", value)]) = none := by
    cases tags <;> simp [head, Keyed.get?]
  simp only [terminalIn?, nameIn?_head, tagsIn?_head name tags "children" _ (by decide), hvalue,
    Option.bind_eq_bind, Option.bind_some]

theorem childrenIn?_head (items : List Json) :
    childrenIn? (head name tags ++ [("children", .array items)]) = ofItems? items := by
  cases tags <;> simp [head, childrenIn?]

end Members

mutual

theorem ofJson?_toJson : (t : TextTree) → ofJson? t.toJson = some t
  | .terminal name value tags => by rw [toJson, ofJson?, terminalIn?_head]
  | .container name tags children => by
    rw [toJson, ofJson?, terminalIn?_children]
    simp only [nameIn?_head, tagsIn?_head name tags "children" _ (by decide), childrenIn?_head,
      ofItems?_toItems children, keysFit_head name tags "children" _ (by decide) (by decide),
      Option.bind_eq_bind, Option.bind_some, if_true]

theorem ofItems?_toItems : (ts : List TextTree) → ofItems? (toItems ts) = some ts
  | [] => rfl
  | t :: rest => by
    rw [toItems, ofItems?, ofJson?_toJson t, ofItems?_toItems rest]
    rfl

end

theorem toJson_injective {t u : TextTree} (h : t.toJson = u.toJson) : t = u := by
  have hread := ofJson?_toJson t
  rw [h, ofJson?_toJson u] at hread
  exact (Option.some.inj hread).symm

/-- A tree, or a view of it, or a view of a view, and so on. -/
def filterEach (selectors : List (Selector Id)) (t : TextTree) : TextTree :=
  selectors.foldl (fun tree s => tree.filter s) t

/-- **Reading undoes writing.** What is written of a tree, or of views of it
one above the other, is read as the same tree; and the same is written of two
such trees exactly when they look the same at every position. -/
theorem ofJson_toJson_view (t : TextTree) (selectors : List (Selector Id)) :
    let view := t.filterEach selectors
    ofJson view.toJson = .ok view ∧
      ∀ (u : TextTree) (selectors' : List (Selector Id)),
        view.toJson = (u.filterEach selectors').toJson ↔ view.LooksLike (u.filterEach selectors') := by
  intro view
  refine ⟨?_, fun u selectors' => ?_⟩
  · rw [ofJson, ofJson?_toJson]
  · rw [looksLike_iff]
    exact ⟨toJson_injective, congrArg toJson⟩

end QueryByExample.TextTree
