/-
Views of a tree: what filtering does to one node.

A view of a node has its name, its tags and its kind, and its children are
views of those children that the selector keeps.
-/
import QueryByExample.TextTree.Filter

namespace QueryByExample.TextTree
variable (s : Selector Id)

theorem filterAllM_eq (children : List TextTree) :
    (filterAllM s children).run = (children.filter fun child => (s.keep child).run).map (·.filter s) := by
  induction children with
  | nil => rfl
  | cons child rest ih =>
    rw [filterAllM, List.filter_cons]
    change (if (s.keep child).run then child.filter s :: (filterAllM s rest).run else (filterAllM s rest).run) = _
    rw [ih]
    split <;> rfl

theorem filter_container (name : String) (tags : List String) (children : List TextTree) :
    (container name tags children).filter s =
      container name tags ((children.filter fun child => (s.keep child).run).map (·.filter s)) := by
  rw [← filterAllM_eq]
  rfl

section Node
variable (t : TextTree)

@[simp] theorem name_filter : (t.filter s).name = t.name := by
  cases t with
  | terminal => rfl
  | container => rw [filter_container]; rfl

@[simp] theorem tags_filter : (t.filter s).tags = t.tags := by
  cases t with
  | terminal => rfl
  | container => rw [filter_container]; rfl

@[simp] theorem isTerminal_filter : (t.filter s).isTerminal = t.isTerminal := by
  cases t with
  | terminal => rfl
  | container => rw [filter_container]; rfl

theorem children_filter :
    (t.filter s).children = (t.children.filter fun child => (s.keep child).run).map (·.filter s) := by
  cases t with
  | terminal => rfl
  | container => rw [filter_container]; rfl

end Node
end QueryByExample.TextTree
