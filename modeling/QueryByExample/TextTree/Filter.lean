/-
Filtering trees. A filter keeps the root and those nodes below it that a
selector keeps together with all their ancestors; a dropped node takes its
subtree with it. What is kept is a view: a tree whose terminals keep their
text, whose containers have the value of the children left to them, and
which cannot be changed.

A selector may do something of its own when it is asked, so it answers in a
monad. It is asked of a node's children in order, and below a child that it
keeps before it is asked of the next.
-/
import QueryByExample.TextTree.Basic

namespace QueryByExample

/-- A test of nodes that can say what it tests. -/
structure Selector (m : Type → Type) where
  description : String
  keep : TextTree → m Bool

namespace Selector
variable {m : Type → Type} [Monad m]

def all : Selector m :=
  ⟨"all", fun _ => pure true⟩

/-- Keeps nodes with one of the given names; a repeated name says no more. -/
def named (names : List String) : Selector m where
  description := "named [" ++ String.intercalate ", " names.eraseDups ++ "]"
  keep node := pure (names.contains node.name)

/-- The second selector is asked only if the first keeps the node. -/
protected def and (s t : Selector m) : Selector m where
  description := "(" ++ s.description ++ " and " ++ t.description ++ ")"
  keep node := do if ← s.keep node then t.keep node else pure false

/-- The second selector is asked only if the first does not keep the node. -/
protected def or (s t : Selector m) : Selector m where
  description := "(" ++ s.description ++ " or " ++ t.description ++ ")"
  keep node := do if ← s.keep node then pure true else t.keep node

/-- How a selector shows among inspected values. -/
def inspected (s : Selector m) : String :=
  "NodeFilter(" ++ s.description ++ ")"

end Selector

namespace TextTree
variable {m : Type → Type} [Monad m]

mutual

def filterM (s : Selector m) : TextTree → m TextTree
  | .terminal name value tags => pure (.terminal name value tags)
  | .container name tags children => return .container name tags (← filterAllM s children)

def filterAllM (s : Selector m) : List TextTree → m (List TextTree)
  | [] => pure []
  | child :: rest => do
    if ← s.keep child then
      let kept ← filterM s child
      return kept :: (← filterAllM s rest)
    else filterAllM s rest

end

/-- A filtered tree, with the tree that it was made from. -/
structure View where
  source : TextTree
  tree : TextTree

def viewM (s : Selector m) (tree : TextTree) : m View :=
  return ⟨tree, ← tree.filterM s⟩

/-- The tree filtered by a selector that does nothing but answer. -/
def filter (s : Selector Id) (tree : TextTree) : TextTree :=
  (tree.filterM s).run

/-- A view cannot be changed, not even at a terminal. -/
def View.update (view : View) (_ : String) : Except TextTreeError View :=
  .error (.unsupported "update" view.tree.name)

end TextTree
end QueryByExample
