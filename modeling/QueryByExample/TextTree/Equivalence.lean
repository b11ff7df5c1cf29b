/-
Structural equivalence of trees. Two nodes are equivalent when their names
and numbers of children agree and, in this order, their values are equal, or
a given test deems the pair equivalent, or their children are, pair by pair.

`compare` also tells on which pairs the test was consulted, so that it can be
seen that it is asked only where the answer depends on it.
-/
import QueryByExample.TextTree.Basic

namespace QueryByExample.TextTree

mutual

/-- Whether two trees are equivalent, and the pairs that were deemed one way
or the other to find out, in order. -/
def compare (deem : TextTree → TextTree → Bool) (a b : TextTree) :
    Bool × List (TextTree × TextTree) :=
  if a.name ≠ b.name ∨ a.children.length ≠ b.children.length then (false, [])
  else if a.value = b.value then (true, [])
  else if deem a b then (true, [(a, b)])
  else
    match a with
    | .terminal .. => (true, [(a, b)])
    | .container _ _ children =>
      let (answer, consulted) := compareAll deem children b.children
      (answer, (a, b) :: consulted)

/-- The same of the children of two nodes, up to the first pair that is not
equivalent. -/
def compareAll (deem : TextTree → TextTree → Bool) :
    List TextTree → List TextTree → Bool × List (TextTree × TextTree)
  | a :: as, b :: bs =>
    let (answer, consulted) := compare deem a b
    if answer then
      let (answer, more) := compareAll deem as bs
      (answer, consulted ++ more)
    else (false, consulted)
  | _, _ => (true, [])

end

/-- Equivalence where the test is given. -/
def equivalentWith (deem : TextTree → TextTree → Bool) (a b : TextTree) : Bool :=
  (compare deem a b).1

/-- Equivalence by names, shape and values alone. -/
def equivalent (a b : TextTree) : Bool :=
  equivalentWith (fun _ _ => false) a b

/-- Deems nodes equivalent that share one of the given names. -/
def ifNamed (names : List String) (a b : TextTree) : Bool :=
  a.name == b.name && names.contains a.name

end QueryByExample.TextTree
