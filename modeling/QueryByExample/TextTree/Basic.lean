/-
Trees over a text. A terminal holds a piece of the text; a container's value
is that of its children, one after the other. So only a terminal can be given
another value.
-/
namespace QueryByExample

inductive TextTree where
  | terminal (name value : String) (tags : List String)
  | container (name : String) (tags : List String) (children : List TextTree)

/-- What a node cannot do. -/
inductive TextTreeError where
  | unsupported (operation node : String)
  deriving DecidableEq

def TextTreeError.message : TextTreeError → String
  | .unsupported operation node => operation ++ " unsupported on node `" ++ node ++ "`"

namespace TextTree

def name : TextTree → String
  | .terminal name .. => name
  | .container name .. => name

def tags : TextTree → List String
  | .terminal _ _ tags => tags
  | .container _ tags _ => tags

def children : TextTree → List TextTree
  | .terminal .. => []
  | .container _ _ children => children

def isTerminal : TextTree → Bool
  | .terminal .. => true
  | .container .. => false

mutual

def value : TextTree → String
  | .terminal _ value _ => value
  | .container _ _ children => valueOfAll children

def valueOfAll : List TextTree → String
  | [] => ""
  | child :: rest => child.value ++ valueOfAll rest

end

def update (tree : TextTree) (value : String) : Except TextTreeError TextTree :=
  match tree with
  | .terminal name _ tags => .ok (.terminal name value tags)
  | .container name _ _ => .error (.unsupported "update" name)

/-- A container with one more child at the end. -/
def push? (tree child : TextTree) : Option TextTree :=
  match tree with
  | .terminal .. => none
  | .container name tags children => some (.container name tags (children ++ [child]))

end TextTree
end QueryByExample
