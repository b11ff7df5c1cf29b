/-
Trees as JSON. A terminal is an object with a `name` and a `value`, a
container one with a `name` and `children`, which may be left out; both may
have `tags`. No other keys are allowed and none may repeat, so a terminal
never loses children that it was given. Either may also be an array of the
same parts in that order, the tags last.
-/
import QueryByExample.Json.Document
import QueryByExample.Keyed
import QueryByExample.TextTree.Basic

namespace QueryByExample.TextTree

/-- Whether the keys of an object are among the given ones, each at most once. -/
def keysFit (allowed : List String) : List (String × Json) → Bool
  | [] => true
  | (key, _) :: rest => allowed.contains key && keysFit (allowed.erase key) rest

/-- The tags of an object; it has none when the key is missing. -/
def tagsIn? (members : List (String × Json)) : Option (List String) :=
  match Keyed.get? "tags" members with
  | none => some []
  | some tags => tags.strings?

def nameIn? (members : List (String × Json)) : Option String :=
  match Keyed.get? "name" members with
  | some (.string name) => some name
  | _ => none

def terminalIn? (members : List (String × Json)) : Option TextTree := do
  let name ← nameIn? members
  let tags ← tagsIn? members
  match Keyed.get? "value" members with
  | some (.string value) =>
    if keysFit ["name", "value", "tags"] members then some (.terminal name value tags) else none
  | _ => none

mutual

/-- The tree that a value is in one of its shapes. -/
def ofJson? : Json → Option TextTree
  | .object members =>
    match terminalIn? members with
    | some tree => some tree
    | none => do
      let name ← nameIn? members
      let tags ← tagsIn? members
      let children ← childrenIn? members
      if keysFit ["name", "children", "tags"] members then some (.container name tags children)
      else none
  | .array [.string name] => some (.container name [] [])
  | .array [.string name, .string value] => some (.terminal name value [])
  | .array [.string name, .string value, tags] => return .terminal name value (← tags.strings?)
  | .array [.string name, .array children] => return .container name [] (← ofItems? children)
  | .array [.string name, .array children, tags] =>
    return .container name (← tags.strings?) (← ofItems? children)
  | _ => none

/-- The children of an object; it has none when the key is missing. -/
def childrenIn? : List (String × Json) → Option (List TextTree)
  | [] => some []
  | (key, value) :: rest =>
    if key = "children" then
      match value with
      | .array items => ofItems? items
      | _ => none
    else childrenIn? rest

def ofItems? : List Json → Option (List TextTree)
  | [] => some []
  | item :: rest => return (← ofJson? item) :: (← ofItems? rest)

end

/-- The tree in a JSON text. -/
def read (text : String) : Except Json.DocumentError TextTree :=
  Json.readAs "RawTreeNode" ofJson? text

/-- The tree that a value is. -/
def ofJson (value : Json) : Except Json.DocumentError TextTree :=
  match ofJson? value with
  | some tree => .ok tree
  | none => .error (.mismatched "RawTreeNode")

/-- The members that describe a node itself; no tags are written when there
are none. -/
def head (name : String) (tags : List String) : List (String × Json) :=
  ("name", .string name) :: if tags.isEmpty then [] else [("tags", .array (tags.map .string))]

mutual

def toJson : TextTree → Json
  | .terminal name value tags => .object (head name tags ++ [("value", .string value)])
  | .container name tags children =>
    .object (head name tags ++ [("children", .array (toItems children))])

def toItems : List TextTree → List Json
  | [] => []
  | child :: rest => child.toJson :: toItems rest

end

end QueryByExample.TextTree
