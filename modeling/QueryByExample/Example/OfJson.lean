/-
Examples written as JSON. A node is an object with `nodeTags`, one string or
an array of them. `nodeName` names it, or else its first tag does; a true
`$match` marks it; `$predicate` is a custom predicate. What stands under any
other relevant key is a property, unless it is null or an object without
`nodeTags`: that is left out, and nothing in it is looked at.
-/
import QueryByExample.Example.Basic
import QueryByExample.Json.Reader

namespace QueryByExample

/-- What is wrong with a JSON example. -/
inductive ExampleFault where
  | rootWithoutTags
  | rootNotObject (found : Json.Kind)
  | tagsNotArray (found : Json.Kind)
  | tagNotString (found : Json.Kind)
  | predicateNotString (found : Json.Kind)

inductive ExampleError where
  | malformedJson
  | invalid (fault : ExampleFault)

def ExampleFault.message : ExampleFault → String
  | .rootWithoutTags => "root object has no `nodeTags`"
  | .rootNotObject found => "root must be an object, found " ++ found.text
  | .tagsNotArray found => "`nodeTags` must be an array of strings, found " ++ found.text
  | .tagNotString found => "`nodeTags` entries must be strings, found " ++ found.text
  | .predicateNotString found => "`$predicate` must be a string, found " ++ found.text

namespace Example

/-- The tags that a value of `nodeTags` lists. -/
def tagsOfItems : List Json → Except ExampleFault (List String)
  | [] => .ok []
  | .string tag :: rest => return tag :: (← tagsOfItems rest)
  | item :: _ => .error (.tagNotString item.kind)

def tagsOfJson : Json → Except ExampleFault (List String)
  | .string tag => .ok [tag]
  | .array items => tagsOfItems items
  | value => .error (.tagsNotArray value.kind)

/-- An example before its members are read: its tags and its name. -/
def header (tags : List String) (members : List (String × Json)) : Example :=
  let name := match Keyed.get? "nodeName" members with
    | some (.string name) => name
    | _ => tags.headD ""
  ⟨name, tags, [], false, []⟩

end Example

mutual

/-- The property that a value is, if it is one. -/
def Property.ofJson? : Json → Except ExampleFault (Option Property)
  | .null => .ok none
  | .bool b => .ok (some (.scalar (.bool b)))
  | .int n => .ok (some (.scalar (.ofInt n)))
  | .double x => .ok (some (.scalar (.float x)))
  | .string s => .ok (some (.scalar (.string s)))
  | .array items => return some (.list (← Property.ofItems items))
  | .object members =>
    match Keyed.get? "nodeTags" members with
    | none => .ok none
    | some tags => do
      let tags ← Example.tagsOfJson tags
      return some (.node (← Example.withMembers (.header tags members) members))

def Property.ofItems : List Json → Except ExampleFault (List Property)
  | [] => .ok []
  | item :: rest => do
    let property ← Property.ofJson? item
    let properties ← Property.ofItems rest
    return property.toList ++ properties

/-- An example with what the members of its object say. -/
def Example.withMembers (e : Example) : List (String × Json) → Except ExampleFault Example
  | [] => .ok e
  | (key, value) :: rest => do
    if key = "$match" then
      match value with
      | .bool true => e.matched.withMembers rest
      | _ => e.withMembers rest
    else if key = "$predicate" then
      match value with
      | .string text => (e.withCustomPredicate text).withMembers rest
      | value => .error (.predicateNotString value.kind)
    else if isRelevantKey key then
      match ← Property.ofJson? value with
      | some property => (e.set key property).withMembers rest
      | none => e.withMembers rest
    else e.withMembers rest

end

namespace Example

/-- The example that a value is, given that its objects repeat no key. -/
def ofJson (value : Json) : Except ExampleFault Example :=
  match value with
  | .object members =>
    match Keyed.get? "nodeTags" members with
    | none => .error .rootWithoutTags
    | some tags => do
      let tags ← tagsOfJson tags
      withMembers (header tags members) members
  | value => .error (.rootNotObject value.kind)

/-- The example in a JSON text, in which the last of repeated keys counts. -/
def read (text : String) : Except ExampleError Example :=
  match Json.read? text with
  | none => .error .malformedJson
  | some value =>
    match ofJson value.lastWins with
    | .ok e => .ok e
    | .error fault => .error (.invalid fault)

end Example
end QueryByExample
