/-
Examples: nodes built by hand or read from JSON. An example has tags, a name,
and properties in the order in which they were first set, and its properties
hold scalars, further examples and lists of these.

As a graph, an example has a node at each place where one stands. A place is
the way to it through properties and lists, so no two nodes share one and no
node leads back to a place above it.
-/
import QueryByExample.Enriched
import QueryByExample.Keyed

namespace QueryByExample

mutual

inductive Property where
  | scalar (value : Scalar)
  | node (node : Example)
  | list (items : List Property)

structure Example where
  name : String
  tags : List String
  properties : List (String × Property)
  isMatch : Bool
  custom : List Predicate

end

namespace Example

/-- An example with one tag, named like it. -/
def ofTag (tag : String) : Example :=
  ⟨tag, [tag], [], false, []⟩

def withName (e : Example) (name : String) : Example :=
  { e with name }

def withTags (e : Example) (tags : List String) : Example :=
  { e with tags }

def get? (e : Example) (key : String) : Option Property :=
  Keyed.get? key e.properties

/-- Sets a property; one that is set again keeps its place. -/
def set (e : Example) (key : String) (value : Property) : Example :=
  { e with properties := Keyed.insert key value e.properties }

/-- Adds to a property: to the end of its list, or behind its one value, or as
the first item of a new list. -/
def add (e : Example) (key : String) (value : Property) : Example :=
  match e.get? key with
  | none => e.set key (.list [value])
  | some (.list items) => e.set key (.list (items ++ [value]))
  | some first => e.set key (.list [first, value])

def remove (e : Example) (key : String) : Example :=
  { e with properties := Keyed.erase key e.properties }

def matched (e : Example) : Example :=
  { e with isMatch := true }

def withCustomPredicate (e : Example) (text : String) : Example :=
  { e with custom := e.custom ++ [.custom text] }

end Example

/-- The numbers of the properties and list items on the way to a node. -/
abbrev Place := List Nat

mutual

/-- A property that stands at a place, as the value of a field. -/
def Property.fieldValue (place : Place) : Property → FieldValue Place
  | .scalar value => .scalar value
  | .node _ => .node place
  | .list items => .list (Property.fieldValues place 0 items)

def Property.fieldValues (place : Place) (number : Nat) : List Property → List (FieldValue Place)
  | [] => []
  | item :: rest =>
    item.fieldValue (place ++ [number]) :: Property.fieldValues place (number + 1) rest

end

/-- The part of a property with a given number. -/
def Property.child? : Property → Nat → Option Property
  | .scalar _, _ => none
  | .node e, number => e.properties[number]?.map fun (_, value) => value
  | .list items, number => items[number]?

/-- What stands at a place below a property. -/
def Property.at? (p : Property) : Place → Option Property
  | [] => some p
  | number :: rest => (p.child? number).bind fun below => below.at? rest

namespace Example

/-- The fields from a given number on. -/
def fieldsAt (place : Place) (number : Nat) :
    List (String × Property) → List (String × FieldValue Place)
  | [] => []
  | (key, value) :: rest =>
    (key, value.fieldValue (place ++ [number])) :: fieldsAt place (number + 1) rest

/-- The node that an example is at a place. -/
def nodeAt (e : Example) (place : Place) : Node Place where
  name := e.name
  tags := e.tags
  fields := fieldsAt place 0 e.properties
  isMatch := e.isMatch
  custom := e.custom

/-- The nodes at the places of an example; where there is no example there is
a node without tags. -/
def graph (e : Example) : Graph Place := fun place =>
  match (Property.node e).at? place with
  | some (.node below) => below.nodeAt place
  | _ => ⟨"", [], [], false, []⟩

instance : ExampleNode Example Place where
  rooted e := ⟨e.graph, e.nodeAt []⟩

def compile (e : Example) (limit : Nat) : Except CompileError Branch :=
  (ExampleNode.rooted e).compile limit

end Example

/-- An enriched example as an example: what a property of another example
holds of it. -/
def Enriched.toExample (e : Enriched Example) : Example :=
  { e.base with isMatch := e.isMatch || e.base.isMatch, custom := e.base.custom ++ e.predicates }

end QueryByExample
