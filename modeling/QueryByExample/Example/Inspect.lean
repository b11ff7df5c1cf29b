/-
Examples as inspected values. A node among the properties of an example shows
by its first tag only, so the outline of an example never goes deeper than
the example itself.
-/
import QueryByExample.Example.Basic
import QueryByExample.Text.Outline

namespace QueryByExample

def Scalar.outline : Scalar → Outline
  | .bool b => .tuple "Bool" [.bool b]
  | .int n => .tuple "Int" [.int n]
  | .float x => .tuple "Float" [.double x]
  | .string s => .tuple "String" [.quoted s]

mutual

def Step.outline : Step → Outline
  | ⟨tag, predicates, matched⟩ =>
    .record "Step"
      [("type_tag", .quoted tag), ("predicates", .list (Predicate.outlines predicates)),
        ("matches", .list (Relation.outlines matched))]

def Relation.outline : Relation → Outline
  | ⟨name, step⟩ => .record "Relation" [("name", .quoted name), ("step", step.outline)]

def Relation.outlines : List Relation → List Outline
  | [] => []
  | r :: rest => r.outline :: Relation.outlines rest

def Predicate.outline : Predicate → Outline
  | .equals name value => .record "Equals" [("name", .quoted name), ("value", value.outline)]
  | .related r => .tuple "Exists" [r.outline]
  | .negated p => .tuple "Not" [p.outline]
  | .either p q => .tuple "Or" [p.outline, q.outline]
  | .every ps => .tuple "And" [.list (Predicate.outlines ps)]
  | .optional p => .tuple "Optional" [p.outline]
  | .custom text => .tuple "Custom" [.quoted text]

def Predicate.outlines : List Predicate → List Outline
  | [] => []
  | p :: rest => p.outline :: Predicate.outlines rest

end

/-- A node by its first tag. -/
def Example.label (e : Example) : String :=
  e.tags.headD "?" ++ "()"

mutual

def Property.outline : Property → Outline
  | .scalar value => value.outline
  | .node e => .plain e.label
  | .list items => .list (Property.outlines items)

def Property.outlines : List Property → List Outline
  | [] => []
  | item :: rest => item.outline :: Property.outlines rest

end

mutual

/-- The outline of a property as the value of a field, which also shows what
kind of value it is. -/
def Property.fieldOutline : Property → Outline
  | .scalar value => .tuple "Scalar" [value.outline]
  | .node e => .record "Node" [("name", .quoted e.name), ("tags", .strings e.tags)]
  | .list items => .tuple "List" [.list (Property.fieldOutlines items)]

def Property.fieldOutlines : List Property → List Outline
  | [] => []
  | item :: rest => item.fieldOutline :: Property.fieldOutlines rest

end

def Example.outline (e : Example) : Outline :=
  .record "Example"
    [("name", .quoted e.name), ("tags", .strings e.tags),
      ("properties", .map (e.properties.map fun (key, value) => (key, value.outline))),
      ("is_match", .bool e.isMatch), ("custom", .list (Predicate.outlines e.custom))]

end QueryByExample
