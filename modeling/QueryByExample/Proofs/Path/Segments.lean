/-
The segments of a step: what its text is meant to be read as.

The segments come in preorder, a step before the steps of its matches. On a
step a conjunction is the items of its operands and an optional predicate is
a group of items with one mark after it. In a body optionality is gone, and a
conjunction of one operand is the operand.

A step is plain when its text is the reader's to read: names and tags are
names, no conjunction is empty and there is no raw text.
-/
import QueryByExample.Path.Basic
import QueryByExample.Proofs.Path.Reader

namespace QueryByExample
open Reading

/-- What a predicate is read as in its three places. -/
structure PredicateReading where
  /-- Inside another predicate. -/
  body : Body
  onStep : List Item
  /-- On a step, inside an optional predicate, whose mark is not among them. -/
  unmarked : List Item

namespace PredicateReading

def ofBody (b : Body) : PredicateReading := ⟨b, [.body b], [.body b]⟩

def every (ps : List PredicateReading) : PredicateReading :=
  let onStep := ps.flatMap (·.onStep)
  ⟨.all (ps.map (·.body)), onStep, onStep⟩

def optional (p : PredicateReading) : PredicateReading :=
  ⟨p.body, p.unmarked ++ [.mark], p.unmarked⟩

end PredicateReading

mutual

/-- The segments of a step to which a relation leads. -/
def Step.segments (relation : Option String) : Step → List Segment
  | ⟨tag, predicates, matched⟩ =>
    ⟨relation, tag, (Predicate.readings predicates).flatMap (·.onStep)⟩ ::
      Relation.segmentsOfAll matched

def Relation.segments : Relation → List Segment
  | ⟨name, step⟩ => step.segments (some name)

def Relation.segmentsOfAll : List Relation → List Segment
  | [] => []
  | r :: rest => r.segments ++ Relation.segmentsOfAll rest

def Predicate.reading : Predicate → PredicateReading
  | .equals name value => .ofBody (.equals name (String.ofList value.text))
  | .related r => .ofBody (.path r.segments)
  | .negated p => .ofBody (.negated p.reading.body)
  | .either p q => .ofBody (p.reading.body.or q.reading.body)
  | .every ps => .every (Predicate.readings ps)
  | .optional p => p.reading.optional
  | .custom text => .ofBody (.raw text)

def Predicate.readings : List Predicate → List PredicateReading
  | [] => []
  | p :: rest => p.reading :: Predicate.readings rest

end

mutual

def Step.isPlain : Step → Bool
  | ⟨tag, predicates, matched⟩ =>
    isName tag && Predicate.allPlain predicates && Relation.allPlain matched

def Relation.isPlain : Relation → Bool
  | ⟨name, step⟩ => isName name && step.isPlain

def Relation.allPlain : List Relation → Bool
  | [] => true
  | r :: rest => r.isPlain && Relation.allPlain rest

def Predicate.isPlain : Predicate → Bool
  | .equals name _ => isName name
  | .related r => r.isPlain
  | .negated p => p.isPlain
  | .either p q => p.isPlain && q.isPlain
  | .every ps => !ps.isEmpty && Predicate.allPlain ps
  | .optional p => p.isPlain
  | .custom _ => false

def Predicate.allPlain : List Predicate → Bool
  | [] => true
  | p :: rest => p.isPlain && Predicate.allPlain rest

end

end QueryByExample
