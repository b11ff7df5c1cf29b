/-
Path expressions: typed steps, the predicates that filter a step, and the
relations that lead from one step to the next.

A step narrows the result in two ways. Its predicates only filter its nodes;
its matches go on to related nodes, which become the result. As constraints
on the step's own node the two are alike: `Step.constraints` turns a match
into the predicate that the relation leads somewhere.
-/
import QueryByExample.Scalar

namespace QueryByExample

mutual

/-- A step to the nodes with a given tag. -/
structure Step where
  tag : String
  predicates : List Predicate
  matched : List Relation

/-- A step along a named relation. -/
structure Relation where
  name : String
  step : Step

/-- A condition on a node. -/
inductive Predicate where
  | equals (name : String) (value : Scalar)
  | related (relation : Relation)
  | negated (operand : Predicate)
  | either (left right : Predicate)
  | every (operands : List Predicate)
  /-- A condition that is matched where it can be and never required. -/
  | optional (operand : Predicate)
  /-- Text in the syntax of path expressions, brackets included. -/
  | custom (text : String)

end

mutual

/-- Equality is that of the structure, with doubles compared as numbers: what
mentions NaN is not equal to itself. -/
def Step.equal : Step → Step → Bool
  | ⟨tag, predicates, matched⟩, ⟨tag', predicates', matched'⟩ =>
    tag == tag' && Predicate.equalAll predicates predicates' && Relation.equalAll matched matched'

def Relation.equal : Relation → Relation → Bool
  | ⟨name, step⟩, ⟨name', step'⟩ => name == name' && step.equal step'

def Relation.equalAll : List Relation → List Relation → Bool
  | [], [] => true
  | r :: rs, s :: ss => r.equal s && Relation.equalAll rs ss
  | _, _ => false

def Predicate.equal : Predicate → Predicate → Bool
  | .equals name value, .equals name' value' => name == name' && value == value'
  | .related r, .related s => r.equal s
  | .negated p, .negated q => p.equal q
  | .either p q, .either p' q' => p.equal p' && q.equal q'
  | .every ps, .every qs => Predicate.equalAll ps qs
  | .optional p, .optional q => p.equal q
  | .custom t, .custom u => t == u
  | _, _ => false

def Predicate.equalAll : List Predicate → List Predicate → Bool
  | [], [] => true
  | p :: ps, q :: qs => p.equal q && Predicate.equalAll ps qs
  | _, _ => false

end

instance : BEq Step := ⟨Step.equal⟩
instance : BEq Relation := ⟨Relation.equal⟩
instance : BEq Predicate := ⟨Predicate.equal⟩

/-- All that a step asks of its node. -/
def Step.constraints (s : Step) : List Predicate :=
  s.predicates ++ s.matched.map .related

/-- The conjunction of the operands, when there are any; one operand stands
for itself. -/
def Predicate.all? : List Predicate → Option Predicate
  | [] => none
  | [p] => some p
  | ps => some (.every ps)

end QueryByExample
