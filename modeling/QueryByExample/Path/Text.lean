/-
The text of path expressions.

    path      = "/" step
    step      = tag "()" { predicate } { "/" relation }
    relation  = name "::" step
    predicate = "[" body "]" | "?"
    body      = "@" name "='" value "'" | "/" relation | "not " body
              | body " or " body | body " and " body | "(" body ")"

`not` binds tighter than `and`, and `and` tighter than `or`. On a step a
conjunction is one bracketed predicate for each operand, and an optional
predicate is its operand followed by a single mark, however often it was made
optional. Inside a body optionality has no text, and raw text takes part by
the bodies of its bracketed predicates.
-/
import QueryByExample.Path.Basic
import QueryByExample.Path.Bracketed

namespace QueryByExample

/-- How tightly a body holds together. -/
inductive Binding where
  | tight
  | disjunction
  | conjunction
  /-- Raw text with blanks in it, of unknown structure. -/
  | unknown
  deriving DecidableEq

/-- A predicate in its three places. -/
structure PredicateText where
  binding : Binding
  /-- Inside another predicate, where it has no brackets of its own. -/
  body : List Char
  /-- On a step. -/
  onStep : List Char
  /-- On a step, inside an optional predicate, which writes the mark. -/
  unmarked : List Char

namespace PredicateText

def bracketed (binding : Binding) (body : List Char) : PredicateText :=
  let onStep := '[' :: body ++ [']']
  ⟨binding, body, onStep, onStep⟩

/-- A body as an operand, in parentheses unless it is one of those that hold
together there. -/
def operand (p : PredicateText) (held : List Binding) : List Char :=
  if p.binding ∈ held then p.body else '(' :: p.body ++ [')']

def equals (name : String) (value : Scalar) : PredicateText :=
  let escaped := value.text.flatMap fun c => if c = '\'' ∨ c = '\\' then ['\\', c] else [c]
  bracketed .tight ('@' :: name.toList ++ "='".toList ++ escaped ++ ['\''])

def negated (p : PredicateText) : PredicateText :=
  bracketed .tight ("not ".toList ++ p.operand [.tight])

def either (p q : PredicateText) : PredicateText :=
  let side (p : PredicateText) := p.operand [.tight, .disjunction]
  bracketed .disjunction (side p ++ " or ".toList ++ side q)

def every (ps : List PredicateText) : PredicateText :=
  let body := List.intercalate " and ".toList (ps.map (·.operand [.tight, .conjunction]))
  let onStep := ps.flatMap (·.onStep)
  ⟨.conjunction, body, onStep, onStep⟩

def optional (p : PredicateText) : PredicateText :=
  ⟨p.binding, p.body, p.unmarked ++ ['?'], p.unmarked⟩

/-- A body of raw text. -/
def ofBody (body : List Char) : PredicateText :=
  bracketed (if Bracketed.hasBlank body then .unknown else .tight) body

def custom (text : List Char) : PredicateText :=
  let inner := match Bracketed.bodies text with
    | [body] => ofBody body
    | bodies => every (bodies.map ofBody)
  ⟨inner.binding, inner.body, text, text⟩

end PredicateText

mutual

def Step.chars : Step → List Char
  | ⟨tag, predicates, matched⟩ =>
    tag.toList ++ "()".toList ++ (Predicate.writtenAll predicates).flatMap (·.onStep)
      ++ Relation.continuations matched

def Relation.chars : Relation → List Char
  | ⟨name, step⟩ => name.toList ++ "::".toList ++ step.chars

def Relation.continuations : List Relation → List Char
  | [] => []
  | r :: rest => '/' :: r.chars ++ Relation.continuations rest

def Predicate.written : Predicate → PredicateText
  | .equals name value => .equals name value
  | .related r => .bracketed .tight ('/' :: r.chars)
  | .negated p => p.written.negated
  | .either p q => p.written.either q.written
  | .every ps => .every (Predicate.writtenAll ps)
  | .optional p => p.written.optional
  | .custom text => .custom text.toList

def Predicate.writtenAll : List Predicate → List PredicateText
  | [] => []
  | p :: rest => p.written :: Predicate.writtenAll rest

end

/-- The text of a predicate on a step. -/
def Predicate.text (p : Predicate) : String :=
  String.ofList p.written.onStep

def Step.text (s : Step) : String :=
  String.ofList s.chars

/-- The path expression that starts with a step at the root of the graph. -/
def Step.expression (s : Step) : String :=
  String.ofList ('/' :: s.chars)

end QueryByExample
