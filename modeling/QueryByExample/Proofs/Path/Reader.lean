/-
A reader of path expressions, after their grammar.

    step         = segment { "/" name "::" segment }
    segment      = tag "()" { "[" disjunction "]" | "?" }
    disjunction  = conjunction { " or " conjunction }
    conjunction  = operand { " and " operand }
    operand      = "@" name "='" value "'" | "/" name "::" step
                 | "(" disjunction ")" | "not " operand

The text of a step does not tell which step a continuation leaves from, so
what is read is a list of segments. Parentheses only group: a conjunction in
a conjunction is part of it, and so is a disjunction in a disjunction.

A reader takes the text from some place on and returns what stands there with
the text after it.
-/
import QueryByExample.Text.Blank

namespace QueryByExample.Reading

mutual

/-- One step of a path, with the relation that leads to it. -/
structure Segment where
  relation : Option String
  tag : String
  items : List Item

inductive Item where
  | body (body : Body)
  /-- The mark of an optional predicate. -/
  | mark

inductive Body where
  | equals (name value : String)
  | path (segments : List Segment)
  | negated (body : Body)
  | every (bodies : List Body)
  | any (bodies : List Body)
  /-- Raw text, which has no other reading. -/
  | raw (text : String)

end

namespace Body

def conjuncts : Body → List Body
  | .every bs => bs
  | b => [b]

def disjuncts : Body → List Body
  | .any bs => bs
  | b => [b]

def and (b c : Body) : Body := .every (b.conjuncts ++ c.conjuncts)

def or (b c : Body) : Body := .any (b.disjuncts ++ c.disjuncts)

theorem and_assoc (a b c : Body) : (a.and b).and c = a.and (b.and c) := by
  simp [and, conjuncts]

theorem or_assoc (a b c : Body) : (a.or b).or c = a.or (b.or c) := by
  simp [or, disjuncts]

/-- The conjunction of one body or more. -/
def all : List Body → Body
  | [] => .every []
  | [b] => b
  | b :: bs => b.and (all bs)

end Body

abbrev Reader (α : Type) := List Char → Option (α × List Char)

/-- Characters of names and tags: neither blank nor of the grammar. -/
def isNameChar (c : Char) : Bool :=
  !isBlank c && !(['/', ':', '(', ')', '[', ']', '?', '@', '=', '\''].contains c)

/-- A name or tag as one word of the grammar. -/
def isName (s : String) : Bool :=
  !s.toList.isEmpty && s.toList.all isNameChar

def name? : Reader String := fun cs =>
  match cs.takeWhile isNameChar with
  | [] => none
  | name => some (String.ofList name, cs.dropWhile isNameChar)

/-- The text after a literal, if the literal is what the text starts with. -/
def after? : (literal text : List Char) → Option (List Char)
  | [], cs => some cs
  | _ :: _, [] => none
  | l :: literal, c :: cs => if l = c then after? literal cs else none

/-- A name and the literal after it. -/
def nameBefore? (literal : List Char) : Reader String := fun cs => do
  let (name, rest) ← name? cs
  let rest ← after? literal rest
  return (name, rest)

/-- The characters of a value up to its closing quote. -/
def quoted? : Reader (List Char)
  | [] => none
  | '\'' :: rest => some ([], rest)
  | '\\' :: c :: rest => do
    let (cs, rest) ← quoted? rest
    return (c :: cs, rest)
  | c :: rest => do
    let (cs, rest) ← quoted? rest
    return (c :: cs, rest)

/-- Parts as long as they start as a part does. Each takes some of the text, so
its length bounds the rounds. -/
def many? (starts : List Char) (part : Reader α) : Nat → Reader (List α)
  | 0, cs => some ([], cs)
  | _, [] => some ([], [])
  | rounds + 1, c :: cs =>
    if c ∈ starts then do
      let (x, rest) ← part (c :: cs)
      let (xs, rest) ← many? starts part rounds rest
      return (x :: xs, rest)
    else some ([], c :: cs)

/-- Parts between separators, put together. -/
def joined? (separator : List Char) (join : α → α → α) (part : Reader α) : Nat → Reader α
  | 0, _ => none
  | rounds + 1, cs => do
    let (x, rest) ← part cs
    match after? separator rest with
    | none => return (x, rest)
    | some rest =>
      let (y, rest) ← joined? separator join part rounds rest
      return (join x y, rest)

def conjunction? (operand : Reader Body) : Reader Body := fun cs =>
  joined? " and ".toList .and operand (cs.length + 1) cs

def disjunction? (operand : Reader Body) : Reader Body := fun cs =>
  joined? " or ".toList .or (conjunction? operand) (cs.length + 1) cs

def item? (body : Reader Body) : Reader Item
  | '?' :: rest => some (.mark, rest)
  | '[' :: rest => do
    let (b, rest) ← body rest
    let rest ← after? [']'] rest
    return (.body b, rest)
  | _ => none

def segment? (body : Reader Body) (relation : Option String) : Reader Segment := fun cs => do
  let (tag, rest) ← nameBefore? "()".toList cs
  let (items, rest) ← many? ['[', '?'] (item? body) (rest.length + 1) rest
  return (⟨relation, tag, items⟩, rest)

/-- A segment behind the relation that leads to it. -/
def related? (body : Reader Body) : Reader Segment := fun cs => do
  let rest ← after? ['/'] cs
  let (name, rest) ← nameBefore? "::".toList rest
  segment? body (some name) rest

def continuations? (body : Reader Body) : Reader (List Segment) := fun cs =>
  many? ['/'] (related? body) (cs.length + 1) cs

def step? (body : Reader Body) : Reader (List Segment) := fun cs => do
  let (first, rest) ← segment? body none cs
  let (others, rest) ← continuations? body rest
  return (first :: others, rest)

/-- An operand with operands nested in it to a depth. -/
def operand? : (depth : Nat) → Reader Body
  | 0, _ => none
  | depth + 1, cs =>
    let body := disjunction? (operand? depth)
    match cs with
    | '@' :: rest => do
      let (name, rest) ← nameBefore? "='".toList rest
      let (value, rest) ← quoted? rest
      return (.equals name (String.ofList value), rest)
    | '/' :: _ => do
      let (segments, rest) ← continuations? body cs
      return (.path segments, rest)
    | '(' :: rest => do
      let (b, rest) ← body rest
      let rest ← after? [')'] rest
      return (b, rest)
    | _ => do
      let rest ← after? "not ".toList cs
      let (b, rest) ← operand? depth rest
      return (.negated b, rest)

/-- The segments of a step, if a text is one whole step. -/
def read? (text : String) : Option (List Segment) := do
  match ← step? (disjunction? (operand? text.length)) text.toList with
  | (segments, []) => return segments
  | _ => none

end QueryByExample.Reading
