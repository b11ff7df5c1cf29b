/-
Raw predicate text and the bracketed predicates it is made of.

Text such as `[@a='1'] [@b='2']` is a sequence of predicates, and `bodies`
gives what stands between the brackets of each. Brackets inside a quoted
value do not count, and brackets inside a predicate have to balance. Any
other text is a single body of its own, whole.
-/
import QueryByExample.Text.Blank

namespace QueryByExample.Bracketed

/-- Where a scan stands with regard to values between single quotes, in which
a backslash takes the next character as it is. -/
inductive Quoting where
  | outside
  | inside
  | escaped
  deriving DecidableEq

/-- Whether a character belongs to a quoted value, its quotes included. -/
def Quoting.covers (q : Quoting) (c : Char) : Bool :=
  q ≠ .outside || c == '\''

def Quoting.after : Quoting → Char → Quoting
  | .outside, c => if c = '\'' then .inside else .outside
  | .inside, c => if c = '\\' then .escaped else if c = '\'' then .outside else .inside
  | .escaped, _ => .inside

/-- Whether a blank stands outside all quoted values. -/
def hasBlankFrom : Quoting → List Char → Bool
  | _, [] => false
  | q, c :: rest => (!q.covers c && isBlank c) || hasBlankFrom (q.after c) rest

def hasBlank (body : List Char) : Bool :=
  hasBlankFrom .outside body

mutual

/-- The bodies of a text that is a sequence of bracketed predicates and
blanks, and nothing for any other text. -/
def sequence? : List Char → Option (List (List Char))
  | [] => some []
  | c :: rest =>
    if c = '[' then body? .outside 0 [] rest
    else if isBlank c then sequence? rest
    else none

/-- The same inside a predicate: `depth` brackets are open in its body, of
which `seen` has been read, last character first. -/
def body? (q : Quoting) (depth : Nat) (seen : List Char) : List Char → Option (List (List Char))
  | [] => none
  | c :: rest =>
    if q.covers c then body? (q.after c) depth (c :: seen) rest
    else if c = '[' then body? q (depth + 1) (c :: seen) rest
    else if c = ']' then
      match depth with
      | 0 => (sequence? rest).map (seen.reverse :: ·)
      | depth + 1 => body? q depth (c :: seen) rest
    else body? q depth (c :: seen) rest

end

/-- The bodies of raw predicate text. -/
def bodies (text : List Char) : List (List Char) :=
  match sequence? text with
  | some (body :: rest) => body :: rest
  | _ => [text]

end QueryByExample.Bracketed
