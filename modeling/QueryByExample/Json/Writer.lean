/-
Writing JSON text. Strings escape the quote, the backslash and the control
characters below the space; everything else stands for itself. The compact
style has no blanks at all. The pretty style puts each item on a line of its
own, two spaces further in than the brackets around it, and leaves an empty
list on one line.
-/
import QueryByExample.Json.Basic
import QueryByExample.Decimal.Layout

namespace QueryByExample.Json

/-- How a character stands in a string. -/
def escape (c : Char) : List Char :=
  if c = '"' then ['\\', '"']
  else if c = '\\' then ['\\', '\\']
  else if c = '\x08' then ['\\', 'b']
  else if c = '\x0c' then ['\\', 'f']
  else if c = '\n' then ['\\', 'n']
  else if c = '\r' then ['\\', 'r']
  else if c = '\t' then ['\\', 't']
  else if c < ' ' then ['\\', 'u', '0', '0', (c.toNat / 16).digitChar, (c.toNat % 16).digitChar]
  else [c]

def quote (s : String) : List Char :=
  '"' :: s.toList.flatMap escape ++ ['"']

/-- JSON has no numbers beyond the finite ones. -/
def ofDouble : Binary64 → List Char
  | x@(.finite ..) => x.write .json
  | _ => ['n', 'u', 'l', 'l']

mutual
def compact : Json → List Char
  | .null => ['n', 'u', 'l', 'l']
  | .bool true => ['t', 'r', 'u', 'e']
  | .bool false => ['f', 'a', 'l', 's', 'e']
  | .int n => Decimal.integer n
  | .double x => ofDouble x
  | .string s => quote s
  | .array [] => ['[', ']']
  | .array (item :: rest) => '[' :: item.compact ++ compactItems rest
  | .object [] => ['\x7b', '\x7d']
  | .object ((key, value) :: rest) =>
    '\x7b' :: quote key ++ ':' :: value.compact ++ compactMembers rest

/-- The items after the first, and the closing bracket. -/
def compactItems : List Json → List Char
  | [] => [']']
  | item :: rest => ',' :: item.compact ++ compactItems rest

def compactMembers : List (String × Json) → List Char
  | [] => ['\x7d']
  | (key, value) :: rest => ',' :: quote key ++ ':' :: value.compact ++ compactMembers rest
end

/-- A new line, indented by `level` steps. -/
def newLine (level : Nat) : List Char :=
  '\n' :: List.replicate (2 * level) ' '

mutual
/-- A value whose first line is already indented by `level` steps. -/
def pretty (level : Nat) : Json → List Char
  | .array (item :: rest) =>
    '[' :: newLine (level + 1) ++ item.pretty (level + 1) ++ prettyItems level rest
  | .object ((key, value) :: rest) =>
    '\x7b' :: newLine (level + 1) ++ quote key ++ ':' :: ' ' :: value.pretty (level + 1)
      ++ prettyMembers level rest
  | value => value.compact

def prettyItems (level : Nat) : List Json → List Char
  | [] => newLine level ++ [']']
  | item :: rest => ',' :: newLine (level + 1) ++ item.pretty (level + 1) ++ prettyItems level rest

def prettyMembers (level : Nat) : List (String × Json) → List Char
  | [] => newLine level ++ ['\x7d']
  | (key, value) :: rest =>
    ',' :: newLine (level + 1) ++ quote key ++ ':' :: ' ' :: value.pretty (level + 1)
      ++ prettyMembers level rest
end

def compactText (value : Json) : String :=
  String.ofList value.compact

def prettyText (value : Json) : String :=
  String.ofList (value.pretty 0)

end QueryByExample.Json
