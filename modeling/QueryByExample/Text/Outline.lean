/-
Inspected values: a text form that shows a value's structure, for people
rather than for programs. The short form is one line. The long form puts each
part on a line of its own, four spaces further in and with a comma after it;
what has no parts stays on one line. Strings are quoted so that every
character can be seen.
-/
import QueryByExample.Text.Printable
import QueryByExample.Decimal.Layout

namespace QueryByExample

inductive Outline where
  /-- Text that stands for itself. -/
  | plain (text : String)
  | quoted (text : String)
  /-- A name with unnamed parts. -/
  | tuple (name : String) (parts : List Outline)
  /-- A name with named parts. -/
  | record (name : String) (parts : List (String × Outline))
  | list (parts : List Outline)
  | map (entries : List (String × Outline))

namespace Outline

def escape (c : Char) : List Char :=
  if c = '"' then ['\\', '"']
  else if c = '\\' then ['\\', '\\']
  else if c = '\n' then ['\\', 'n']
  else if c = '\r' then ['\\', 'r']
  else if c = '\t' then ['\\', 't']
  else if c = '\x00' then ['\\', '0']
  else if isPrintable c then [c]
  else '\\' :: 'u' :: '\x7b' :: Nat.toDigits 16 c.toNat ++ ['\x7d']

def quote (s : String) : List Char :=
  '"' :: s.toList.flatMap escape ++ ['"']

/-- Parts with a comma and a space between them. -/
def commaSeparated (parts : List (List Char)) : List Char :=
  List.intercalate [',', ' '] parts

/-- A name and its parts, the name alone when there are none. -/
def shortRecord (name : String) (parts : List (List Char)) : List Char :=
  if parts.isEmpty then name.toList
  else name.toList ++ " \x7b ".toList ++ commaSeparated parts ++ " \x7d".toList

def shortTuple (name : String) (parts : List (List Char)) : List Char :=
  if parts.isEmpty then name.toList else name.toList ++ '(' :: commaSeparated parts ++ [')']

mutual

def short : Outline → List Char
  | .plain text => text.toList
  | .quoted text => quote text
  | .tuple name parts => shortTuple name (shortParts parts)
  | .record name parts => shortRecord name (shortNamed String.toList parts)
  | .list parts => '[' :: commaSeparated (shortParts parts) ++ [']']
  | .map entries => '\x7b' :: commaSeparated (shortNamed quote entries) ++ ['\x7d']

def shortParts : List Outline → List (List Char)
  | [] => []
  | part :: rest => part.short :: shortParts rest

def shortNamed (label : String → List Char) : List (String × Outline) → List (List Char)
  | [] => []
  | (name, part) :: rest => (label name ++ ':' :: ' ' :: part.short) :: shortNamed label rest

end

/-- Every line of a part four spaces further in, and a comma after the last. -/
def partLines (part : List Char) : List Char :=
  let indentation := List.replicate 4 ' '
  indentation ++ part.flatMap (fun c => if c = '\n' then '\n' :: indentation else [c])
    ++ [',', '\n']

/-- Parts between an opening and a closing text. -/
def block (opening : List Char) (closing : Char) (parts : List (List Char)) : List Char :=
  opening ++ '\n' :: parts.flatMap partLines ++ [closing]

def longRecord (name : String) (parts : List (List Char)) : List Char :=
  if parts.isEmpty then name.toList else block (name.toList ++ " \x7b".toList) '\x7d' parts

def longTuple (name : String) (parts : List (List Char)) : List Char :=
  if parts.isEmpty then name.toList else block (name.toList ++ ['(']) ')' parts

def longList (opening closing : Char) (parts : List (List Char)) : List Char :=
  if parts.isEmpty then [opening, closing] else block [opening] closing parts

mutual

def long : Outline → List Char
  | .plain text => text.toList
  | .quoted text => quote text
  | .tuple name parts => longTuple name (longParts parts)
  | .record name parts => longRecord name (longNamed String.toList parts)
  | .list parts => longList '[' ']' (longParts parts)
  | .map entries => longList '\x7b' '\x7d' (longNamed quote entries)

def longParts : List Outline → List (List Char)
  | [] => []
  | part :: rest => part.long :: longParts rest

def longNamed (label : String → List Char) : List (String × Outline) → List (List Char)
  | [] => []
  | (name, part) :: rest => (label name ++ ':' :: ' ' :: part.long) :: longNamed label rest

end

def shortText (o : Outline) : String :=
  String.ofList o.short

def longText (o : Outline) : String :=
  String.ofList o.long

def bool (b : Bool) : Outline :=
  .plain (if b then "true" else "false")

def int (n : Int) : Outline :=
  .plain (String.ofList (Decimal.integer n))

def double (x : Binary64) : Outline :=
  .plain (String.ofList (x.write .inspected))

def strings (texts : List String) : Outline :=
  .list (texts.map .quoted)

end Outline
end QueryByExample
