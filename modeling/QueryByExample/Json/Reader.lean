/-
Reading JSON text, strictly: blanks are the four of JSON, strings have no raw
control characters and their escapes form whole characters, numbers have no
superfluous zeros, and a number beyond the doubles is refused. Arrays and
objects nest up to a given depth.

A reader takes the text from some place on and returns what stands there
with the text after it, or nothing when the text is not JSON.
-/
import QueryByExample.Json.Number
import QueryByExample.Decimal.Reader
import QueryByExample.Text.Hex

namespace QueryByExample.Json
open Decimal

abbrev Reader (α : Type) := List Char → Option (α × List Char)

def isSpace (c : Char) : Bool :=
  c == ' ' || c == '\t' || c == '\n' || c == '\r'

def skipSpaces (cs : List Char) : List Char :=
  cs.dropWhile isSpace

/-- The number that four hexadecimal digits write. -/
def codeUnit? (a b c d : Char) : Option Nat := do
  let a ← hexValue? a
  let b ← hexValue? b
  let c ← hexValue? c
  let d ← hexValue? d
  return ((a * 16 + b) * 16 + c) * 16 + d

def isHighSurrogate (n : Nat) : Bool := 0xD800 ≤ n && n < 0xDC00

def isLowSurrogate (n : Nat) : Bool := 0xDC00 ≤ n && n < 0xE000

/-- The character of a surrogate pair. -/
def ofSurrogates (high low : Nat) : Char :=
  Char.ofNat (0x10000 + (high - 0xD800) * 0x400 + (low - 0xDC00))

/-- The character that a letter after a backslash stands for. -/
def escaped? : Char → Option Char
  | '"' => some '"'
  | '\\' => some '\\'
  | '/' => some '/'
  | 'b' => some '\x08'
  | 'f' => some '\x0c'
  | 'n' => some '\n'
  | 'r' => some '\r'
  | 't' => some '\t'
  | _ => none

/-- The characters of a string up to its closing quote. -/
def stringBody? : Reader (List Char)
  | [] => none
  | '"' :: rest => some ([], rest)
  | '\\' :: 'u' :: a :: b :: c :: d :: rest => do
    let unit ← codeUnit? a b c d
    if isHighSurrogate unit then
      match rest with
      | '\\' :: 'u' :: a :: b :: c :: d :: rest =>
        let low ← codeUnit? a b c d
        if isLowSurrogate low then
          let (cs, rest) ← stringBody? rest
          return (ofSurrogates unit low :: cs, rest)
        else none
      | _ => none
    else if isLowSurrogate unit then none
    else
      let (cs, rest) ← stringBody? rest
      return (Char.ofNat unit :: cs, rest)
  | '\\' :: c :: rest => do
    let c ← escaped? c
    let (cs, rest) ← stringBody? rest
    return (c :: cs, rest)
  | c :: rest => do
    if c = '\\' ∨ c < ' ' then none
    else
      let (cs, rest) ← stringBody? rest
      return (c :: cs, rest)

/-- The digits after a point, none when there is no point. -/
def fraction? : Reader (List Char)
  | '.' :: rest =>
    match spanDigits rest with
    | ([], _) => none
    | found => some found
  | rest => some ([], rest)

/-- A number without its sign. -/
def unsigned? (negative : Bool) (cs : List Char) : Option (Json × List Char) := do
  let (whole, rest) := spanDigits cs
  match whole with
  | [] | '0' :: _ :: _ => none
  | _ =>
    let (fraction, tail) ← fraction? rest
    let (exponent, tail) ← spanExponent? tail
    if tail.length = rest.length then
      return (← wholeNumber? negative whole, tail)
    else
      return (← double? negative whole fraction exponent, tail)

def number? : Reader Json
  | '-' :: rest => unsigned? true rest
  | rest => unsigned? false rest

/-- What follows an item of a list: the end of the list, or a comma and more
items. Each round takes a comma off the text, so the length of the text
bounds the number of rounds. -/
def moreItems? (item : Reader α) (close : Char) : Nat → Reader (List α)
  | 0, _ => none
  | rounds + 1, cs =>
    match skipSpaces cs with
    | [] => none
    | c :: rest =>
      if c = close then some ([], rest)
      else if c = ',' then do
        let (x, rest) ← item rest
        let (xs, rest) ← moreItems? item close rounds rest
        return (x :: xs, rest)
      else none

/-- A list of items, after its opening bracket. -/
def items? (item : Reader α) (close : Char) (cs : List Char) : Option (List α × List Char) :=
  match skipSpaces cs with
  | [] => none
  | c :: rest =>
    if c = close then some ([], rest)
    else do
      let (x, rest) ← item (c :: rest)
      let (xs, rest) ← moreItems? item close (rest.length + 1) rest
      return (x :: xs, rest)

/-- A member of an object: a string, a colon and a value. -/
def member? (value : Reader Json) (cs : List Char) : Option ((String × Json) × List Char) :=
  match skipSpaces cs with
  | '"' :: rest => do
    let (key, rest) ← stringBody? rest
    match skipSpaces rest with
    | ':' :: rest =>
      let (value, rest) ← value rest
      return ((String.ofList key, value), rest)
    | _ => none
  | _ => none

/-- A value with at most `depth` arrays and objects around its innermost part,
after blanks. -/
def value? (depth : Nat) (cs : List Char) : Option (Json × List Char) :=
  match depth, skipSpaces cs with
  | _, 'n' :: 'u' :: 'l' :: 'l' :: rest => some (.null, rest)
  | _, 't' :: 'r' :: 'u' :: 'e' :: rest => some (.bool true, rest)
  | _, 'f' :: 'a' :: 'l' :: 's' :: 'e' :: rest => some (.bool false, rest)
  | _, '"' :: rest => do
    let (s, rest) ← stringBody? rest
    return (.string (String.ofList s), rest)
  | depth + 1, '[' :: rest => do
    let (items, rest) ← items? (value? depth) ']' rest
    return (.array items, rest)
  | depth + 1, '\x7b' :: rest => do
    let (members, rest) ← items? (member? (value? depth)) '\x7d' rest
    return (.object members, rest)
  | _, rest => number? rest

/-- How deep arrays and objects nest in a document. -/
def nestingLimit : Nat := 127

/-- The value at the start of a text, and the text after it. -/
def readFirst? (text : String) : Option (Json × List Char) :=
  value? nestingLimit text.toList

/-- Whether nothing but blanks is left of a text. -/
def isEnd (rest : List Char) : Bool :=
  rest.all isSpace

/-- The one value of a text that nests up to `depth`. -/
def readWithin? (depth : Nat) (text : String) : Option Json := do
  let (value, rest) ← value? depth text.toList
  if isEnd rest then some value else none

/-- The one value that a document consists of. -/
def read? (text : String) : Option Json :=
  readWithin? nestingLimit text

end QueryByExample.Json
