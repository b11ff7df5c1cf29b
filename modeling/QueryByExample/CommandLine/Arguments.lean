/-
The command line: a verb with its options and file names. An option is
written out after two dashes or by its letter after one; letters may be put
together, and the last of them may take a value. The value of an option is
the next argument, unless that starts with a dash, or what follows in the
same argument. After `--` everything is a file name.

A command line that does not fit is refused as a whole.
-/
import QueryByExample.Decimal.Numeral
import QueryByExample.Text.Blank

namespace QueryByExample.CommandLine

inductive Opt where
  | verbose
  | inlineExample
  | recursionLimit
  | ignore
  | keep
  | compact
  deriving DecidableEq

namespace Opt

def long : Opt → String
  | .verbose => "verbose"
  | .inlineExample => "example"
  | .recursionLimit => "recursion-limit"
  | .ignore => "ignore"
  | .keep => "keep"
  | .compact => "compact"

def letter? : Opt → Option Char
  | .verbose => some 'v'
  | .inlineExample => some 'e'
  | .keep => some 'k'
  | .recursionLimit | .ignore | .compact => none

def takesValue : Opt → Bool
  | .verbose | .compact => false
  | .inlineExample | .recursionLimit | .ignore | .keep => true

/-- Whether the option may be given more than once. -/
def repeats : Opt → Bool
  | .verbose | .ignore | .keep => true
  | .inlineExample | .recursionLimit | .compact => false

end Opt

/-- What an argument is where options are expected. -/
inductive Argument where
  | fileName
  | endOfOptions
  /-- Options with their values, and the option whose value comes next. -/
  | options (given : List (Opt × String)) (awaiting : Option Opt)

/-- The options behind one dash: the value of the first that takes one is all
that follows, without an equals sign before it. -/
def readLetters (known : List Opt) : List Char → Option Argument
  | [] => some (.options [] none)
  | c :: rest => do
    let opt ← known.find? (·.letter? == some c)
    if opt.takesValue then
      match rest with
      | [] => some (.options [] (some opt))
      | '=' :: value | value => some (.options [(opt, String.ofList value)] none)
    else
      match ← readLetters known rest with
      | .options given awaiting => some (.options ((opt, "") :: given) awaiting)
      | _ => none

/-- The option behind two dashes, its value after the first equals sign. -/
def readLong (known : List Opt) (cs : List Char) : Option Argument := do
  let name := String.ofList (cs.takeWhile (· ≠ '='))
  let opt ← known.find? (·.long == name)
  match opt.takesValue, cs.dropWhile (· ≠ '=') with
  | false, [] => some (.options [(opt, "")] none)
  | false, _ => none
  | true, [] => some (.options [] (some opt))
  | true, _ :: value => some (.options [(opt, String.ofList value)] none)

def readArgument (known : List Opt) (arg : String) : Option Argument :=
  match arg.toList with
  | ['-', '-'] => some .endOfOptions
  | '-' :: '-' :: cs => readLong known cs
  | '-' :: c :: cs => readLetters known (c :: cs)
  | _ => some .fileName

/-- Whether an argument can be the value of the option before it. -/
def canBeValue (arg : String) : Bool :=
  match arg.toList with
  | '-' :: _ :: _ => false
  | _ => true

/-- The options and file names of a command line, each in order. -/
structure Given where
  options : List (Opt × String)
  files : List String

def Given.withOptions (given : List (Opt × String)) (more : Given) : Given :=
  { more with options := given ++ more.options }

def Given.withFile (file : String) (more : Given) : Given :=
  { more with files := file :: more.files }

def readArguments (known : List Opt) : List String → Option Given
  | [] => some ⟨[], []⟩
  | arg :: rest =>
    match readArgument known arg with
    | none => none
    | some .endOfOptions => some ⟨[], rest⟩
    | some .fileName => (readArguments known rest).map (.withFile arg)
    | some (.options given none) => (readArguments known rest).map (.withOptions given)
    | some (.options given (some opt)) =>
      match rest with
      | [] => none
      | value :: rest =>
        if canBeValue value then
          (readArguments known rest).map (.withOptions (given ++ [(opt, value)]))
        else none

namespace Given

def values (given : Given) (opt : Opt) : List String :=
  (given.options.filter (·.1 = opt)).map (·.2)

/-- The value of an option that is given at most once. -/
def value? (given : Given) (opt : Opt) : Option String :=
  (given.values opt).head?

def count (given : Given) (opt : Opt) : Nat :=
  (given.values opt).length

/-- No file name is empty, and only options that may repeat do. -/
def isProper (given : Given) : Bool :=
  given.files.all (· ≠ "")
    && given.options.all fun (opt, _) => opt.repeats || given.count opt ≤ 1

/-- The names in all values of an option: between commas, without the blanks
around them, empty ones left out. -/
def names (given : Given) (opt : Opt) : List String :=
  (((given.values opt).flatMap (·.splitOn ",")).map trimBlanks).filter (· ≠ "")

end Given

inductive Command where
  | query (path text : Option String) (limit : Option Nat)
  | diff (left right : String) (ignored : List String)
  | filter (path : String) (kept : List String) (pretty : Bool)

structure Invocation where
  verbosity : Nat
  command : Command

/-- A limit from 1 to the largest number of 32 bits, with or without a plus
sign. -/
def readLimit (text : String) : Option Nat :=
  let cs := match text.toList with
    | '+' :: cs => cs
    | cs => cs
  let n := Decimal.valueOf cs
  if cs.all Char.isDigit ∧ 1 ≤ n ∧ n < UInt32.size then some n else none

def Command.query? (given : Given) : Option Command := do
  let limit ← match given.value? .recursionLimit with
    | none => some none
    | some text => (readLimit text).map some
  match given.files, given.value? .inlineExample with
  | [], text => some (.query none text limit)
  | [path], none => some (.query (some path) none limit)
  | _, _ => none

def Command.diff? (given : Given) : Option Command :=
  match given.files with
  | [left, right] => some (.diff left right (given.names .ignore))
  | _ => none

def Command.filter? (given : Given) : Option Command :=
  match given.files with
  | [path] =>
    if given.count .keep = 0 then none
    else some (.filter path (given.names .keep) (given.count .compact = 0))
  | _ => none

/-- The command of a verb with the arguments after it, and how often `-v` was
given among these. -/
def readCommand (verb : String) (args : List String) : Option (Nat × Command) := do
  let (known, command?) ← match verb with
    | "query" => some ([Opt.verbose, .inlineExample, .recursionLimit], Command.query?)
    | "diff" => some ([Opt.verbose, .ignore], Command.diff?)
    | "filter" => some ([Opt.verbose, .keep, .compact], Command.filter?)
    | _ => none
  let given ← readArguments known args
  if given.isProper then
    return (given.count .verbose, ← command? given)
  else none

/-- How often the options before the verb ask for verbosity, and the verb with
the arguments after it. -/
def spanVerbosity : List String → Option (Nat × String × List String)
  | [] => none
  | arg :: rest =>
    match readArgument [.verbose] arg with
    | some .fileName => some (0, arg, rest)
    | some (.options given _) => do
      let (count, verb, args) ← spanVerbosity rest
      return (given.length + count, verb, args)
    | _ => none

/-- Verbosity is counted up to 255. -/
def maxVerbosity : Nat := 255

/-- What a command line asks for, unless it is refused. Verbosity asked for
after the verb counts instead of that before it. -/
def read (args : List String) : Option Invocation := do
  let (before, verb, rest) ← spanVerbosity args
  let (after, command) ← readCommand verb rest
  return ⟨min maxVerbosity (if after = 0 then before else after), command⟩

end QueryByExample.CommandLine
