/-
Running a command. What a command reads comes through `read`, a file at a
time, so that all the rest is a function of what was read: the text for the
standard output, the exit code, and why the command failed.
-/
import QueryByExample.CommandLine.Arguments
import QueryByExample.Example.OfJson
import QueryByExample.Json.Writer
import QueryByExample.Path.Text
import QueryByExample.TextTree.Equivalence
import QueryByExample.TextTree.Filter
import QueryByExample.TextTree.Json

namespace QueryByExample.CommandLine

inductive QueryError where
  | unread (error : ExampleError)
  | uncompiled (error : CompileError)

/-- The path expression for the example in a JSON text. -/
def expression (text : String) (limit : Nat) : Except QueryError String :=
  match Example.read text with
  | .error error => .error (.unread error)
  | .ok e =>
    match e.compile limit with
    | .error error => .error (.uncompiled error)
    | .ok branch => .ok branch.step.expression

/-- Whether two trees are equivalent, whatever nodes with the ignored names hold. -/
def equivalentIgnoring (ignored : List String) (left right : TextTree) : Bool :=
  TextTree.equivalentWith (TextTree.ifNamed ignored) left right

/-- The JSON text of a tree of which only the nodes with the given names are kept. -/
def filteredText (kept : List String) (pretty : Bool) (tree : TextTree) : String :=
  let value := (tree.filter (.named kept)).toJson
  if pretty then value.prettyText else value.compactText

/-- Where a command reads from: a path that is a single dash means the
standard input. -/
inductive Source where
  | standardInput
  | file (path : String)

def Source.ofPath (path : String) : Source :=
  if path = "-" then .standardInput else .file path

inductive Failure where
  | noExample
  | bothFromStandardInput
  | unreadable (source : Source) (reason : String)
  | query (error : QueryError)
  | tree (path : String) (error : Json.DocumentError)

/-- What is said of a failure; `malformed` is what is said of text that is no
JSON. -/
def Failure.message (malformed : String) : Failure → String
  | .noExample => "example is required: use positional argument or -e/--example"
  | .bothFromStandardInput => "both trees cannot be read from stdin"
  | .unreadable .standardInput reason => "failed to read stdin: " ++ reason
  | .unreadable (.file path) reason => "failed to read '" ++ path ++ "': " ++ reason
  | .query (.unread .malformedJson) => "malformed example JSON: " ++ malformed
  | .query (.unread (.invalid fault)) => "invalid example: " ++ fault.message
  | .query (.uncompiled error) => error.message
  | .tree path error => "invalid tree in '" ++ path ++ "': " ++ error.message?.getD malformed

/-- How a run ends: with an exit code and text, or with a failure. -/
inductive Outcome where
  | done (exitCode : Nat) (output : String)
  | failed (failure : Failure)

variable {m : Type → Type} [Monad m] (read : Source → m (Except String String))

def readText (source : Source) : m (Except Failure String) :=
  return match ← read source with
    | .ok text => .ok text
    | .error reason => .error (.unreadable source reason)

def readTree (path : String) : m (Except Failure TextTree) :=
  return match ← readText read (.ofPath path) with
    | .error failure => .error failure
    | .ok text =>
      match TextTree.read text with
      | .ok tree => .ok tree
      | .error error => .error (.tree path error)

def runQuery (path text : Option String) (limit : Option Nat) : m Outcome := do
  let input ← match text, path with
    | some text, _ => pure (.ok text)
    | none, some path => readText read (.ofPath path)
    | none, none => pure (.error .noExample)
  return match input with
    | .error failure => .failed failure
    | .ok text =>
      match expression text (limit.getD defaultRecursionLimit) with
      | .ok expression => .done 0 (expression ++ "\n")
      | .error error => .failed (.query error)

/-- Both trees are read before either failure counts, the left one first. -/
def runDiff (left right : String) (ignored : List String) : m Outcome := do
  if left = "-" ∧ right = "-" then
    return .failed .bothFromStandardInput
  let left ← readTree read left
  let right ← readTree read right
  return match left, right with
    | .error failure, _ => .failed failure
    | _, .error failure => .failed failure
    | .ok left, .ok right =>
      if equivalentIgnoring ignored left right then .done 0 "equivalent\n"
      else .done 1 "different\n"

def runFilter (path : String) (kept : List String) (pretty : Bool) : m Outcome :=
  return match ← readTree read path with
    | .error failure => .failed failure
    | .ok tree => .done 0 (filteredText kept pretty tree ++ "\n")

def Command.run : Command → m Outcome
  | .query path text limit => runQuery read path text limit
  | .diff left right ignored => runDiff read left right ignored
  | .filter path kept pretty => runFilter read path kept pretty

end QueryByExample.CommandLine
