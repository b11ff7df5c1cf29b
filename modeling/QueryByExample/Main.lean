/-
The program: reads files and the standard input for the commands, and prints
how they end.
-/
import QueryByExample.CommandLine.Run

namespace QueryByExample.CommandLine

def usage : String :=
  "usage: query-by-example [-v] query [EXAMPLE | -e JSON] [--recursion-limit N]\n" ++
  "       query-by-example [-v] diff LEFT RIGHT [--ignore NAMES]\n" ++
  "       query-by-example [-v] filter TREE --keep NAMES [--compact]"

/-- The bytes that are left on a stream. -/
partial def readRest (stream : IO.FS.Stream) (seen : ByteArray) : IO ByteArray := do
  let more ← stream.read 65536
  if more.isEmpty then return seen else readRest stream (seen ++ more)

def readBytes : Source → IO ByteArray
  | .standardInput => do readRest (← IO.getStdin) .empty
  | .file path => IO.FS.readBinFile path

/-- The text of a source, or why there is none. -/
def readSource (source : Source) : IO (Except String String) := do
  try
    match String.fromUTF8? (← readBytes source) with
    | some text => return .ok text
    | none => return .error "stream did not contain valid UTF-8"
  catch error => return .error (toString error)

end QueryByExample.CommandLine

open QueryByExample.CommandLine in
def main (args : List String) : IO UInt32 := do
  match read args with
  | none =>
    IO.eprintln usage
    return 2
  | some invocation =>
    match ← invocation.command.run readSource with
    | .done exitCode output =>
      IO.print output
      return exitCode.toUInt32
    | .failed failure =>
      IO.eprintln ("error: " ++ failure.message "not a JSON value")
      return 1
