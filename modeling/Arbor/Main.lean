import Arbor.Cli.Repl
import Arbor.Cli.Run

/-!
# The compiler as a program

Reads the command line, and connects runs to the files and streams of the system.
-/

namespace Arbor.Cli

/-- A failure of the system. -/
def fileErrorOf (error : IO.Error) : FileError :=
  match error with
  | .noFileOrDirectory .. => .notFound
  | .alreadyExists .. => .alreadyExists
  | .inappropriateType _ 21 _ => .isDirectory
  | .inappropriateType _ 20 _ => .notDirectory
  | error => .other (toString error)

/-- An operation of the system with its failure as a value. -/
def attemptSystem {α : Type} (operation : IO α) : IO (Except FileError α) := do
  match ← operation.toBaseIO with
  | .ok value => return .ok value
  | .error error => return .error (fileErrorOf error)

/-- The files of the system. -/
def systemFiles : FileStore IO where
  read path := attemptSystem (IO.FS.readBinFile path)
  createDirectories path := attemptSystem (IO.FS.createDirAll path)
  write path text := attemptSystem (IO.FS.writeFile path text)

/-- All bytes that are left of a stream. -/
partial def readAll (stream : IO.FS.Stream) (before : ByteArray) : IO ByteArray := do
  let bytes ← stream.read 65536
  if bytes.isEmpty then return before else readAll stream (before ++ bytes)

/-- The bytes of a stream up to the end of a line. -/
partial def readLine (stream : IO.FS.Stream) (before : ByteArray) : IO ByteArray := do
  let bytes ← stream.read 1
  if bytes.isEmpty then return before
  else if bytes.toList = [10] then return before ++ bytes
  else readLine stream (before ++ bytes)

/-- Shows what a run says on its way. -/
def display (shown log : String) : IO Unit := do
  let stdout ← IO.getStdout
  stdout.putStr shown
  stdout.flush
  (← IO.getStderr).putStr log

/-- Answers line after line until the input ends. -/
partial def converse (stdin : IO.FS.Stream) (filter : LogFilter) (runtime : String)
    (repl : Repl) : IO UInt32 := do
  let bytes ← readLine stdin ⟨#[]⟩
  if bytes.isEmpty then
    display "\n" ""
    return 0
  else
    match Repl.readLines (Repl.splitLines bytes.toList) with
    | ([line], false) =>
      let (repl, answer) := repl.step runtime .bare line
      display answer.shown (filter.lines answer.log)
      converse stdin filter runtime repl
    | _ =>
      display "" Repl.brokenInput.text
      return 1

/-- Does what the options ask for. -/
def execute (options : Options) : IO UInt32 := do
  let stdin ← IO.getStdin
  let filter := LogFilter.ofVerbose options.verbose
  if options.repl then
    display (Repl.greeting ++ Repl.ready) ""
    converse stdin filter options.runtime .start
  else
    let outcome ← runOnce systemFiles (readAll stdin ⟨#[]⟩) filter options
    display outcome.stdout outcome.stderr
    return outcome.exitCode.toUInt32

end Arbor.Cli

/-- The command line of the compiler. -/
def main (arguments : List String) : IO UInt32 := do
  match Arbor.Cli.Options.parse arguments with
  | .ok options => Arbor.Cli.execute options
  | .error error =>
    Arbor.Cli.display "" ("error: " ++ error.message ++ "\n")
    return 2
