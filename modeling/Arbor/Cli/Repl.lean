import Arbor.Cli.Log
import Arbor.Cli.Report
import Arbor.Compile.Session
import Arbor.Text.Blank

/-!
# Interactive runs

Lines are collected until a blank one ends the block; then the block is compiled and the result
or the error is shown. Lines behind the last blank one are not compiled. `Repl.step` is the
answer to one line. In which words a block that is no tree is reported is left open.
-/

namespace Arbor.Cli

/-- An interactive run between two lines. -/
structure Repl where
  session : Session
  /-- The lines since the last blank one, each with its end. -/
  block : String

/-- What is shown, and what is told in the log, in answer to something. -/
structure Answer where
  shown : String
  log : List Event

namespace Repl

/-- The run before the first line. -/
def start : Repl :=
  ⟨.fresh, ""⟩

/-- What is shown when a run begins. -/
def greeting : String :=
  "Starting interactive mode.\nBindings are not kept between blocks.\n" ++
  "Enter a parse tree line by line. Enter a blank line to translate.\n"

/-- The sign that a block may begin. -/
def ready : String := "==> "

/-- The sign that a block goes on. -/
def goOn : String := "  > "

/-- Compiles a block in a session. -/
def compileBlock (runtime : String) (wording : TreeError.Wording) (session : Session)
    (block : String) : Session × Answer :=
  match Program.read block with
  | .error error => (session, ⟨"malformed parse tree: " ++ wording block error ++ "\n\n", []⟩)
  | .ok program =>
    let run := (session.load program).run
    match run.outcome with
    | .ok output =>
      (run.session,
        ⟨"Compiled result:\n" ++ Host.bindRuntime runtime ++ output ++ run.session.bindings.dump,
          run.log⟩)
    | .error error => (run.session, ⟨error.message ++ "\n\n", run.log⟩)

/-- The answer to a line. -/
def step (runtime : String) (wording : TreeError.Wording) (repl : Repl) (line : String) :
    Repl × Answer :=
  if Text.isBlank line then
    if repl.block = "" then (repl, ⟨ready, []⟩)
    else
      let (session, answer) := compileBlock runtime wording repl.session repl.block
      (⟨session, ""⟩, ⟨answer.shown ++ ready, answer.log⟩)
  else ({ repl with block := repl.block ++ line ++ "\n" }, ⟨goOn, []⟩)

/-- The answers to lines, one after another. -/
def steps (runtime : String) (wording : TreeError.Wording) : Repl → List String → Answer
  | _, [] => ⟨"", []⟩
  | repl, line :: rest =>
    let (repl, answer) := step runtime wording repl line
    let others := steps runtime wording repl rest
    ⟨answer.shown ++ others.shown, answer.log ++ others.log⟩

/-- All that is shown for lines that could all be read. -/
def transcript (runtime : String) (wording : TreeError.Wording) (lines : List String) : String :=
  greeting ++ ready ++ (steps runtime wording start lines).shown ++ "\n"

/-- The lines of a stream of bytes, each without its end: a line feed, and a carriage return
before it. Bytes behind the last line feed are a line too. -/
def splitLines : List UInt8 → List (List UInt8)
  | [] => []
  | 10 :: rest => [] :: splitLines rest
  | 13 :: 10 :: rest => [] :: splitLines rest
  | byte :: rest =>
    match splitLines rest with
    | [] => [[byte]]
    | line :: others => (byte :: line) :: others

/-- The lines up to the first one that is not a text, and whether there is such a one. -/
def readLines : List (List UInt8) → List String × Bool
  | [] => ([], false)
  | line :: rest =>
    match String.fromUTF8? ⟨line.toArray⟩ with
    | none => ([], true)
    | some text =>
      let (others, broken) := readLines rest
      (text :: others, broken)

/-- The report of a line that is not a text. -/
def brokenInput : Report :=
  ⟨"failed to read from stdin", some FileError.notText.message⟩

/-- An interactive run on a stream of bytes. -/
def run (filter : LogFilter) (runtime : String) (input : ByteArray)
    (wording : TreeError.Wording := .bare) : Outcome :=
  let (lines, broken) := readLines (splitLines input.toList)
  if broken then
    let answers := steps runtime wording start lines
    .failed (greeting ++ ready ++ answers.shown) (filter.lines answers.log) brokenInput
  else
    ⟨0, transcript runtime wording lines, filter.lines (steps runtime wording start lines).log⟩

end Repl

end Arbor.Cli
