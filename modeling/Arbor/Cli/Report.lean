import Arbor.Compile.Source

/-!
# Reports

What a run says when it fails: a sentence, and the cause behind it if there is one.
-/

namespace Arbor.Cli

/-- A failure as it is reported. -/
structure Report where
  message : String
  cause : Option String
deriving DecidableEq

namespace Report

/-- The failure of a compilation, with a tree error put into the given words. -/
def ofFailure (words : TreeError → String) (failure : Failure) : Report :=
  ⟨failure.message words, failure.cause? words⟩

/-- Text with every line but the first moved in by four blanks. -/
def indent (text : String) : String :=
  String.ofList (text.toList.flatMap fun c => if c = '\n' then "\n    ".toList else [c])

/-- The report in full. -/
def text (report : Report) : String :=
  "Error: " ++ report.message ++ "\n" ++
    match report.cause with
    | none => ""
    | some cause => "\nCaused by:\n    " ++ indent cause ++ "\n"

end Report

/-- What a run leaves behind on its streams. -/
structure Outcome where
  exitCode : Nat
  stdout : String
  stderr : String

/-- A run that ended in a failure after it had written this. -/
def Outcome.failed (stdout stderr : String) (report : Report) : Outcome :=
  ⟨1, stdout, stderr ++ report.text⟩

end Arbor.Cli
