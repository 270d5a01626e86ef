import Arbor.Compile.Artifact
import Arbor.Files.Store
import Arbor.Tree.Program

/-!
# Sources

Compiling from a text and from a file.
-/

namespace Arbor

/-- Why a source is not compiled. -/
inductive Failure where
  | missingSource (path : String)
  | unreadableSource (error : FileError)
  | malformedTree (error : TreeError)
  | rejected (error : CompileError)

namespace Failure

/-- The sentence that reports the cause, with a tree error put into the given words. -/
def cause? (failure : Failure) (words : TreeError → String) : Option String :=
  match failure with
  | .missingSource _ => none
  | .unreadableSource error => some error.message
  | .malformedTree error => some (words error)
  | .rejected error => some error.message

/-- The reported sentence, with a tree error put into the given words. -/
def message (failure : Failure) (words : TreeError → String := TreeError.message) : String :=
  match failure with
  | .missingSource path => "source file was not found at " ++ path
  | .unreadableSource error => "failed to read source: " ++ error.message
  | .malformedTree error => "malformed parse tree: " ++ words error
  | .rejected error => "translation failed: " ++ error.message

end Failure

/-- Compiles the program a text holds and keeps the log. -/
def compileLogged (source : String) : Except Failure Artifact × List Event :=
  match Program.read source with
  | .error error => (.error (.malformedTree error), [])
  | .ok program =>
    let compilation := Program.compilation program
    (compilation.outcome.mapError .rejected, compilation.log)

/-- Compiles the program a text holds. -/
def compileSource (source : String) : Except Failure Artifact :=
  (compileLogged source).1

theorem compileSource_of_read {source : String} {program : Program}
    (done : Program.read source = .ok program) :
    compileSource source = program.compile.mapError .rejected := by
  rw [compileSource, compileLogged, done]
  rfl

/-- Compiles the program in a file. -/
def compileFile {m : Type → Type} [Monad m] (store : FileStore m) (path : String) :
    m (Except Failure Artifact) := do
  match ← store.readText path with
  | .ok source => return compileSource source
  | .error .notFound => return .error (.missingSource path)
  | .error error => return .error (.unreadableSource error)

end Arbor
