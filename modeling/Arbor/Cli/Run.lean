import Arbor.Cli.Log
import Arbor.Cli.Options
import Arbor.Cli.Report
import Arbor.Files.Path

/-!
# Single runs

A run reads one source, compiles it, and delivers the text to a file or to standard output.
What it does between reading and delivering is `prepare`, which touches no files. In which words it
reports that a source is no tree is left open.
-/

namespace Arbor.Cli

variable {m : Type → Type} [Monad m]

/-- The source a run is asked to compile. -/
def readSource (store : FileStore m) (stdin : m ByteArray) (options : Options) :
    m (Except Report String) := do
  match options.input with
  | some path =>
    let source ← store.readText path
    return source.mapError fun error =>
      ⟨"failed to read input file " ++ path, some error.message⟩
  | none =>
    let content ← stdin
    return (decodeText content).mapError fun error => ⟨error.message, none⟩

/-- The tree in a source, as it is shown. -/
def echo (wording : TreeError.Wording) (source : String) : Except Report String :=
  match Json.read source with
  | .ok value => .ok (value.pretty ++ "\n")
  | .error error =>
    .error ⟨"input is not valid JSON", some (wording source (.unreadable error))⟩

/-- The tree if it is to be shown. -/
def echoIf (wording : TreeError.Wording) (wanted : Bool) (source : String) :
    Except Report String :=
  if wanted then echo wording source else .ok ""

/-- Compiles a source. Gives what is said on the way and the artifact. -/
def prepare (wording : TreeError.Wording) (filter : LogFilter) (options : Options)
    (source : String) : String × Except Report Artifact :=
  match echoIf wording options.printTree source with
  | .error report => ("", .error report)
  | .ok tree =>
    match compileLogged source with
    | (.error failure, log) =>
      (tree ++ filter.lines log, .error (.ofFailure (wording source) failure))
    | (.ok artifact, log) =>
      (tree ++ filter.lines (log ++ [.complete artifact.bindings.length]), .ok artifact)

/-- The text a run delivers. -/
def deliveredText (options : Options) (artifact : Artifact) : String :=
  artifact.withRuntime options.runtime ++
    if options.bindings then artifact.bindings.dump else ""

/-- Writes a file, and makes its directory before. -/
def writeOutput (store : FileStore m) (path text : String) : m (Except Report Unit) := do
  let write : m (Except Report Unit) := do
    let result ← store.write path text
    return result.mapError fun error =>
      ⟨"failed to write output file " ++ path, some error.message⟩
  match Path.parent? path with
  | none => write
  | some parent =>
    if parent = "" then write
    else
      match ← store.createDirectories parent with
      | .ok () => write
      | .error error =>
        return .error
          ⟨"failed to create directory " ++ Text.inspect parent, some error.message⟩

/-- Delivers a text. Gives what goes to standard output. -/
def deliver (store : FileStore m) (options : Options) (text : String) :
    m (Except Report String) := do
  match options.output with
  | none => return .ok text
  | some path =>
    let result ← writeOutput store path text
    return result.map fun _ => ""

/-- The types of the names declared at the top, if they are to be shown. -/
def typeLines (options : Options) (artifact : Artifact) : String :=
  if options.types then String.join (artifact.bindings.describe.map (· ++ "\n")) else ""

/-- One run of the compiler. -/
def runOnce (store : FileStore m) (stdin : m ByteArray) (filter : LogFilter)
    (options : Options) (wording : TreeError.Wording := .bare) : m Outcome := do
  match ← readSource store stdin options with
  | .error report => return .failed "" "" report
  | .ok source =>
    match prepare wording filter options source with
    | (said, .error report) => return .failed "" said report
    | (said, .ok artifact) =>
      match ← deliver store options (deliveredText options artifact) with
      | .error report => return .failed "" said report
      | .ok stdout => return ⟨0, stdout, said ++ typeLines options artifact⟩

end Arbor.Cli
