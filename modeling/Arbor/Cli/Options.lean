import Arbor.Host

/-!
# Options

The command line of the compiler. An option that takes a value has it in the next argument,
behind an equals sign, or, for a short option, right behind its letter. Short options may stand
together behind one dash. Two dashes alone end the options, and nothing may follow them.
-/

namespace Arbor.Cli

/-- What a run is asked to do. -/
structure Options where
  /-- The file to compile; standard input if there is none. -/
  input : Option String
  /-- The file to write; standard output if there is none. -/
  output : Option String
  runtime : String
  /-- Append statements that log the names declared at the top. -/
  bindings : Bool
  /-- Show the types of the names declared at the top. -/
  types : Bool
  /-- Show the tree that was read. -/
  printTree : Bool
  /-- Compile block after block from standard input. -/
  repl : Bool
  verbose : Bool

/-- The options of a run without arguments. -/
def Options.default : Options where
  input := none
  output := none
  runtime := Host.defaultRuntime
  bindings := false
  types := false
  printTree := false
  repl := false
  verbose := false

/-- Why a command line is not understood. -/
inductive UsageError where
  | unexpectedArgument (argument : String)
  | missingValue (option : String)
deriving DecidableEq

/-- The reported sentence. -/
def UsageError.message : UsageError → String
  | .unexpectedArgument argument => "unexpected argument '" ++ argument ++ "'"
  | .missingValue option => "a value is required for '" ++ option ++ "'"

/-- What an option does: set something, or set it to the value that comes with it. -/
inductive Effect where
  | flag (set : Options → Options)
  | value (set : String → Options → Options)

/-- The option of a long name. -/
def longOption? (name : String) : Option Effect :=
  match name with
  | "input" => some (.value fun v o => { o with input := some v })
  | "output" => some (.value fun v o => { o with output := some v })
  | "runtime" => some (.value fun v o => { o with runtime := v })
  | "bindings" => some (.flag fun o => { o with bindings := true })
  | "types" => some (.flag fun o => { o with types := true })
  | "print-tree" => some (.flag fun o => { o with printTree := true })
  | "repl" => some (.flag fun o => { o with repl := true })
  | "verbose" => some (.flag fun o => { o with verbose := true })
  | _ => none

/-- The option of a letter. -/
def shortOption? (letter : Char) : Option Effect :=
  match letter with
  | 'i' => longOption? "input"
  | 'o' => longOption? "output"
  | 'v' => longOption? "verbose"
  | _ => none

/-- What an argument asks for: a change of the options, or one that still wants a value. -/
inductive Demand where
  | done (set : Options → Options)
  | wants (set : String → Options → Options)

/-- A long option, read behind its dashes. -/
def readLong (argument : String) (text : List Char) : Except UsageError Demand :=
  let name := String.ofList (text.takeWhile (· != '='))
  match longOption? name, text.dropWhile (· != '=') with
  | some (.flag set), [] => .ok (.done set)
  | some (.value set), [] => .ok (.wants set)
  | some (.value set), _ :: value => .ok (.done (set (String.ofList value)))
  | _, _ => .error (.unexpectedArgument argument)

/-- Short options, read behind their dash. -/
def readShort (argument : String) : List Char → Except UsageError Demand
  | [] => .error (.unexpectedArgument argument)
  | letter :: rest =>
    match shortOption? letter, rest with
    | some (.flag set), [] => .ok (.done set)
    | some (.flag set), rest => do
      match ← readShort argument rest with
      | .done more => .ok (.done (more ∘ set))
      | .wants more => .ok (.wants fun value => more value ∘ set)
    | some (.value set), [] => .ok (.wants set)
    | some (.value set), '=' :: value => .ok (.done (set (String.ofList value)))
    | some (.value set), value => .ok (.done (set (String.ofList value)))
    | none, _ => .error (.unexpectedArgument argument)

/-- An argument that is not a value. -/
def readArgument (argument : String) : Except UsageError Demand :=
  match argument.toList with
  | '-' :: '-' :: text => readLong argument text
  | '-' :: text => readShort argument text
  | _ => .error (.unexpectedArgument argument)

/-- The argument can be the value of an option. One that begins with a dash is an option itself,
unless it is a dash and no more. -/
def isValue (argument : String) : Bool :=
  argument = "-" || argument.toList.head? != some '-'

/-- The options after a list of arguments. -/
def Options.parseFrom (options : Options) : List String → Except UsageError Options
  | [] => .ok options
  | ["--"] => .ok options
  | "--" :: argument :: _ => .error (.unexpectedArgument argument)
  | argument :: rest => do
    match ← readArgument argument with
    | .done set => (set options).parseFrom rest
    | .wants set =>
      match rest with
      | [] => .error (.missingValue argument)
      | value :: rest =>
        if isValue value then (set value options).parseFrom rest
        else .error (.missingValue argument)

/-- The options a list of arguments stands for. -/
def Options.parse (arguments : List String) : Except UsageError Options :=
  Options.default.parseFrom arguments

end Arbor.Cli
