import Arbor.Emit.Rendering

/-!
# Artifacts

A program compiles to an artifact: the emitted statements and the names declared at the top,
in order, with their types. Either the whole program compiles or nothing is given.
-/

namespace Arbor

/-- The names declared at the top of a program, in order, with their types. -/
abbrev Bindings := List (String × Ty)

namespace Bindings

/-- A line for every name, with its type. -/
def describe (bindings : Bindings) : List String :=
  bindings.map fun binding => binding.1 ++ ": " ++ binding.2.display

/-- Host statements that log every name and its value. -/
def dump (bindings : Bindings) : String :=
  String.join (bindings.map fun binding =>
    "console.log(" ++ Text.quote (binding.1 ++ ":") ++ ");\nconsole.log(" ++ binding.1 ++ ");\n")

end Bindings

/-- A compiled program. -/
structure Artifact where
  /-- The emitted statements, without the one that loads the runtime. -/
  output : String
  bindings : Bindings

/-- The emitted statements behind the one that loads the runtime. -/
def Artifact.withRuntime (artifact : Artifact) (runtime : String) : String :=
  Host.bindRuntime runtime ++ artifact.output

/-- What a compilation gives, and what it told about itself in order. -/
structure Compilation where
  outcome : Except CompileError Artifact
  log : List Event

namespace Program

/-- Emits a program from the start. -/
def emit (program : Program) : EStateM.Result CompileError EmitState String :=
  (Rendering.body (renderings program) ScopeTree.root).run .initial

/-- Compiles a program and keeps the log. -/
def compilation (program : Program) : Compilation :=
  match program.emit with
  | .ok output state => ⟨.ok ⟨output, state.scopes.symbols ScopeTree.root⟩, state.log.reverse⟩
  | .error error state => ⟨.error error, state.log.reverse⟩

/-- Compiles a program. -/
def compile (program : Program) : Except CompileError Artifact :=
  program.compilation.outcome

end Program

end Arbor
