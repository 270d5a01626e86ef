import Arbor.Compile.Artifact

/-!
# Sessions

A session holds one program at a time and the scopes of its last compilation that went
through. Loading another program forgets both; a compilation that fails leaves no scopes but
the root.
-/

namespace Arbor

/-- A loaded program and the scopes of its last successful run. -/
structure Session where
  program : Option Program
  scopes : ScopeTree

namespace Session

/-- The session in which nothing is loaded. -/
def fresh : Session :=
  ⟨none, .empty⟩

/-- Replaces the program. Nothing is compiled. -/
def load (_session : Session) (program : Program) : Session :=
  ⟨some program, .empty⟩

/-- The names declared at the top by the last successful run. -/
def bindings (session : Session) : Bindings :=
  session.scopes.symbols ScopeTree.root

/-- What a run gives: the emitted text or an error, the session after it, and the log. -/
structure Run where
  outcome : Except CompileError String
  session : Session
  log : List Event

/-- Compiles the loaded program. -/
def run (session : Session) : Run :=
  match session.program with
  | none => ⟨.error .noProgramLoaded, session, []⟩
  | some program =>
    match program.emit with
    | .ok output state =>
      ⟨.ok output, { session with scopes := state.scopes }, state.log.reverse⟩
    | .error error state =>
      ⟨.error error, { session with scopes := .empty }, state.log.reverse⟩

end Session

end Arbor
