import Arbor.Scope

/-!
# Emission

Emitting runs over a tree once. It carries the scopes opened so far and a log of what it did,
and either ends with a text or stops at the first error; scopes and log are there in both
cases.
-/

namespace Arbor

/-- Something a run tells about itself. -/
inductive Event where
  /-- A return statement outside of all functions was left out. -/
  | droppedReturn
  /-- The type of a default value was settled. -/
  | loweredNew (target : Ty)
  /-- A statement of this kind was emitted. -/
  | emitted (kind : String)
  | openedScope (scope parent : Nat) (kind : ScopeKind)
  /-- A program was compiled, with so many names declared at its top. -/
  | complete (bindings : Nat)

/-- The state of an emission. -/
structure EmitState where
  scopes : ScopeTree
  /-- What happened so far, the latest first. -/
  log : List Event

/-- The state before anything is emitted. -/
def EmitState.initial : EmitState :=
  ⟨.empty, []⟩

/-- A step of an emission. -/
abbrev Emit := EStateM CompileError EmitState

/-- The text of an expression and its type. -/
structure Emitted where
  text : String
  type : Ty

namespace Emit

/-- The value of a computation that needs no state. -/
def ofExcept {α : Type} : Except CompileError α → Emit α
  | .ok a => pure a
  | .error e => throw e

/-- Adds to the log. -/
def tell (event : Event) : Emit Unit :=
  modify fun state => { state with log := event :: state.log }

/-- Opens a scope inside another and gives its number. -/
def openScope (parent : Nat) (kind : ScopeKind) : Emit Nat := do
  let state ← get
  let scope := state.scopes.next
  set { state with scopes := state.scopes.push parent kind }
  tell (.openedScope scope parent kind)
  return scope

/-- Declares a name in a scope. -/
def declare (scope : Nat) (name : String) (type : Ty) : Emit Unit := do
  let state ← get
  let scopes ← ofExcept (state.scopes.declare scope name type)
  set { state with scopes }

/-- The type of a name that is used. -/
def resolve (scope : Nat) (name : String) : Emit Ty := do
  let state ← get
  if state.scopes.has scope name then ofExcept (state.scopes.get scope name)
  else throw (.undefinedVariable name)

/-- `found` has to be `expected`, up to the order of fields. The expected type is asked at every
site. Asking the other one comes to the same for types that declare no field twice, which those of a
program that was read are: there structural equality is symmetric (`Ty.Distinct.equiv_symm`). -/
def expectType (expected found : Ty) (site : Site) : Emit Unit :=
  if expected.equiv found then pure () else throw (.typeMismatch expected found site)

end Emit

end Arbor
