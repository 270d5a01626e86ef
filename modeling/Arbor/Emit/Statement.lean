import Arbor.Emit.Expression

/-!
# Statements

How each kind of statement is emitted, given how its parts are. A statement that emits nothing
gives no text.
-/

namespace Arbor.Emit

/-- Declares a name once its value has been emitted. -/
def bind (name : String) (value : Nat → Emit Emitted) (scope : Nat) : Emit String := do
  if Host.isBindable name then
    let value ← value scope
    declare scope name value.type
    return "let " ++ name ++ " = " ++ value.text
  else throw (.invalidName name)

/-- Gives a new value to a name. Nothing but a name can be assigned to. -/
def assign (target : Node) (value : Nat → Emit Emitted) (scope : Nat) : Emit String := do
  match target with
  | .ident name =>
    let declared ← resolve scope name
    let value ← value scope
    expectType declared value.type (.assignment name)
    return name ++ " = " ++ value.text
  | target => throw (.unsupportedTarget target.kind)

/-- Leaves a function. Outside of all functions the statement is left out. -/
def ret (value : Option (Nat → Emit Emitted)) (scope : Nat) : Emit (Option String) := do
  let state ← get
  if state.scopes.inFunction scope then
    match value with
    | some value =>
      let value ← value scope
      return some ("return " ++ value.text)
    | none => return some "return"
  else
    tell .droppedReturn
    return none

/-- A condition is a boolean. -/
def condition (value : Nat → Emit Emitted) (site : Site) (scope : Nat) : Emit String := do
  let value ← value scope
  expectType .bool value.type site
  return value.text

/-- A body between braces, in a scope of its own. -/
def block (body : Nat → Emit String) (scope : Nat) : Emit String := do
  let inner ← openScope scope .block
  let statements ← body inner
  return "\x7b\n" ++ statements ++ "\x7d"

/-- Emits one of two bodies, or one or none. -/
def branch (test : Nat → Emit Emitted) (body : Nat → Emit String)
    (otherwise : Option (Nat → Emit String)) (scope : Nat) : Emit String := do
  let test ← condition test .ifCondition scope
  let body ← block body scope
  let text := "if (" ++ test ++ ".value) " ++ body
  match otherwise with
  | none => return text
  | some otherwise =>
    let otherwise ← block otherwise scope
    return text ++ " else " ++ otherwise

/-- Emits a body that is run while a condition holds. -/
def loop (test : Nat → Emit Emitted) (body : Nat → Emit String) (scope : Nat) : Emit String := do
  let test ← condition test .whileCondition scope
  let body ← block body scope
  return "while (" ++ test ++ ".value) " ++ body

/-- A statement with its end. -/
def terminated : Option String → String
  | some text => text ++ ";\n"
  | none => ""

/-- Statements in order, each with its end. -/
def statements : List (Nat → Emit (Option String)) → Nat → Emit String
  | [], _ => return ""
  | statement :: rest, scope => do
    let first ← statement scope
    let others ← statements rest scope
    return terminated first ++ others

end Arbor.Emit
