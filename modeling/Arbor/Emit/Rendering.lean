import Arbor.Emit.Statement

/-!
# Renderings

Every node can be met as an expression and as a statement, and `Node.rendering` says what is
emitted in each place. It is a fold: the rendering of a node is put together from the renderings
of its parts, so what holds of the parts can be carried over kind by kind.
-/

namespace Arbor

/-- What a node emits in each place, given the scope it stands in. -/
structure Rendering where
  expression : Nat → Emit Emitted
  statement : Nat → Emit (Option String)

namespace Rendering

/-- A node of a kind that has no meaning anywhere. -/
def unhandled (kind : String) : Rendering where
  expression _ := throw (.unhandledKind kind)
  statement _ := throw (.unhandledKind kind)

/-- A node that is a statement only. -/
def ofStatement (kind : String) (emit : Nat → Emit String) : Rendering where
  expression _ := throw (.unhandledKind kind)
  statement scope := do
    let text ← emit scope
    Emit.tell (.emitted kind)
    return some text

/-- A node that is an expression, and as a statement emits just that. -/
def ofExpression (kind : String) (emit : Nat → Emit Emitted) : Rendering where
  expression := emit
  statement scope := do
    let value ← emit scope
    Emit.tell (.emitted kind)
    return some value.text

/-- A return statement. It leaves no note of its kind in the log. -/
def ofReturn (value : Option Rendering) : Rendering where
  expression _ := throw (.unhandledKind "return")
  statement := Emit.ret (value.map expression)

/-- The nodes of a body, as statements. -/
def body (nodes : List Rendering) : Nat → Emit String :=
  Emit.statements (nodes.map statement)

/-- The entries of a table, as expressions. -/
def entries (fields : List (String × Rendering)) : List (String × (Nat → Emit Emitted)) :=
  fields.map fun field => (field.1, field.2.expression)

end Rendering

mutual

/-- What a node emits. -/
def Node.rendering : Node → Rendering
  | .bind name value => .ofStatement "let" (Emit.bind name value.rendering.expression)
  | .assign target value =>
    .ofStatement "assign" (Emit.assign target value.rendering.expression)
  | .ret none => .ofReturn none
  | .ret (some value) => .ofReturn (some value.rendering)
  | .branch test body none =>
    .ofStatement "if"
      (Emit.branch test.rendering.expression (Rendering.body (renderings body)) none)
  | .branch test body (some otherwise) =>
    .ofStatement "if"
      (Emit.branch test.rendering.expression (Rendering.body (renderings body))
        (some (Rendering.body (renderings otherwise))))
  | .loop test body =>
    .ofStatement "while"
      (Emit.loop test.rendering.expression (Rendering.body (renderings body)))
  | .ident name => .ofExpression "identifier" (Emit.identifier name)
  | .literal type none parameters body =>
    .ofExpression "literal"
      (Emit.literal type none parameters (Rendering.body (renderings body)) [])
  | .literal type (some payload) parameters body =>
    .ofExpression "literal"
      (Emit.literal type (some payload) parameters (Rendering.body (renderings body))
        (Rendering.entries payload.renderings))
  | .new target => .ofExpression "new" fun _ => Emit.newValue target
  | .binary op left right =>
    .ofExpression "binary" (Emit.binary op left.rendering.expression right.rendering.expression)
  | .unary op operand => .ofExpression "unary" (Emit.unary op operand.rendering.expression)
  | .call callee arguments =>
    .ofExpression "call"
      (Emit.call callee.rendering.expression ((renderings arguments).map Rendering.expression))
  | .member .. => .unhandled "objAccess"
  | .element .. => .unhandled "access"
  | .type .. => .unhandled "type"
  | .unknown kind => .unhandled kind

/-- What the nodes of a list emit. -/
def renderings : List Node → List Rendering
  | [] => []
  | node :: rest => node.rendering :: renderings rest

/-- What the nodes of a table emit. -/
def fieldRenderings : List (String × Node) → List (String × Rendering)
  | [] => []
  | (name, node) :: rest => (name, node.rendering) :: fieldRenderings rest

/-- What the fields of an object literal emit. -/
def Payload.renderings : Payload → List (String × Rendering)
  | .fields fields => fieldRenderings fields
  | _ => []

end

end Arbor
