import Arbor.Compile.Artifact
import Arbor.Proofs.NodeInduction
import Arbor.Proofs.ScopeGrowth

/-!
# Compilation with plain environments

The same translation as `Node.rendering`, written without a scope tree and without a state. A node
is rendered in a stack of frames that is never changed: a body is rendered under one more frame,
which is dropped at its end, and a statement gives back the frames behind it, which differ from
those before it for a `let` alone.
-/

namespace Arbor

/-- The frames with one name more in the innermost one, which must not have it yet. -/
def Frames.declare (name : String) (type : Ty) : Frames → Except CompileError Frames
  | [] => .ok []
  | frame :: outer =>
    if frame.symbols.any fun entry => entry.1 == name then .error (.duplicateDeclaration name)
    else .ok (Frames.extend [(name, type)] (frame :: outer))

/-- What a node gives in each place, in the frames it stands in. -/
structure LexicalRendering where
  expression : Frames → Except CompileError Emitted
  /-- The text of the statement, if it has one, and the frames behind it. -/
  statement : Frames → Except CompileError (Option String × Frames)

namespace Lexical

/-- An expression in its frames. -/
abbrev Expression := Frames → Except CompileError Emitted

/-- The statements of a body: their text and the frames behind them. -/
abbrev Body := Frames → Except CompileError (String × Frames)

def resolve (name : String) (frames : Frames) : Except CompileError Ty :=
  match frames.type? name with
  | some type => .ok type
  | none => .error (.undefinedVariable name)

def expectType (expected found : Ty) (site : Site) : Except CompileError Unit :=
  if expected.equiv found then .ok () else .error (.typeMismatch expected found site)

def identifier (name : String) : Expression := fun frames => do
  let type ← resolve name frames
  .ok ⟨name, type⟩

def newValue (target : Node) : Except CompileError Emitted := do
  let type ← target.lower
  let constructor ← type.constructor
  .ok ⟨constructor ++ ".makeNew()", type⟩

def binary (op : BinaryOp) (left right : Expression) : Expression := fun frames => do
  let left ← left frames
  let right ← right frames
  expectType left.type right.type (.operands op)
  if Emit.accepts op left.type then
    let type := Emit.resultType op left.type
    let constructor ← type.constructor
    .ok ⟨Host.value (Emit.operation op left.type left.text right.text) constructor, type⟩
  else .error (.invalidOperand op.symbol left.type)

def unary (op : UnaryOp) (operand : Expression) : Expression := fun frames => do
  let operand ← operand frames
  let accepted := match op with
    | .neg => operand.type.isNumeric
    | .not => operand.type.equiv .bool
  if accepted then
    let constructor ← operand.type.constructor
    .ok ⟨Host.value (op.symbol ++ "(" ++ operand.text ++ ".value)") constructor, operand.type⟩
  else .error (.invalidOperand op.symbol operand.type)

def arguments (frames : Frames) :
    Nat → List Expression → List Ty → Except CompileError (List String)
  | position, argument :: rest, expected :: others => do
    let argument ← argument frames
    expectType expected argument.type (.argument position)
    let texts ← arguments frames (position + 1) rest others
    .ok (argument.text :: texts)
  | _, _, _ => .ok []

def call (callee : Expression) (args : List Expression) : Expression := fun frames => do
  let callee ← callee frames
  match callee.type with
  | .fn parameters returns =>
    if parameters.length = args.length then
      let texts ← arguments frames 1 args parameters
      .ok ⟨callee.text ++ ".value(" ++ String.intercalate ", " texts ++ ")", returns⟩
    else .error (.arityMismatch parameters.length args.length)
  | type => .error (.notCallable type)

/-- The frames with the parameters of a function in the innermost one. -/
def declareParameters : List String → List Ty → Frames → Except CompileError Frames
  | name :: names, type :: types, frames => do
    if Host.isBindable name then
      let frames ← frames.declare name type
      declareParameters names types frames
    else .error (.invalidName name)
  | _, _, frames => .ok frames

def function (parameters : List String) (types : List Ty) (body : Body) (frames : Frames) :
    Except CompileError String := do
  if parameters.length = types.length then
    let inner ← declareParameters parameters types (⟨[], true⟩ :: frames)
    let (statements, _) ← body inner
    .ok ("(" ++ String.intercalate "," parameters ++ ") => \x7b\n" ++ statements ++ "\x7d")
  else .error (.malformedLiteral "fn" (.parameterCount parameters.length types.length))

def entries (fields : List (String × Expression)) (frames : Frames) :
    List (String × Ty) → Except CompileError String
  | [] => .ok ""
  | (name, expected) :: rest => do
    match fields.lookup name with
    | none => .error (.malformedLiteral "obj" (.missingField name))
    | some field =>
      let value ← field frames
      expectType expected value.type (.field name)
      let others ← entries fields frames rest
      .ok (Text.quote name ++ ": " ++ value.text ++ "," ++ others)

def object (fields : List (String × Expression)) (declared : List (String × Ty))
    (frames : Frames) : Except CompileError String := do
  match fields.find? fun field => (declared.lookup field.1).isNone with
  | some field => .error (.malformedLiteral "obj" (.undeclaredField field.1))
  | none =>
    let text ← entries fields frames declared
    .ok ("\x7b" ++ text ++ "\x7d")

def payload (tag : Tag) (type : Ty) (value : Option Payload) (parameters : List String)
    (body : Body) (fields : List (String × Expression)) (frames : Frames) :
    Except CompileError String :=
  match tag, value with
  | .prim .int, some (.int n) => .ok (Text.signedDecimal n.toInt)
  | .prim .float, some (.float x) => .ok (Emit.numberStyle.write x)
  | .prim .float, some (.int n) => .ok (Emit.wholeDouble n)
  | .prim .bool, some (.bool b) => .ok (if b then "true" else "false")
  | .prim .str, some (.str text) => .ok (Text.quote text)
  | .prim .null, none => .ok "null"
  | .prim .type, some (.node node) => do
    let described ← node.lower
    described.constructor
  | .fn, none =>
    match type with
    | .fn types _ => function parameters types body frames
    | type => .error (.malformedLiteral type.tag .foreignPayload)
  | .obj, some (.fields _) =>
    match type with
    | .obj declared => object fields declared frames
    | type => .error (.malformedLiteral type.tag .foreignPayload)
  | tag, some value => .error (.malformedLiteral tag.name (.unexpectedPayload value))
  | tag, none => .error (.malformedLiteral tag.name .missingPayload)

def literal (descriptor : Node) (value : Option Payload) (parameters : List String) (body : Body)
    (fields : List (String × Expression)) : Expression := fun frames => do
  let tag ← descriptor.descriptorTag
  let type ← descriptor.lower
  let text ← payload tag type value parameters body fields frames
  let constructor ← type.constructor
  .ok ⟨Host.value text constructor, type⟩

/-- A statement that has a text, in its frames: the text and the frames behind it. -/
abbrev Statement := Frames → Except CompileError (String × Frames)

/-- A statement that declares nothing. -/
def keepFrames (emit : Frames → Except CompileError String) : Statement := fun frames => do
  let text ← emit frames
  .ok (text, frames)

def bind (name : String) (value : Expression) : Statement := fun frames => do
  if Host.isBindable name then
    let value ← value frames
    let after ← frames.declare name value.type
    .ok ("let " ++ name ++ " = " ++ value.text, after)
  else .error (.invalidName name)

def assign (target : Node) (value : Expression) (frames : Frames) :
    Except CompileError String := do
  match target with
  | .ident name =>
    let declared ← resolve name frames
    let value ← value frames
    expectType declared value.type (.assignment name)
    .ok (name ++ " = " ++ value.text)
  | target => .error (.unsupportedTarget target.kind)

def ret (value : Option Expression) (frames : Frames) : Except CompileError (Option String) := do
  if frames.inFunction then
    match value with
    | some value =>
      let value ← value frames
      .ok (some ("return " ++ value.text))
    | none => .ok (some "return")
  else .ok none

def condition (value : Expression) (site : Site) (frames : Frames) :
    Except CompileError String := do
  let value ← value frames
  expectType .bool value.type site
  .ok value.text

def block (body : Body) (frames : Frames) : Except CompileError String := do
  let (statements, _) ← body (⟨[], false⟩ :: frames)
  .ok ("\x7b\n" ++ statements ++ "\x7d")

def branch (test : Expression) (body : Body) (otherwise : Option Body) (frames : Frames) :
    Except CompileError String := do
  let test ← condition test .ifCondition frames
  let body ← block body frames
  let text := "if (" ++ test ++ ".value) " ++ body
  match otherwise with
  | none => .ok text
  | some otherwise =>
    let otherwise ← block otherwise frames
    .ok (text ++ " else " ++ otherwise)

def loop (test : Expression) (body : Body) (frames : Frames) : Except CompileError String := do
  let test ← condition test .whileCondition frames
  let body ← block body frames
  .ok ("while (" ++ test ++ ".value) " ++ body)

def statements : List (Frames → Except CompileError (Option String × Frames)) → Body
  | [], frames => .ok ("", frames)
  | statement :: rest, frames => do
    let (first, frames) ← statement frames
    let (others, frames) ← statements rest frames
    .ok (Emit.terminated first ++ others, frames)

end Lexical

namespace LexicalRendering

def unhandled (kind : String) : LexicalRendering where
  expression _ := .error (.unhandledKind kind)
  statement _ := .error (.unhandledKind kind)

def ofStatement (kind : String) (emit : Lexical.Statement) : LexicalRendering where
  expression _ := .error (.unhandledKind kind)
  statement frames := do
    let (text, frames) ← emit frames
    .ok (some text, frames)

def ofExpression (emit : Lexical.Expression) : LexicalRendering where
  expression := emit
  statement frames := do
    let value ← emit frames
    .ok (some value.text, frames)

def ofReturn (value : Option LexicalRendering) : LexicalRendering where
  expression _ := .error (.unhandledKind "return")
  statement frames := do
    let text ← Lexical.ret (value.map expression) frames
    .ok (text, frames)

def body (nodes : List LexicalRendering) : Lexical.Body :=
  Lexical.statements (nodes.map statement)

def entries (fields : List (String × LexicalRendering)) : List (String × Lexical.Expression) :=
  fields.map fun field => (field.1, field.2.expression)

end LexicalRendering

mutual

/-- What a node gives in plain environments. -/
def Node.lexical : Node → LexicalRendering
  | .bind name value => .ofStatement "let" (Lexical.bind name value.lexical.expression)
  | .assign target value =>
    .ofStatement "assign" (Lexical.keepFrames (Lexical.assign target value.lexical.expression))
  | .ret none => .ofReturn none
  | .ret (some value) => .ofReturn (some value.lexical)
  | .branch test body none =>
    .ofStatement "if" (Lexical.keepFrames
      (Lexical.branch test.lexical.expression (LexicalRendering.body (lexicals body)) none))
  | .branch test body (some otherwise) =>
    .ofStatement "if" (Lexical.keepFrames
      (Lexical.branch test.lexical.expression (LexicalRendering.body (lexicals body))
        (some (LexicalRendering.body (lexicals otherwise)))))
  | .loop test body =>
    .ofStatement "while" (Lexical.keepFrames
      (Lexical.loop test.lexical.expression (LexicalRendering.body (lexicals body))))
  | .ident name => .ofExpression (Lexical.identifier name)
  | .literal type none parameters body =>
    .ofExpression
      (Lexical.literal type none parameters (LexicalRendering.body (lexicals body)) [])
  | .literal type (some payload) parameters body =>
    .ofExpression
      (Lexical.literal type (some payload) parameters (LexicalRendering.body (lexicals body))
        (LexicalRendering.entries payload.lexicals))
  | .new target => .ofExpression fun _ => Lexical.newValue target
  | .binary op left right =>
    .ofExpression (Lexical.binary op left.lexical.expression right.lexical.expression)
  | .unary op operand => .ofExpression (Lexical.unary op operand.lexical.expression)
  | .call callee arguments =>
    .ofExpression
      (Lexical.call callee.lexical.expression
        ((lexicals arguments).map LexicalRendering.expression))
  | .member .. => .unhandled "objAccess"
  | .element .. => .unhandled "access"
  | .type .. => .unhandled "type"
  | .unknown kind => .unhandled kind

/-- What the nodes of a list give. -/
def lexicals : List Node → List LexicalRendering
  | [] => []
  | node :: rest => node.lexical :: lexicals rest

/-- What the nodes of a table give. -/
def fieldLexicals : List (String × Node) → List (String × LexicalRendering)
  | [] => []
  | (name, node) :: rest => (name, node.lexical) :: fieldLexicals rest

/-- What the fields of an object literal give. -/
def Payload.lexicals : Payload → List (String × LexicalRendering)
  | .fields fields => fieldLexicals fields
  | _ => []

end

@[simp] theorem lexicals_eq_map (nodes : List Node) : lexicals nodes = nodes.map Node.lexical := by
  induction nodes with
  | nil => rfl
  | cons node rest ih => rw [lexicals, ih, List.map_cons]

@[simp] theorem fieldLexicals_eq_map (fields : List (String × Node)) :
    fieldLexicals fields = fields.map fun field => (field.1, field.2.lexical) := by
  induction fields with
  | nil => rfl
  | cons field rest ih =>
    obtain ⟨name, node⟩ := field
    rw [fieldLexicals, ih, List.map_cons]

theorem Node.lexical_ret (value : Option Node) :
    (Node.ret value).lexical = .ofReturn (value.map Node.lexical) := by
  cases value <;> rfl

theorem Node.lexical_branch (test : Node) (body : List Node) (otherwise : Option (List Node)) :
    (Node.branch test body otherwise).lexical =
      .ofStatement "if" (Lexical.keepFrames
        (Lexical.branch test.lexical.expression (LexicalRendering.body (lexicals body))
          (otherwise.map fun other => LexicalRendering.body (lexicals other)))) := by
  cases otherwise <;> rfl

theorem Node.lexical_literal (type : Node) (payload : Option Payload) (parameters : List String)
    (body : List Node) :
    (Node.literal type payload parameters body).lexical =
      .ofExpression (Lexical.literal type payload parameters (LexicalRendering.body (lexicals body))
        ((Payload.entries payload).map fun f => (f.1, f.2.lexical.expression))) := by
  cases payload with
  | none => rfl
  | some payload =>
    cases payload with
    | fields fields =>
      rw [Node.lexical, Payload.lexicals, fieldLexicals_eq_map, LexicalRendering.entries,
        List.map_map]
      rfl
    | _ => rfl

theorem Node.lexical_call (callee : Node) (arguments : List Node) :
    (Node.call callee arguments).lexical =
      .ofExpression (Lexical.call callee.lexical.expression
        (arguments.map fun n => n.lexical.expression)) := by
  rw [Node.lexical, lexicals_eq_map, List.map_map]
  rfl

/-- The stack a program starts in: one frame, without names, that belongs to no function. -/
def Frames.root : Frames := [⟨[], false⟩]

/-- Compiles a program in plain environments. -/
def Program.compileLexically (program : Program) : Except CompileError Artifact := do
  let (output, frames) ← LexicalRendering.body (lexicals program) .root
  .ok ⟨output, frames.symbols⟩

end Arbor
