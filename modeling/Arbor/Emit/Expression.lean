import Arbor.Emit.Monad
import Arbor.Host
import Arbor.Types.Constructor
import Arbor.Types.Descriptor

/-!
# Expressions

How each kind of expression is emitted, given how its parts are. Parts are emitted from left to
right, and every check on a part comes right after it.
-/

namespace Arbor.Emit

/-- Doubles in emitted text: all digits stand in place, and whole numbers have no point. -/
def numberStyle : NumberStyle where
  tie := .up
  inPlace _ := true
  pointZero := false
  plus := false

/-- A name stands for itself. -/
def identifier (name : String) (scope : Nat) : Emit Emitted := do
  let type ← resolve scope name
  return ⟨name, type⟩

/-- A default value of the type that `target` describes. -/
def newValue (target : Node) : Emit Emitted := do
  let type ← ofExcept target.lower
  tell (.loweredNew type)
  let constructor ← ofExcept type.constructor
  return ⟨constructor ++ ".makeNew()", type⟩

/-- The operator is defined on operands of the type. -/
def accepts (op : BinaryOp) (type : Ty) : Bool :=
  match op with
  | .add => type.isNumeric || type.primitive? == some .str
  | .sub | .mul | .div | .rem => type.isNumeric
  | .eq | .ne => true
  | .lt | .le | .gt | .ge => type.isNumeric
  | .and | .or => type.primitive? == some .bool

/-- The type of the operator's result on operands of the type. -/
def resultType (op : BinaryOp) (type : Ty) : Ty :=
  match op with
  | .add | .sub | .mul | .div | .rem => type
  | _ => .bool

/-- The host's computation on the payloads of two operands. -/
def operation (op : BinaryOp) (type : Ty) (left right : String) : String :=
  let between (symbol : String) : String :=
    left ++ ".value " ++ symbol ++ " " ++ right ++ ".value"
  match op with
  | .div =>
    if type.primitive? == some .int then "Math.trunc(" ++ between "/" ++ ")" else between "/"
  | .eq => between "==="
  | .ne => between "!=="
  | op => between op.symbol

/-- An operator between two operands of one type. -/
def binary (op : BinaryOp) (left right : Nat → Emit Emitted) (scope : Nat) : Emit Emitted := do
  let left ← left scope
  let right ← right scope
  expectType left.type right.type (.operands op)
  if accepts op left.type then
    let type := resultType op left.type
    let constructor ← ofExcept type.constructor
    return ⟨Host.value (operation op left.type left.text right.text) constructor, type⟩
  else throw (.invalidOperand op.symbol left.type)

/-- An operator before one operand. -/
def unary (op : UnaryOp) (operand : Nat → Emit Emitted) (scope : Nat) : Emit Emitted := do
  let operand ← operand scope
  let accepted := match op with
    | .neg => operand.type.isNumeric
    | .not => operand.type.equiv .bool
  if accepted then
    let constructor ← ofExcept operand.type.constructor
    return ⟨Host.value (op.symbol ++ "(" ++ operand.text ++ ".value)") constructor, operand.type⟩
  else throw (.invalidOperand op.symbol operand.type)

/-- The arguments of a call from a position on, each held against its parameter. -/
def arguments (scope : Nat) : Nat → List (Nat → Emit Emitted) → List Ty → Emit (List String)
  | position, argument :: rest, expected :: others => do
    let argument ← argument scope
    expectType expected argument.type (.argument position)
    let texts ← arguments scope (position + 1) rest others
    return argument.text :: texts
  | _, _, _ => return []

/-- A call has as many arguments as its function has parameters. -/
def call (callee : Nat → Emit Emitted) (args : List (Nat → Emit Emitted)) (scope : Nat) :
    Emit Emitted := do
  let callee ← callee scope
  match callee.type with
  | .fn parameters returns =>
    if parameters.length = args.length then
      let texts ← arguments scope 1 args parameters
      return ⟨callee.text ++ ".value(" ++ String.intercalate ", " texts ++ ")", returns⟩
    else throw (.arityMismatch parameters.length args.length)
  | type => throw (.notCallable type)

/-- Declares the parameters of a function, in order. -/
def declareParameters (scope : Nat) : List String → List Ty → Emit Unit
  | name :: names, type :: types => do
    if Host.isBindable name then
      declare scope name type
      declareParameters scope names types
    else throw (.invalidName name)
  | _, _ => return ()

/-- A function, whose body has a scope of its own with the parameters in it. -/
def function (parameters : List String) (types : List Ty) (body : Nat → Emit String)
    (scope : Nat) : Emit String := do
  if parameters.length = types.length then
    let inner ← openScope scope .function
    declareParameters inner parameters types
    let statements ← body inner
    return "(" ++ String.intercalate "," parameters ++ ") => \x7b\n" ++ statements ++ "\x7d"
  else throw (.malformedLiteral "fn" (.parameterCount parameters.length types.length))

/-- The entries of an object, in the order in which its type declares the fields. -/
def entries (fields : List (String × (Nat → Emit Emitted))) (scope : Nat) :
    List (String × Ty) → Emit String
  | [] => return ""
  | (name, expected) :: rest => do
    match fields.lookup name with
    | none => throw (.malformedLiteral "obj" (.missingField name))
    | some field =>
      let value ← field scope
      expectType expected value.type (.field name)
      let others ← entries fields scope rest
      return Text.quote name ++ ": " ++ value.text ++ "," ++ others

/-- An object has a value for every field its type declares, and no other. -/
def object (fields : List (String × (Nat → Emit Emitted))) (declared : List (String × Ty))
    (scope : Nat) : Emit String := do
  match fields.find? fun field => (declared.lookup field.1).isNone with
  | some field => throw (.malformedLiteral "obj" (.undeclaredField field.1))
  | none =>
    let text ← entries fields scope declared
    return "\x7b" ++ text ++ "\x7d"

/-- A whole number as the payload of a double. -/
def wholeDouble (n : Int64) : String :=
  numberStyle.write ((Binary64.ofInt n.toInt).getD (.zero false))

/-- The payload of a literal with tag `tag` and type `type`. -/
def payload (tag : Tag) (type : Ty) (value : Option Payload)
    (parameters : List String) (body : Nat → Emit String)
    (fields : List (String × (Nat → Emit Emitted))) (scope : Nat) : Emit String :=
  match tag, value with
  | .prim .int, some (.int n) => return Text.signedDecimal n.toInt
  | .prim .float, some (.float x) => return numberStyle.write x
  | .prim .float, some (.int n) => return wholeDouble n
  | .prim .bool, some (.bool b) => return if b then "true" else "false"
  | .prim .str, some (.str text) => return Text.quote text
  | .prim .null, none => return "null"
  | .prim .type, some (.node node) => do
    let described ← ofExcept node.lower
    ofExcept described.constructor
  | .fn, none =>
    match type with
    | .fn types _ => function parameters types body scope
    | type => throw (.malformedLiteral type.tag .foreignPayload)
  | .obj, some (.fields _) =>
    match type with
    | .obj declared => object fields declared scope
    | type => throw (.malformedLiteral type.tag .foreignPayload)
  | tag, some value => throw (.malformedLiteral tag.name (.unexpectedPayload value))
  | tag, none => throw (.malformedLiteral tag.name .missingPayload)

/-- A literal of the type that `descriptor` describes. -/
def literal (descriptor : Node) (value : Option Payload)
    (parameters : List String) (body : Nat → Emit String)
    (fields : List (String × (Nat → Emit Emitted))) (scope : Nat) : Emit Emitted := do
  let tag ← ofExcept descriptor.descriptorTag
  let type ← ofExcept descriptor.lower
  let text ← payload tag type value parameters body fields scope
  let constructor ← ofExcept type.constructor
  return ⟨Host.value text constructor, type⟩

end Arbor.Emit
