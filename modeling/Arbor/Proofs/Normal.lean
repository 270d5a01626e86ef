import Arbor.Number.Binary64
import Arbor.Types.Descriptor

/-!
# Normal forms

A program without what emission leaves out on purpose. Types stand in the place of their
descriptors; a return outside of all functions is gone; the fields of an object literal stand in
the order in which its type declares them; only function literals have parameters and a body; and a
whole number in a literal of doubles is the double. Programs with one normal form are the same
program for a reader of the emitted text.
-/

namespace Arbor

mutual

/-- A statement or an expression of a program in normal form. -/
inductive Normal where
  | bind (name : String) (value : Normal)
  | assign (name : String) (value : Normal)
  | ret (value : Option Normal)
  | branch (condition : Normal) (body : List Normal) (otherwise : Option (List Normal))
  | loop (condition : Normal) (body : List Normal)
  | ident (name : String)
  | literal (type : Ty) (value : NormalValue)
  | new (type : Ty)
  | binary (op : BinaryOp) (left right : Normal)
  | unary (op : UnaryOp) (operand : Normal)
  | call (callee : Normal) (arguments : List Normal)

/-- The value of a literal in normal form. -/
inductive NormalValue where
  | int (value : Int64)
  | float (value : Binary64)
  | bool (value : Bool)
  | str (text : String)
  | null
  | type (described : Ty)
  | function (parameters : List String) (body : List Normal)
  | fields (fields : List (String × Normal))

end

/-- The double that a whole number stands for. -/
def wholeValue (n : Int64) : Binary64 :=
  (Binary64.ofInt n.toInt).getD (.zero false)

/-- The node is a return statement. -/
def Node.isReturn : Node → Bool
  | .ret _ => true
  | _ => false

/-- The entries of a table in the order in which a type declares them. -/
def inOrder (fields : List (String × Option Normal)) :
    List (String × Ty) → Option (List (String × Normal))
  | [] => some []
  | (name, _) :: rest => do
    let value ← (fields.lookup name).join
    let others ← inOrder fields rest
    some ((name, value) :: others)

mutual

/-- The normal form of a node, inside or outside of functions. -/
def Node.normal (inFunction : Bool) : Node → Option Normal
  | .bind name value => (value.normal inFunction).map (.bind name)
  | .assign (.ident name) value => (value.normal inFunction).map (.assign name)
  | .ret none => some (.ret none)
  | .ret (some value) => (value.normal inFunction).map fun value => .ret (some value)
  | .branch condition body none => do
    let condition ← condition.normal inFunction
    let body ← bodyNormal inFunction body
    some (.branch condition body none)
  | .branch condition body (some otherwise) => do
    let condition ← condition.normal inFunction
    let body ← bodyNormal inFunction body
    let otherwise ← bodyNormal inFunction otherwise
    some (.branch condition body (some otherwise))
  | .loop condition body => do
    let condition ← condition.normal inFunction
    let body ← bodyNormal inFunction body
    some (.loop condition body)
  | .ident name => some (.ident name)
  | .literal type none parameters body =>
    match type.lower with
    | .ok (.fn types returns) => do
      let body ← bodyNormal true body
      some (.literal (.fn types returns) (.function parameters body))
    | .ok type => some (.literal type .null)
    | .error _ => none
  | .literal type (some payload) _ _ =>
    match type.lower with
    | .ok type => (payload.normal inFunction type).map (.literal type)
    | .error _ => none
  | .new target => target.lower.toOption.map .new
  | .binary op left right => do
    let left ← left.normal inFunction
    let right ← right.normal inFunction
    some (.binary op left right)
  | .unary op operand => (operand.normal inFunction).map (.unary op)
  | .call callee arguments => do
    let callee ← callee.normal inFunction
    let arguments ← normals inFunction arguments
    some (.call callee arguments)
  | _ => none

/-- The normal form of the statements of a body. -/
def bodyNormal (inFunction : Bool) : List Node → Option (List Normal)
  | [] => some []
  | node :: rest =>
    if node.isReturn && !inFunction then bodyNormal inFunction rest
    else do
      let first ← node.normal inFunction
      let others ← bodyNormal inFunction rest
      some (first :: others)

/-- The normal forms of expressions, one by one. -/
def normals (inFunction : Bool) : List Node → Option (List Normal)
  | [] => some []
  | node :: rest => do
    let first ← node.normal inFunction
    let others ← normals inFunction rest
    some (first :: others)

/-- The normal forms of the entries of a table. -/
def fieldNormals (inFunction : Bool) : List (String × Node) → List (String × Option Normal)
  | [] => []
  | (name, node) :: rest => (name, node.normal inFunction) :: fieldNormals inFunction rest

/-- The normal form of a payload in a literal of a type. -/
def Payload.normal (inFunction : Bool) (type : Ty) : Payload → Option NormalValue
  | .bool b => some (.bool b)
  | .int n =>
    match type with
    | .prim .float => some (.float (wholeValue n))
    | _ => some (.int n)
  | .float x => some (.float x)
  | .str text => some (.str text)
  | .node node => node.lower.toOption.map .type
  | .fields fields =>
    match type with
    | .obj declared => (inOrder (fieldNormals inFunction fields) declared).map .fields
    | _ => none

end

theorem fieldNormals_eq_map (inFunction : Bool) (fields : List (String × Node)) :
    fieldNormals inFunction fields = fields.map fun field => (field.1, field.2.normal inFunction) := by
  induction fields with
  | nil => rw [fieldNormals, List.map_nil]
  | cons field rest ih =>
    obtain ⟨name, node⟩ := field
    rw [fieldNormals, ih, List.map_cons]

/-- The normal form of a program. -/
def Program.normal (program : Program) : Option (List Normal) :=
  bodyNormal false program

end Arbor
