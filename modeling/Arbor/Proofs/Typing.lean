import Arbor.Proofs.NodeInduction
import Arbor.Proofs.ScopeGrowth
import Arbor.Proofs.Tables

/-!
# The typing rules

The rules of the language as relations over a stack of frames, the innermost first, without a text,
an order of checks or an error in them. An expression has a type, and a statement leads from the
frames before it to the frames behind it. What is compared, is compared by structural equality;
types of descriptors are those they lower to.
-/

namespace Arbor

/-- `name` has `type` in the nearest frame that declares it. -/
inductive Frames.Nearest (name : String) (type : Ty) : Frames → Prop where
  | here {frame : Frame} {outer : Frames} :
      frame.symbols.lookup name = some type → Nearest name type (frame :: outer)
  | outward {frame : Frame} {outer : Frames} :
      name ∉ Fields.names frame.symbols → Nearest name type outer →
        Nearest name type (frame :: outer)

/-- The operator takes two operands of a type and gives a result of another. -/
inductive BinaryOp.Takes : BinaryOp → Ty → Ty → Prop where
  | arithmetic {op : BinaryOp} {p : Primitive} :
      op ∈ [add, sub, mul, div, rem] → p ∈ [Primitive.int, .float] → Takes op (.prim p) (.prim p)
  | concatenation : Takes add (.prim .str) (.prim .str)
  | equality {op : BinaryOp} {type : Ty} : op ∈ [eq, ne] → Takes op type .bool
  | comparison {op : BinaryOp} {p : Primitive} :
      op ∈ [lt, le, gt, ge] → p ∈ [Primitive.int, .float] → Takes op (.prim p) .bool
  | logic {op : BinaryOp} : op ∈ [and, or] → Takes op .bool .bool

/-- The operator takes an operand of a type, and gives a result of the same. -/
inductive UnaryOp.Takes : UnaryOp → Ty → Prop where
  | negation {p : Primitive} : p ∈ [Primitive.int, .float] → Takes neg (.prim p)
  | complement : Takes not .bool

/-- The payload of a literal fits its primitive type. -/
inductive Payload.Fits : Primitive → Option Payload → Prop where
  | int (n : Int64) : Fits .int (some (.int n))
  | float (x : Binary64) : Fits .float (some (.float x))
  | wholeFloat (n : Int64) : Fits .float (some (.int n))
  | bool (b : Bool) : Fits .bool (some (.bool b))
  | str (text : String) : Fits .str (some (.str text))
  | null : Fits .null none
  | type {node : Node} {described : Ty} : node.lower = .ok described →
      Fits .type (some (.node node))

mutual

/-- The expression has the type in these frames. -/
inductive Node.HasType : Frames → Node → Ty → Prop where
  | ident {frames : Frames} {name : String} {type : Ty} :
      frames.Nearest name type → Node.HasType frames (.ident name) type
  | new {frames : Frames} {target : Node} {type : Ty} :
      target.lower = .ok type → Node.HasType frames (.new target) type
  | scalar {frames : Frames} {descriptor : Node} {p : Primitive} {payload : Option Payload}
      {parameters : List String} {body : List Node} :
      descriptor.lower = .ok (.prim p) → Payload.Fits p payload →
        Node.HasType frames (.literal descriptor payload parameters body) (.prim p)
  /-- The body is well formed in a new frame that holds the parameters. -/
  | function {frames after : Frames} {descriptor : Node} {types : List Ty} {returns : Ty}
      {parameters : List String} {body : List Node} :
      descriptor.lower = .ok (.fn types returns) → parameters.length = types.length →
        (∀ name ∈ parameters, Host.isBindable name) → parameters.Nodup →
        BodyWellFormed (⟨parameters.zip types, true⟩ :: frames) body after →
        Node.HasType frames (.literal descriptor none parameters body) (.fn types returns)
  /-- The literal gives a value to every declared field and to no other. -/
  | object {frames : Frames} {descriptor : Node} {declared : List (String × Ty)}
      {fields : List (String × Node)} {parameters : List String} {body : List Node} :
      descriptor.lower = .ok (.obj declared) →
        (∀ name ∈ Fields.names fields, name ∈ Fields.names declared) →
        FieldsHaveTypes frames fields declared →
        Node.HasType frames (.literal descriptor (some (.fields fields)) parameters body) (.obj declared)
  | binary {frames : Frames} {op : BinaryOp} {left right : Node} {type other result : Ty} :
      Node.HasType frames left type → Node.HasType frames right other → type.equiv other →
        op.Takes type result → Node.HasType frames (.binary op left right) result
  | unary {frames : Frames} {op : UnaryOp} {operand : Node} {type : Ty} :
      Node.HasType frames operand type → op.Takes type → Node.HasType frames (.unary op operand) type
  | call {frames : Frames} {callee : Node} {arguments : List Node} {types : List Ty}
      {returns : Ty} :
      Node.HasType frames callee (.fn types returns) → ArgumentsHaveTypes frames arguments types →
        Node.HasType frames (.call callee arguments) returns

/-- The arguments have the types of the parameters, one by one. -/
inductive ArgumentsHaveTypes : Frames → List Node → List Ty → Prop where
  | nil {frames : Frames} : ArgumentsHaveTypes frames [] []
  | cons {frames : Frames} {argument : Node} {rest : List Node} {expected found : Ty}
      {others : List Ty} :
      Node.HasType frames argument found → expected.equiv found →
        ArgumentsHaveTypes frames rest others →
        ArgumentsHaveTypes frames (argument :: rest) (expected :: others)

/-- Every declared field is given a value of its type. -/
inductive FieldsHaveTypes : Frames → List (String × Node) → List (String × Ty) → Prop where
  | nil {frames : Frames} {fields : List (String × Node)} : FieldsHaveTypes frames fields []
  | cons {frames : Frames} {fields : List (String × Node)} {name : String} {value : Node}
      {expected found : Ty} {rest : List (String × Ty)} :
      fields.lookup name = some value → Node.HasType frames value found → expected.equiv found →
        FieldsHaveTypes frames fields rest →
        FieldsHaveTypes frames fields ((name, expected) :: rest)

/-- The statement is well formed in the frames before it, and leads to those behind it. -/
inductive Node.WellFormed : Frames → Node → Frames → Prop where
  | bind {frames : Frames} {name : String} {value : Node} {type : Ty} :
      Host.isBindable name → Node.HasType frames value type →
        name ∉ Fields.names frames.symbols →
        Node.WellFormed frames (.bind name value) (frames.extend [(name, type)])
  | assign {frames : Frames} {name : String} {value : Node} {declared found : Ty} :
      frames.Nearest name declared → Node.HasType frames value found → declared.equiv found →
        Node.WellFormed frames (.assign (.ident name) value) frames
  /-- Outside of all functions nothing is asked of a return. -/
  | dropped {frames : Frames} {value : Option Node} :
      (∀ frame ∈ frames, ¬frame.isFunction) → Node.WellFormed frames (.ret value) frames
  | leave {frames : Frames} {frame : Frame} :
      frame ∈ frames → frame.isFunction → Node.WellFormed frames (.ret none) frames
  | ret {frames : Frames} {frame : Frame} {value : Node} {type : Ty} :
      frame ∈ frames → frame.isFunction → Node.HasType frames value type →
        Node.WellFormed frames (.ret (some value)) frames
  | branch {frames after : Frames} {condition : Node} {body : List Node} :
      Node.HasType frames condition .bool → BodyWellFormed (⟨[], false⟩ :: frames) body after →
        Node.WellFormed frames (.branch condition body none) frames
  | alternatives {frames after after' : Frames} {condition : Node} {body otherwise : List Node} :
      Node.HasType frames condition .bool → BodyWellFormed (⟨[], false⟩ :: frames) body after →
        BodyWellFormed (⟨[], false⟩ :: frames) otherwise after' →
        Node.WellFormed frames (.branch condition body (some otherwise)) frames
  | loop {frames after : Frames} {condition : Node} {body : List Node} :
      Node.HasType frames condition .bool → BodyWellFormed (⟨[], false⟩ :: frames) body after →
        Node.WellFormed frames (.loop condition body) frames
  | expression {frames : Frames} {node : Node} {type : Ty} :
      Node.HasType frames node type → Node.WellFormed frames node frames

/-- The statements are well formed one behind the other. -/
inductive BodyWellFormed : Frames → List Node → Frames → Prop where
  | nil {frames : Frames} : BodyWellFormed frames [] frames
  | cons {frames middle after : Frames} {node : Node} {rest : List Node} :
      Node.WellFormed frames node middle → BodyWellFormed middle rest after →
        BodyWellFormed frames (node :: rest) after

end

end Arbor
