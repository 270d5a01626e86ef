import Arbor.Number.Style
import Arbor.Text.Inspected
import Arbor.Tree.Node

/-!
# Inspected trees

A node on one line, with every part spelled out, as it appears in descriptions.
-/

namespace Arbor

/-- Inspected doubles have a point or a power of ten; digits stand in place between `1e-4` and
`1e16`. -/
def inspectedNumber : NumberStyle where
  tie := .up
  inPlace power := -4 ≤ power && power < 16
  pointZero := true
  plus := false

namespace Inspect

/-- A title with parts in parentheses. -/
def wrapped (title inner : String) : String :=
  title ++ "(" ++ inner ++ ")"

/-- Named parts between braces. -/
def record (title : String) (parts : List (String × String)) : String :=
  title ++ " \x7b " ++ String.intercalate ", " (parts.map fun p => p.1 ++ ": " ++ p.2) ++ " \x7d"

/-- A node whose kind and record have one title. -/
def node (title : String) (parts : List (String × String)) : String :=
  wrapped title (record title parts)

/-- Parts between square brackets. -/
def list (parts : List String) : String :=
  "[" ++ String.intercalate ", " parts ++ "]"

/-- Entries of a table between braces. -/
def table (entries : List String) : String :=
  "\x7b" ++ String.intercalate ", " entries ++ "\x7d"

/-- A part that may be missing. -/
def option : Option String → String
  | none => "None"
  | some inner => wrapped "Some" inner

/-- The title of a primitive type. -/
def primitive : Primitive → String
  | .int => "Int"
  | .float => "Float"
  | .bool => "Bool"
  | .str => "Str"
  | .null => "Null"
  | .type => "Type"

/-- The tag of a type descriptor. -/
def tag : Tag → String
  | .prim p => primitive p
  | .fn => "Fn"
  | .obj => "Obj"
  | .list => "List"
  | .unknown name => wrapped "Unknown" (Text.inspect name)

/-- The title of an operator between two operands. -/
def binaryOp : BinaryOp → String
  | .add => "Add"
  | .sub => "Sub"
  | .mul => "Mul"
  | .div => "Div"
  | .rem => "Rem"
  | .eq => "Eq"
  | .ne => "Ne"
  | .lt => "Lt"
  | .le => "Le"
  | .gt => "Gt"
  | .ge => "Ge"
  | .and => "And"
  | .or => "Or"

/-- The title of an operator before one operand. -/
def unaryOp : UnaryOp → String
  | .neg => "Neg"
  | .not => "Not"

/-- A parameter of a function literal. -/
def parameter (name : String) : String :=
  record "Parameter" [("name", Text.inspect name)]

end Inspect

mutual

/-- The node on one line. -/
def Node.inspect : Node → String
  | .bind name value =>
    Inspect.node "Let" [("identifier", Text.inspect name), ("value", value.inspect)]
  | .assign target value =>
    Inspect.node "Assign" [("left", target.inspect), ("right", value.inspect)]
  | .ret none => Inspect.node "Return" [("value", Inspect.option none)]
  | .ret (some value) => Inspect.node "Return" [("value", Inspect.option (some value.inspect))]
  | .branch condition body none =>
    Inspect.node "If" [("condition", condition.inspect),
      ("body", Inspect.list (inspectNodes body)), ("alternate", Inspect.option none)]
  | .branch condition body (some otherwise) =>
    Inspect.node "If" [("condition", condition.inspect),
      ("body", Inspect.list (inspectNodes body)),
      ("alternate", Inspect.option (some (Inspect.list (inspectNodes otherwise))))]
  | .loop condition body =>
    Inspect.node "While" [("condition", condition.inspect),
      ("body", Inspect.list (inspectNodes body))]
  | .ident name => Inspect.node "Identifier" [("name", Text.inspect name)]
  | .literal type payload parameters body =>
    Inspect.node "Literal" [("ty", type.inspect),
      ("value", Inspect.option (match payload with
        | none => none
        | some payload => some payload.inspect)),
      ("parameters", Inspect.list (parameters.map Inspect.parameter)),
      ("body", Inspect.list (inspectNodes body))]
  | .new target => Inspect.node "New" [("target", target.inspect)]
  | .binary op left right =>
    Inspect.node "Binary" [("operator", Inspect.binaryOp op), ("left", left.inspect),
      ("right", right.inspect)]
  | .unary op operand =>
    Inspect.node "Unary" [("operator", Inspect.unaryOp op), ("operand", operand.inspect)]
  | .call callee arguments =>
    Inspect.node "Call" [("callee", callee.inspect),
      ("arguments", Inspect.list (inspectNodes arguments))]
  | .member object property =>
    Inspect.node "ObjAccess" [("object", object.inspect), ("property", Text.inspect property)]
  | .element object index =>
    Inspect.node "Access" [("object", object.inspect), ("index", index.inspect)]
  | .type tag name parameters returns fields =>
    Inspect.wrapped "Type" (Inspect.record "TypeDescriptor" [("tag", Inspect.tag tag),
      ("name", Inspect.option (name.map Text.inspect)),
      ("parameters", Inspect.list (inspectNodes parameters)),
      ("returns", Inspect.option (match returns with
        | none => none
        | some returns => some returns.inspect)),
      ("structure", Inspect.table (inspectFields fields))])
  | .unknown kind =>
    Inspect.wrapped "Unknown" (Inspect.record "UnknownNode" [("kind", Text.inspect kind)])

/-- The nodes of a list, one by one. -/
def inspectNodes : List Node → List String
  | [] => []
  | node :: rest => node.inspect :: inspectNodes rest

/-- The entries of a table of nodes, one by one. -/
def inspectFields : List (String × Node) → List String
  | [] => []
  | (name, node) :: rest => (Text.inspect name ++ ": " ++ node.inspect) :: inspectFields rest

/-- The payload on one line. -/
def Payload.inspect : Payload → String
  | .bool true => "Bool(true)"
  | .bool false => "Bool(false)"
  | .int n => Inspect.wrapped "Int" (Text.signedDecimal n.toInt)
  | .float x => Inspect.wrapped "Float" (inspectedNumber.write x)
  | .str text => Inspect.wrapped "Str" (Text.inspect text)
  | .node node => Inspect.wrapped "Node" node.inspect
  | .fields fields => Inspect.wrapped "Fields" (Inspect.table (inspectFields fields))

end

end Arbor
