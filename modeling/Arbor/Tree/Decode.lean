import Arbor.Tree.Node
import Arbor.Tree.Record

/-!
# From JSON to nodes

A node is an object with a `kind` and the fields of that kind, or an array of the kind and the
fields in order. An object of a kind that is not known is a node too.

The value of a literal may be taken in several ways, so every JSON value is read in all the
ways a node can use it, from the inside out: `Json.reading` collects them in a `Reading`, and
the shape of a node only looks at the readings of its parts.
-/

namespace Arbor

/-- A JSON value in the ways a node can use it. -/
structure Reading where
  source : Json
  /-- The value as a node. -/
  node : Except ShapeError Node
  /-- The value as a list of nodes. -/
  nodes : Except ShapeError (List Node)
  /-- The value as a table of nodes. -/
  fields : Except ShapeError (List (String × Node))

namespace Json

/-- The value as a text. -/
def asText : Json → Except ShapeError String
  | .str text => .ok text
  | value => .error (.invalidType value.found .text)

/-- A parameter is an object with a name or an array of just the name. -/
def parameterRecord : Record Json String :=
  .required "name" asText

/-- The value as a parameter. -/
def asParameter : Json → Except ShapeError String
  | .obj members => parameterRecord.readObject members
  | .arr items => parameterRecord.readArray "Parameter" items
  | value => .error (.invalidType value.found .parameter)

/-- The value as a list of parameters. -/
def asParameters : Json → Except ShapeError (List String)
  | .arr items => items.mapM asParameter
  | value => .error (.invalidType value.found .list)

/-- The value as one of the operators `all`: its symbol, or an object whose only key is the
symbol and which holds nothing. -/
def asOperator {ω : Type} (all : List ω) (symbol : ω → String) (value : Json) :
    Except ShapeError ω :=
  let named (name : String) : Except ShapeError ω :=
    match all.find? fun op => symbol op == name with
    | some op => .ok op
    | none => .error (.unknownName name (all.map symbol))
  match value with
  | .str name => named name
  | .obj [(name, held)] => do
    let op ← named name
    match held with
    | .null => .ok op
    | .obj [] => .ok op
    | held => .error (.invalidType held.found .nothing)
  | .obj _ => .error .notOneKey
  | value => .error (.invalidType value.found .operator)

/-- The value as the tag of a type: any text, or an object whose only key is a known tag and
which holds null. -/
def asTag : Json → Except ShapeError Tag
  | .str name => .ok (.ofName name)
  | .obj [(name, .null)] =>
    match Tag.known? name with
    | some tag => .ok tag
    | none => .error .noTag
  | _ => .error .noTag

end Json

namespace Reading

/-- The value as a text. -/
def text (r : Reading) : Except ShapeError String :=
  r.source.asText

/-- The value read by `read`, or nothing for null. -/
def orNull {α : Type} (read : Reading → Except ShapeError α) (r : Reading) :
    Except ShapeError (Option α) :=
  match r.source with
  | .null => .ok none
  | _ => (read r).map some

/-- A number as a payload: an integer where 64 bits with a sign hold it. -/
def intPayload (n : WideInt) : Payload :=
  if n.val < 0x8000000000000000 then .int (.ofInt n.val)
  else .float ((Binary64.ofInt n.val).getD (.zero false))

/-- The value as the payload of a literal. An object is a node if it can be one, and a table of
nodes otherwise. -/
def payload (r : Reading) : Except ShapeError Payload :=
  match r.source with
  | .bool b => .ok (.bool b)
  | .int n => .ok (intPayload n)
  | .float x => .ok (.float x)
  | .str text => .ok (.str text)
  | _ =>
    match r.node, r.fields with
    | .ok node, _ => .ok (.node node)
    | .error _, .ok fields => .ok (.fields fields)
    | .error _, .error _ => .error .noPayload

end Reading

/-- The shape of the nodes of one kind. -/
structure NodeShape where
  kind : String
  title : String
  record : Record Reading Node

namespace NodeShape

open Record (required field)

/-- A field that may be left out or null. -/
def nullable {α : Type} (name : String) (read : Reading → Except ShapeError α) :
    Record Reading (Option α) :=
  field name (Reading.orNull read) (some none)

/-- A list of nodes that may be left out. -/
def nodeList (name : String) : Record Reading (List Node) :=
  field name Reading.nodes (some [])

/-- The shapes of the nodes of the language. -/
def all : List NodeShape :=
  [⟨"let", "Let", Node.bind <$> required "identifier" Reading.text <*> required "value" Reading.node⟩,
   ⟨"assign", "Assign",
      Node.assign <$> required "left" Reading.node <*> required "right" Reading.node⟩,
   ⟨"return", "Return", Node.ret <$> nullable "value" Reading.node⟩,
   ⟨"if", "If",
      Node.branch <$> required "condition" Reading.node <*> nodeList "body"
        <*> nullable "else" Reading.nodes⟩,
   ⟨"while", "While", Node.loop <$> required "condition" Reading.node <*> nodeList "body"⟩,
   ⟨"identifier", "Identifier", Node.ident <$> required "name" Reading.text⟩,
   ⟨"literal", "Literal",
      Node.literal <$> required "type" Reading.node <*> nullable "value" Reading.payload
        <*> field "parameters" (fun r => r.source.asParameters) (some []) <*> nodeList "body"⟩,
   ⟨"new", "New", Node.new <$> required "target" Reading.node⟩,
   ⟨"binary", "Binary",
      Node.binary <$> required "operator" (fun r => r.source.asOperator BinaryOp.all BinaryOp.symbol)
        <*> required "left" Reading.node <*> required "right" Reading.node⟩,
   ⟨"unary", "Unary",
      Node.unary <$> required "operator" (fun r => r.source.asOperator UnaryOp.all UnaryOp.symbol)
        <*> required "operand" Reading.node⟩,
   ⟨"call", "Call", Node.call <$> required "callee" Reading.node <*> nodeList "arguments"⟩,
   ⟨"objAccess", "ObjAccess",
      Node.member <$> required "object" Reading.node <*> required "property" Reading.text⟩,
   ⟨"access", "Access",
      Node.element <$> required "object" Reading.node <*> required "index" Reading.node⟩,
   ⟨"type", "TypeDescriptor",
      Node.type <$> required "type" (fun r => r.source.asTag) <*> nullable "name" Reading.text
        <*> nodeList "parameters" <*> nullable "returns" Reading.node
        <*> field "structure" Reading.fields (some [])⟩]

/-- The names of the kinds of the language. -/
def kinds : List String :=
  all.map NodeShape.kind

/-- The shape of the nodes of a kind. -/
def find? (kind : String) : Option NodeShape :=
  all.find? fun shape => shape.kind == kind

end NodeShape

namespace Reading

/-- The members of an object as a node. -/
def nodeOfMembers (members : List (String × Reading)) : Except ShapeError Node :=
  match members.lookup "kind" with
  | none => .error (.missingField "kind")
  | some r =>
    match r.source with
    | .str kind =>
      match NodeShape.find? kind with
      | some shape => shape.record.readObject members
      | none => .ok (.unknown kind)
    | value => .error (.invalidType value.found .kind)

/-- The items of an array as a node. -/
def nodeOfItems (items : List Reading) : Except ShapeError Node :=
  match items with
  | [] => .error (.missingField "kind")
  | r :: rest =>
    match r.source with
    | .str kind =>
      match NodeShape.find? kind with
      | some shape => shape.record.readArray shape.title rest
      | none => .error (.unknownName kind NodeShape.kinds)
    | value => .error (.invalidType value.found .kind)

/-- A value that is neither a list nor an object. -/
def ofScalar (value : Json) : Reading where
  source := value
  node := .error (.invalidType value.found .node)
  nodes := .error (.invalidType value.found .list)
  fields := .error (.invalidType value.found .object)

/-- A list, given the readings of its items. -/
def ofItems (source : Json) (items : List Reading) : Reading where
  source
  node := nodeOfItems items
  nodes := items.mapM Reading.node
  fields := .error (.invalidType .list .object)

/-- An object, given the readings of its members. -/
def ofMembers (source : Json) (members : List (String × Reading)) : Reading where
  source
  node := nodeOfMembers members
  nodes := .error (.invalidType .object .list)
  fields := members.mapM fun member => member.2.node.map fun node => (member.1, node)

end Reading

namespace Json

mutual

/-- The value in the ways a node can use it. -/
def reading : Json → Reading
  | .arr items => .ofItems (.arr items) (readings items)
  | .obj members => .ofMembers (.obj members) (memberReadings members)
  | .null => .ofScalar .null
  | .bool b => .ofScalar (.bool b)
  | .int n => .ofScalar (.int n)
  | .float x => .ofScalar (.float x)
  | .str text => .ofScalar (.str text)

/-- The readings of the items of a list. -/
def readings : List Json → List Reading
  | [] => []
  | item :: rest => item.reading :: readings rest

/-- The readings of the members of an object. -/
def memberReadings : List (String × Json) → List (String × Reading)
  | [] => []
  | (name, value) :: rest => (name, value.reading) :: memberReadings rest

end

/-- The value as a node. -/
def toNode (value : Json) : Except ShapeError Node :=
  value.reading.node

end Json

end Arbor
