import Arbor.Number.Binary64
import Arbor.Types.Primitive

/-!
# Parse trees

A program is a list of nodes. Statements, expressions and type descriptors are all nodes, told
apart by their kind; which of them may stand where is not the tree's business but the
compiler's. A node of a kind outside the language keeps the name of its kind and nothing else.
-/

namespace Arbor

/-- The tag of a type descriptor. -/
inductive Tag where
  | prim (primitive : Primitive)
  | fn
  | obj
  | list
  | unknown (name : String)
deriving DecidableEq

namespace Tag

/-- The tag as spelled. -/
def name : Tag → String
  | .prim p => p.name
  | .fn => "fn"
  | .obj => "obj"
  | .list => "list"
  | .unknown name => name

/-- The tag among the known ones that is spelled so. -/
def known? (name : String) : Option Tag :=
  match Primitive.ofName? name with
  | some p => some (.prim p)
  | none =>
    if name = "fn" then some .fn
    else if name = "obj" then some .obj
    else if name = "list" then some .list
    else none

/-- The tag that is spelled so. -/
def ofName (name : String) : Tag :=
  (known? name).getD (.unknown name)

end Tag

/-- An operator between two operands. -/
inductive BinaryOp where
  | add
  | sub
  | mul
  | div
  | rem
  | eq
  | ne
  | lt
  | le
  | gt
  | ge
  | and
  | or
deriving DecidableEq

namespace BinaryOp

/-- The operator as spelled in a program. -/
def symbol : BinaryOp → String
  | add => "+"
  | sub => "-"
  | mul => "*"
  | div => "/"
  | rem => "%"
  | eq => "=="
  | ne => "!="
  | lt => "<"
  | le => "<="
  | gt => ">"
  | ge => ">="
  | and => "&&"
  | or => "||"

/-- Every operator between two operands. -/
def all : List BinaryOp :=
  [add, sub, mul, div, rem, eq, ne, lt, le, gt, ge, and, or]

end BinaryOp

/-- An operator before one operand. -/
inductive UnaryOp where
  | neg
  | not
deriving DecidableEq

namespace UnaryOp

/-- The operator as spelled in a program. -/
def symbol : UnaryOp → String
  | neg => "-"
  | not => "!"

/-- Every operator before one operand. -/
def all : List UnaryOp :=
  [neg, not]

end UnaryOp

mutual

/-- A node of a parse tree. -/
inductive Node where
  /-- Declares a name with its first value. -/
  | bind (name : String) (value : Node)
  | assign (target value : Node)
  | ret (value : Option Node)
  /-- A chain of alternatives is an `otherwise` that holds one more branch. -/
  | branch (condition : Node) (body : List Node) (otherwise : Option (List Node))
  | loop (condition : Node) (body : List Node)
  | ident (name : String)
  /-- A literal of the described type. Only function literals use parameters and body. -/
  | literal (type : Node) (payload : Option Payload) (parameters : List String) (body : List Node)
  /-- A default value of the described type. -/
  | new (target : Node)
  | binary (op : BinaryOp) (left right : Node)
  | unary (op : UnaryOp) (operand : Node)
  | call (callee : Node) (arguments : List Node)
  /-- A field of an object, by name. -/
  | member (object : Node) (property : String)
  /-- An element of an object, by a computed index. -/
  | element (object index : Node)
  /-- A type descriptor. Which of its parts count depends on the tag. -/
  | type (tag : Tag) (name : Option String) (parameters : List Node) (returns : Option Node)
      (fields : List (String × Node))
  /-- A node of a kind the language does not have. -/
  | unknown (kind : String)

/-- The value carried by a literal. -/
inductive Payload where
  | bool (value : Bool)
  | int (value : Int64)
  | float (value : Binary64)
  | str (text : String)
  | node (node : Node)
  | fields (fields : List (String × Node))

end

/-- The kind of a node as spelled in a program. -/
def Node.kind : Node → String
  | .bind .. => "let"
  | .assign .. => "assign"
  | .ret _ => "return"
  | .branch .. => "if"
  | .loop .. => "while"
  | .ident _ => "identifier"
  | .literal .. => "literal"
  | .new _ => "new"
  | .binary .. => "binary"
  | .unary .. => "unary"
  | .call .. => "call"
  | .member .. => "objAccess"
  | .element .. => "access"
  | .type .. => "type"
  | .unknown kind => kind

/-- The statements of a program, in order. -/
abbrev Program := List Node

end Arbor
