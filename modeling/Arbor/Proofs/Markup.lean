import Mathlib.Data.List.Infix
import Arbor.Proofs.Bodies
import Arbor.Proofs.Lexical
import Arbor.Proofs.Reader

/-!
# Marked text

The text of a program with marks in it: what is a name of the program and what is a name of the
host, where a name is declared, and how far a scope reaches. Taken without its marks it is the
emitted text. What stands between the marks is of the compiler's own and names nothing of the host,
which is part of the type, so a marked text shows every place where the compiler writes the name of
a global.
-/

namespace Arbor

namespace Host

/-- A name that the compiler takes from the host. -/
inductive Global where
  | runtime
  | math
  | require
  | console
deriving DecidableEq

namespace Global

def name : Global → String
  | runtime => runtimeName
  | math => "Math"
  | require => "require"
  | console => "console"

def all : List Global :=
  [runtime, math, require, console]

end Global

/-- No global is named anywhere in the text. -/
def NamesNone (text : String) : Prop :=
  ∀ global ∈ Global.all, ¬global.name.toList <:+: text.toList

instance (text : String) : Decidable (NamesNone text) :=
  inferInstanceAs (Decidable (∀ global ∈ Global.all, ¬global.name.toList <:+: text.toList))

end Host

theorem Reading.namesNone_hostSymbol (op : BinaryOp) : Host.NamesNone (hostSymbol op) := by
  cases op <;> decide +kernel

theorem UnaryOp.namesNone_symbol (op : UnaryOp) : Host.NamesNone op.symbol := by
  cases op <;> decide +kernel

theorem Primitive.namesNone_name (p : Primitive) : Host.NamesNone p.name := by
  cases p <;> decide +kernel

/-- A text with marks. -/
inductive Markup where
  | empty
  /-- Fixed text of the compiler. -/
  | plain (text : String) (own : Host.NamesNone text)
  | numeral (text : String) (number : Reading.Numeral text.toList)
  | quoted (text : String)
  /-- A name of the program where it is used. -/
  | use (name : String)
  /-- A name of the program where it is declared. -/
  | binder (name : String)
  /-- A name of the host. -/
  | global (global : Host.Global)
  | append (first last : Markup)
  /-- A part in which the names declared in it are known, and no further. -/
  | scope (inside : Markup)

/-- A name of the host, with the names declared in the scopes around it. -/
structure Reference where
  global : Host.Global
  around : List String

namespace Reference

/-- The reference in one scope more. -/
def within (declared : List String) (reference : Reference) : Reference :=
  { reference with around := declared ++ reference.around }

/-- A scope around the reference declares its name. -/
def Captured (reference : Reference) : Prop :=
  reference.global.name ∈ reference.around

instance (reference : Reference) : Decidable reference.Captured :=
  inferInstanceAs (Decidable (reference.global.name ∈ reference.around))

end Reference

namespace Markup

instance : Append Markup := ⟨append⟩

/-- Fixed text of the compiler. -/
def own (text : String) (names : Host.NamesNone text := by decide +kernel) : Markup :=
  plain text names

/-- The text without the marks. -/
def render : Markup → String
  | empty => ""
  | plain text _ => text
  | numeral text _ => text
  | quoted text => Text.quote text
  | use name => name
  | binder name => name
  | global g => g.name
  | append first last => first.render ++ last.render
  | scope inside => inside.render

/-- The names declared in the text and outside of the scopes in it, in order. -/
def binders : Markup → List String
  | binder name => [name]
  | append first last => first.binders ++ last.binders
  | _ => []

/-- The scopes in the text, as the names they declare, in the order in which they open. -/
def scopes : Markup → List (List String)
  | append first last => first.scopes ++ last.scopes
  | scope inside => inside.binders :: inside.scopes
  | _ => []

/-- The places in the text where the host is named. -/
def references : Markup → List Reference
  | global g => [⟨g, []⟩]
  | append first last => first.references ++ last.references
  | scope inside => inside.references.map (Reference.within inside.binders)
  | _ => []

/-- Parts one behind the other. -/
def sequence : List Markup → Markup
  | [] => empty
  | first :: rest => first ++ sequence rest

/-- Parts with a text between each two. -/
def separated (separator : Markup) : List Markup → Markup
  | [] => empty
  | [last] => last
  | first :: rest => first ++ separator ++ separated separator rest

/-- A value of the host: its payload and its type. -/
def value (payload type : Markup) : Markup :=
  own "new " ++ global .runtime ++ own ".value(" ++ payload ++ own ", " ++ type ++ own ")"

/-- A body between braces, in a scope of its own. -/
def block (statements : Markup) : Markup :=
  scope (own "\x7b\n" ++ statements ++ own "\x7d")

/-- A function with its parameters and its body. -/
def function (parameters : List String) (statements : Markup) : Markup :=
  scope (own "(" ++ separated (own ",") (parameters.map binder) ++ own ") => \x7b\n" ++
    statements ++ own "\x7d")

/-- A field of an object, before the others. -/
def entry (name : String) (value others : Markup) : Markup :=
  quoted name ++ own ": " ++ value ++ own "," ++ others

/-- The entries of an object, in the order in which its type declares the fields. -/
def entries (fields : List (String × Markup)) : List (String × Ty) → Markup
  | [] => empty
  | (name, _) :: rest => entry name ((fields.lookup name).getD empty) (entries fields rest)

def object (entries : Markup) : Markup :=
  own "\x7b" ++ entries ++ own "\x7d"

def null : Markup :=
  own "null"

def boolean (b : Bool) : Markup :=
  if b then own "true" else own "false"

def primitiveType (p : Primitive) : Markup :=
  global .runtime ++ own ".type.PRIMITIVES[\"" ++ own p.name p.namesNone_name ++ own "\"]"

def functionType (parameters : List Markup) (returns : Markup) : Markup :=
  own "new " ++ global .runtime ++ own ".type(\"fn\", \x7b parameters: [" ++
    separated (own ",") parameters ++ own "], returns: " ++ returns ++ own "\x7d)"

def objectType (entries : Markup) : Markup :=
  own "new " ++ global .runtime ++ own ".type(\"obj\", \x7b" ++ entries ++ own "\x7d)"

/-- A default value of a type. -/
def made (type : Markup) : Markup :=
  type ++ own ".makeNew()"

/-- A computation on the payloads of two operands. -/
def computed (op : BinaryOp) (left right : Markup) : Markup :=
  left ++ own ".value " ++ own (Reading.hostSymbol op) (Reading.namesNone_hostSymbol op) ++
    own " " ++ right ++ own ".value"

/-- The computation, without what is behind the point if its operands are whole numbers and are
divided. -/
def operation (op : BinaryOp) (type : Ty) (left right : Markup) : Markup :=
  if op == .div && type.primitive? == some .int then
    global .math ++ own ".trunc(" ++ computed op left right ++ own ")"
  else computed op left right

/-- An operator before the payload of its operand. -/
def applied (op : UnaryOp) (operand : Markup) : Markup :=
  own op.symbol op.namesNone_symbol ++ own "(" ++ operand ++ own ".value)"

def call (callee : Markup) (arguments : List Markup) : Markup :=
  callee ++ own ".value(" ++ separated (own ", ") arguments ++ own ")"

/-! ### Statements -/

def declaration (name : String) (value : Markup) : Markup :=
  own "let " ++ binder name ++ own " = " ++ value

def assignment (name : String) (value : Markup) : Markup :=
  use name ++ own " = " ++ value

def leave : Markup :=
  own "return"

def ret (value : Markup) : Markup :=
  own "return " ++ value

def branch (test body : Markup) : Markup :=
  own "if (" ++ test ++ own ".value) " ++ block body

def alternatives (test body otherwise : Markup) : Markup :=
  branch test body ++ own " else " ++ block otherwise

def loop (test body : Markup) : Markup :=
  own "while (" ++ test ++ own ".value) " ++ block body

/-- A statement with its end. -/
def terminated (statement : Markup) : Markup :=
  statement ++ own ";\n"

/-- The statements that log a name and its value. -/
def logged (name : String) : Markup :=
  global .console ++ own ".log(" ++ quoted (name ++ ":") ++ own ");\n" ++
    global .console ++ own ".log(" ++ use name ++ own ");\n"

/-- The statements that log every name and its value. -/
def dump (names : List String) : Markup :=
  sequence (names.map logged)

/-- The statement that binds the runtime. -/
def bindRuntime (path : String) : Markup :=
  own "const " ++ global .runtime ++ own " = " ++ global .require ++ own "(" ++ quoted path ++
    own ");\n"

end Markup

mutual

/-- The marked host expression that builds a type. -/
def Ty.markup : Ty → Markup
  | .prim p => .primitiveType p
  | .fn parameters returns => .functionType (typeMarkups parameters) returns.markup
  | .obj fields => .objectType (typeEntries fields)
  | .list => .empty

def typeMarkups : List Ty → List Markup
  | [] => []
  | type :: rest => type.markup :: typeMarkups rest

def typeEntries : List (String × Ty) → Markup
  | [] => .empty
  | (name, type) :: rest => .entry name type.markup (typeEntries rest)

end

/-- The marked type of an expression, if it has one. -/
def Node.typeMarkup (frames : Frames) (node : Node) : Markup :=
  ((node.derived frames).map Ty.markup).getD .empty

/-- The payload of a literal of a primitive type. -/
def Payload.scalar (type : Ty) : Option Payload → Markup
  | none => .null
  | some (.bool b) => .boolean b
  | some (.int n) =>
    if type.primitive? == some .float then
      .numeral (Emit.wholeDouble n) (Reading.numeral_double _)
    else .numeral (Text.signedDecimal n.toInt) (Reading.numeral_int _)
  | some (.float x) => .numeral (Emit.numberStyle.write x) (Reading.numeral_double x)
  | some (.str text) => .quoted text
  | some (.node descriptor) => (descriptor.lower.toOption.map Ty.markup).getD .empty
  | some (.fields _) => .empty

mutual

/-- The marked text of a node in its frames. -/
def Node.markup (frames : Frames) : Node → Markup
  | .bind name value => .declaration name (value.markup frames)
  | .assign (.ident name) value => .assignment name (value.markup frames)
  | .ret none => .leave
  | .ret (some value) => .ret (value.markup frames)
  | .branch test body none =>
    .branch (test.markup frames) (bodyMarkup (BodyKind.block.frame :: frames) body)
  | .branch test body (some otherwise) =>
    .alternatives (test.markup frames) (bodyMarkup (BodyKind.block.frame :: frames) body)
      (bodyMarkup (BodyKind.block.frame :: frames) otherwise)
  | .loop test body =>
    .loop (test.markup frames) (bodyMarkup (BodyKind.block.frame :: frames) body)
  | .ident name => .use name
  | .literal descriptor none parameters body =>
    match descriptor.lower with
    | .ok (.fn types result) =>
      .value (.function parameters (bodyMarkup (⟨parameters.zip types, true⟩ :: frames) body))
        (Ty.fn types result).markup
    | .ok type => .value (Payload.scalar type none) type.markup
    | .error _ => .empty
  | .literal descriptor (some payload) _ _ =>
    match descriptor.lower with
    | .ok (.obj declared) =>
      .value (.object (.entries (payload.markups frames) declared)) (Ty.obj declared).markup
    | .ok type => .value (Payload.scalar type (some payload)) type.markup
    | .error _ => .empty
  | .new target => .made ((Node.new target).typeMarkup frames)
  | .binary op left right =>
    .value (.operation op ((left.derived frames).getD .list) (left.markup frames)
      (right.markup frames)) ((Node.binary op left right).typeMarkup frames)
  | .unary op operand =>
    .value (.applied op (operand.markup frames)) (operand.typeMarkup frames)
  | .call callee arguments => .call (callee.markup frames) (markups frames arguments)
  | _ => .empty

/-- The marked text of statements. A return outside of all functions is left out. -/
def bodyMarkup (frames : Frames) : List Node → Markup
  | [] => .empty
  | node :: rest =>
    (if node.isReturn && !frames.inFunction then .empty else (node.markup frames).terminated) ++
      bodyMarkup (frames.extend (node.symbols frames)) rest

def markups (frames : Frames) : List Node → List Markup
  | [] => []
  | node :: rest => node.markup frames :: markups frames rest

def fieldMarkups (frames : Frames) : List (String × Node) → List (String × Markup)
  | [] => []
  | (name, node) :: rest => (name, node.markup frames) :: fieldMarkups frames rest

def Payload.markups (frames : Frames) : Payload → List (String × Markup)
  | .fields fields => fieldMarkups frames fields
  | _ => []

end

/-- The names that a program declares at its top. -/
def Program.topNames (program : Program) : List String :=
  program.flatMap Node.declared

/-- What is written for a program that loads the runtime from a path: the statement that binds the
runtime, the program, and the log of what it declares. -/
def Program.written (program : Program) (runtime : String) : Markup :=
  .bindRuntime runtime ++ bodyMarkup Frames.root program ++ .dump program.topNames

/-- All that is written for a program is one scope of the host. -/
def Program.markup (program : Program) (runtime : String) : Markup :=
  .scope (program.written runtime)

end Arbor
