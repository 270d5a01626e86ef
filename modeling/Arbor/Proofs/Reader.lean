import Arbor.Host
import Arbor.Proofs.Normal
import Arbor.Proofs.NumberReading
import Arbor.Proofs.QuotedReading

/-!
# A reader of emitted programs

Reads an emitted text into the normal form of the program it was emitted for. The reader looks at
most one word ahead: the name at the head of a text, and the character behind it, say what stands
there. It reads nothing twice but the operand of an operator, which begins like a payload that is a
type. What the text says about types beyond the normal form, the types of results above all, is
passed over.
-/

namespace Arbor.Reading

/-! ## Words -/

/-- The text behind a word at its head. -/
def skip : List Char → List Char → Option (List Char)
  | [], text => some text
  | _ :: _, [] => none
  | c :: word, d :: text => if c = d then skip word text else none

/-- The text behind a word at its head. -/
def behind (word : String) (text : List Char) : Option (List Char) :=
  skip word.toList text

/-- The name at the head of a text. -/
def nameAt (text : List Char) : String :=
  String.ofList (text.takeWhile Host.isNamePart)

/-- The text behind the name at its head. -/
def behindName (text : List Char) : List Char :=
  text.dropWhile Host.isNamePart

/-- Reads what stands at the head of a text, and leaves the text behind it. -/
abbrev Reader (α : Type) :=
  StateT (List Char) Option α

/-- The quoted text at the head of a text. -/
def quoted? : Reader String
  | '"' :: text => (StringBody.read text).toOption
  | _ => none

/-! ## Types -/

mutual

/-- The type whose constructor stands at the head of a text. -/
def type? : Reader Ty := fun text =>
  match behind "KYTHERA.type.PRIMITIVES[\"" text with
  | some rest => do
    let primitive ← Primitive.ofName? (nameAt rest)
    let rest ← behind "\"]" (behindName rest)
    some (.prim primitive, rest)
  | none =>
    match behind "new KYTHERA.type(\"fn\", \x7b parameters: [" text with
    | some rest => do
      let (parameters, rest) ← types?.run rest
      let rest ← behind ", returns: " rest
      let (returns, rest) ← type?.run rest
      let rest ← behind "\x7d)" rest
      some (.fn parameters returns, rest)
    | none => do
      let rest ← behind "new KYTHERA.type(\"obj\", \x7b" text
      let (fields, rest) ← typeFields?.run rest
      let rest ← behind ")" rest
      some (.obj fields, rest)
partial_fixpoint

/-- The types up to a closing bracket. -/
def types? : Reader (List Ty)
  | ']' :: rest => some ([], rest)
  | text => do
    let (type, rest) ← type?.run text
    match rest with
    | ',' :: rest => do
      let (others, rest) ← types?.run rest
      some (type :: others, rest)
    | ']' :: rest => some ([type], rest)
    | _ => none
partial_fixpoint

/-- The fields of an object type up to a closing brace. -/
def typeFields? : Reader (List (String × Ty))
  | '\x7d' :: rest => some ([], rest)
  | text => do
    let (name, rest) ← quoted?.run text
    let rest ← behind ": " rest
    let (type, rest) ← type?.run rest
    let rest ← behind "," rest
    let (others, rest) ← typeFields?.run rest
    some ((name, type) :: others, rest)
partial_fixpoint

end

/-- The type of a value, behind its payload, and the end of the value. -/
def typed? : Reader Ty := fun text => do
  let rest ← behind ", " text
  let (type, rest) ← type?.run rest
  let rest ← behind ")" rest
  some (type, rest)

/-! ## Programs -/

/-- How an operator is written in the host. -/
def hostSymbol : BinaryOp → String
  | .eq => "==="
  | .ne => "!=="
  | op => op.symbol

/-- The operator at the head of a text, and the text behind the space that follows it. -/
def operator? : Reader BinaryOp := fun text => do
  let symbol := String.ofList (text.takeWhile (· != ' '))
  let op ← BinaryOp.all.find? fun op => hostSymbol op == symbol
  let rest ← behind " " (text.dropWhile (· != ' '))
  some (op, rest)

/-- A number as the payload of a literal. -/
def number? (type : Ty) (numeral : List Char) : Option NormalValue :=
  match type with
  | .prim .int => some (.int (int numeral))
  | .prim .float => (double? numeral).map .float
  | _ => none

/-- The payloads that are words. -/
def words : List (String × NormalValue) :=
  [("true", .bool true), ("false", .bool false), ("null", .null)]

/-- The names of parameters up to a closing parenthesis. -/
def parameters? : Reader (List String)
  | ')' :: rest => some ([], rest)
  | text =>
    match behindName text with
    | ',' :: rest => do
      let (others, rest) ← parameters?.run rest
      some (nameAt text :: others, rest)
    | ')' :: rest => some ([nameAt text], rest)
    | _ => none
partial_fixpoint

mutual

/-- The expression at the head of a text. -/
def expression? : Reader Normal := fun text => do
  let (head, rest) ← head?.run text
  let (calls, rest) ← calls?.run rest
  some (calls.foldl .call head, rest)
partial_fixpoint

/-- The expression at the head of a text, without the calls behind it. -/
def head? : Reader Normal := fun text =>
  match behind "new KYTHERA.value(" text with
  | some rest => value?.run rest
  | none =>
    match type?.run text with
    | some (type, rest) => do
      let rest ← behind ".makeNew()" rest
      some (.new type, rest)
    | none => some (.ident (nameAt text), behindName text)
partial_fixpoint

/-- The arguments of the calls that stand behind an expression, call by call. -/
def calls? : Reader (List (List Normal)) := fun text =>
  match behind ".value(" text with
  | some rest => do
    let (arguments, rest) ← arguments?.run rest
    let (others, rest) ← calls?.run rest
    some (arguments :: others, rest)
  | none => some ([], text)
partial_fixpoint

/-- The arguments of a call up to a closing parenthesis. -/
def arguments? : Reader (List Normal)
  | ')' :: rest => some ([], rest)
  | text => do
    let (argument, rest) ← expression?.run text
    match rest with
    | ',' :: ' ' :: rest => do
      let (others, rest) ← arguments?.run rest
      some (argument :: others, rest)
    | ')' :: rest => some ([argument], rest)
    | _ => none
partial_fixpoint

/-- What is in a value, up to its end. -/
def value? : Reader Normal
  | '"' :: rest => do
    let (string, rest) ← quoted?.run ('"' :: rest)
    let (type, rest) ← typed?.run rest
    some (.literal type (.str string), rest)
  | '(' :: rest => do
    let (parameters, rest) ← parameters? rest
    let rest ← behind " => \x7b\n" rest
    let (body, rest) ← body?.run rest
    let rest ← behind "\x7d" rest
    let (type, rest) ← typed?.run rest
    some (.literal type (.function parameters body), rest)
  | '\x7b' :: rest => do
    let (fields, rest) ← fields?.run rest
    let (type, rest) ← typed?.run rest
    some (.literal type (.fields fields), rest)
  | '-' :: '(' :: rest => do
    let (operand, rest) ← operand?.run rest
    some (.unary .neg operand, rest)
  | '!' :: '(' :: rest => do
    let (operand, rest) ← operand?.run rest
    some (.unary .not operand, rest)
  | text =>
    if (text.takeWhile isNumeral).isEmpty then word?.run text
    else do
      let (type, rest) ← typed?.run (text.dropWhile isNumeral)
      let value ← number? type (text.takeWhile isNumeral)
      some (.literal type value, rest)
partial_fixpoint

/-- The operand of an operator before it, and the type of the result. -/
def operand? : Reader Normal := fun text => do
  let (operand, rest) ← expression?.run text
  let rest ← behind ".value)" rest
  let (_, rest) ← typed?.run rest
  some (operand, rest)
partial_fixpoint

/-- What is in a value that begins with a name. -/
def word? : Reader Normal := fun text =>
  match words.lookup (nameAt text) with
  | some value => do
    let (type, rest) ← typed?.run (behindName text)
    some (.literal type value, rest)
  | none =>
    match behind "Math.trunc(" text with
    | some rest => do
      let (operation, rest) ← operation?.run rest
      let rest ← behind ")" rest
      let (_, rest) ← typed?.run rest
      some (operation, rest)
    | none =>
      match type?.run text with
      | some (described, ',' :: rest) => do
        let (type, rest) ← typed?.run (',' :: rest)
        some (.literal type (.type described), rest)
      | _ => do
        let (operation, rest) ← operation?.run text
        let (_, rest) ← typed?.run rest
        some (operation, rest)
partial_fixpoint

/-- An operator between the payloads of its operands. -/
def operation? : Reader Normal := fun text => do
  let (left, rest) ← expression?.run text
  let rest ← behind ".value " rest
  let (op, rest) ← operator?.run rest
  let (right, rest) ← expression?.run rest
  let rest ← behind ".value" rest
  some (.binary op left right, rest)
partial_fixpoint

/-- The entries of an object up to a closing brace. -/
def fields? : Reader (List (String × Normal))
  | '\x7d' :: rest => some ([], rest)
  | text => do
    let (name, rest) ← quoted?.run text
    let rest ← behind ": " rest
    let (value, rest) ← expression?.run rest
    let rest ← behind "," rest
    let (others, rest) ← fields?.run rest
    some ((name, value) :: others, rest)
partial_fixpoint

/-- The statement at the head of a text. -/
def statement? : Reader Normal := fun text =>
  if nameAt text = "let" then binding?.run (behindName text)
  else if nameAt text = "return" then return?.run (behindName text)
  else if nameAt text = "if" then branch?.run (behindName text)
  else if nameAt text = "while" then loop?.run (behindName text)
  else assignment?.run text
partial_fixpoint

/-- An assignment, or an expression that is a statement. -/
def assignment? : Reader Normal := fun text =>
  match behind " = " (behindName text) with
  | some rest => do
    let (value, rest) ← expression?.run rest
    some (.assign (nameAt text) value, rest)
  | none => expression?.run text
partial_fixpoint

/-- What a declaration declares. -/
def binding? : Reader Normal := fun text => do
  let name ← behind " " text
  let rest ← behind " = " (behindName name)
  let (value, rest) ← expression?.run rest
  some (.bind (nameAt name) value, rest)
partial_fixpoint

/-- What a return statement returns. -/
def return? : Reader Normal := fun text =>
  match behind " " text with
  | some rest => do
    let (value, rest) ← expression?.run rest
    some (.ret (some value), rest)
  | none => some (.ret none, text)
partial_fixpoint

/-- A condition and the body behind it. -/
def guarded? : Reader (Normal × List Normal) := fun text => do
  let rest ← behind " (" text
  let (condition, rest) ← expression?.run rest
  let rest ← behind ".value) " rest
  let (body, rest) ← block?.run rest
  some ((condition, body), rest)
partial_fixpoint

/-- The condition and the one or two bodies of a branch. -/
def branch? : Reader Normal := fun text => do
  let ((condition, body), rest) ← guarded?.run text
  match behind " else " rest with
  | some rest => do
    let (otherwise, rest) ← block?.run rest
    some (.branch condition body (some otherwise), rest)
  | none => some (.branch condition body none, rest)
partial_fixpoint

/-- The condition and the body of a loop. -/
def loop? : Reader Normal := fun text => do
  let ((condition, body), rest) ← guarded?.run text
  some (.loop condition body, rest)
partial_fixpoint

/-- A body between braces. -/
def block? : Reader (List Normal) := fun text => do
  let rest ← behind "\x7b\n" text
  let (body, rest) ← body?.run rest
  let rest ← behind "\x7d" rest
  some (body, rest)
partial_fixpoint

/-- The statements up to a closing brace or the end of the text. -/
def body? : Reader (List Normal)
  | [] => some ([], [])
  | '\x7d' :: rest => some ([], '\x7d' :: rest)
  | text => do
    let (first, rest) ← statement?.run text
    let rest ← behind ";\n" rest
    let (others, rest) ← body?.run rest
    some (first :: others, rest)
partial_fixpoint

end

end Arbor.Reading
