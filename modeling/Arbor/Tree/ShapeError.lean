import Arbor.Json.Pretty
import Arbor.Text.Inspected

/-!
# Shape errors

Why a JSON value is not the tree it should be, and the sentence that reports it. A value does not
know where in a text it stands, so the sentence is the bare one, without a line and a column.
-/

namespace Arbor

/-- What a JSON value is, seen from outside. -/
inductive Found where
  | null
  | bool (value : Bool)
  | int (value : Int)
  | float (value : Binary64)
  | str (text : String)
  | list
  | object
deriving DecidableEq

/-- What a JSON value is, seen from outside. -/
def Json.found : Json → Found
  | .null => .null
  | .bool b => .bool b
  | .int n => .int n.val
  | .float x => .float x
  | .str text => .str text
  | .arr _ => .list
  | .obj _ => .object

/-- The finding as reported. -/
def Found.text : Found → String
  | .null => "null"
  | .bool true => "boolean `true`"
  | .bool false => "boolean `false`"
  | .int n => "integer `" ++ Text.signedDecimal n ++ "`"
  | .float x => "floating point `" ++ Json.numberStyle.write x ++ "`"
  | .str text => "string " ++ Text.inspect text
  | .list => "sequence"
  | .object => "map"

/-- What a JSON value was expected to be. -/
inductive Expected where
  | list
  | object
  | text
  /-- The name of a node kind. -/
  | kind
  | node
  | parameter
  /-- An operator, by itself or as the only key of an object. -/
  | operator
  /-- The empty value under an operator that is a key. -/
  | nothing
deriving DecidableEq

/-- The expectation as reported. -/
def Expected.phrase : Expected → String
  | .list => "a sequence"
  | .object => "a map"
  | .text => "a string"
  | .kind => "variant identifier"
  | .node => "internally tagged enum Node"
  | .parameter => "struct Parameter"
  | .operator => "string or map"
  | .nothing => "unit"

/-- The ways in which a JSON value fails to be a tree. -/
inductive ShapeError where
  | invalidType (found : Found) (expected : Expected)
  | missingField (name : String)
  /-- A name outside a closed list of names. -/
  | unknownName (name : String) (known : List String)
  /-- An array of fields ends before a field that it must have. -/
  | tooShort (given : Nat) (title : String) (size : Nat)
  /-- An array of fields goes on behind its last field. -/
  | tooLong (given size : Nat)
  /-- An operator given as an object has one key. -/
  | notOneKey
  /-- The value is no payload of a literal. -/
  | noPayload
  /-- The value is no tag of a type. -/
  | noTag
deriving DecidableEq

namespace ShapeError

/-- `n` elements, in words. -/
def elements (n : Nat) : String :=
  if n = 1 then "1 element" else Text.decimal n ++ " elements"

/-- A closed list of names, in words. -/
def oneOf (names : List String) : String :=
  let quoted := names.map fun name => "`" ++ name ++ "`"
  match quoted with
  | [a, b] => a ++ " or " ++ b
  | _ => "one of " ++ String.intercalate ", " quoted

/-- The reported sentence, without the place in the text. -/
def message : ShapeError → String
  | invalidType found expected =>
    "invalid type: " ++ found.text ++ ", expected " ++ expected.phrase
  | missingField name => "missing field `" ++ name ++ "`"
  | unknownName name known => "unknown variant `" ++ name ++ "`, expected " ++ oneOf known
  | tooShort given title size =>
    "invalid length " ++ Text.decimal given ++ ", expected struct " ++ title ++ " with "
      ++ elements size
  | tooLong given size =>
    "invalid length " ++ Text.decimal given ++ ", expected " ++ elements size ++ " in sequence"
  | notOneKey => "invalid value: map, expected map with a single key"
  | noPayload => "data did not match any variant of untagged enum LiteralValue"
  | noTag => "data did not match any variant of untagged enum TypeTag"

end ShapeError

end Arbor
