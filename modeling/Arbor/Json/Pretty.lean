import Arbor.Json.Value
import Arbor.Number.Style
import Arbor.Text.Quoted

/-!
# Indented JSON

A JSON value written over several lines, two blanks for each open bracket.
-/

namespace Arbor.Json

/-- A double in JSON has a point or a power of ten; digits stand in place between `1e-5` and
`1e16`. -/
def numberStyle : NumberStyle where
  tie := .even
  inPlace power := -5 ≤ power && power < 16
  pointZero := true
  plus := true

/-- The spelling of a character in a JSON string: only what must be escaped is. -/
def stringEscape (c : Char) : List Char :=
  match c with
  | '"' => ['\\', '"']
  | '\\' => ['\\', '\\']
  | '\x08' => ['\\', 'b']
  | '\x0c' => ['\\', 'f']
  | '\n' => ['\\', 'n']
  | '\r' => ['\\', 'r']
  | '\t' => ['\\', 't']
  | c => if c.toNat < 0x20 then '\\' :: 'u' :: Text.hex4 c.toNat else [c]

/-- `text` as a JSON string. -/
def quote (text : String) : String :=
  Text.quoteWith stringEscape text

/-- A line break and the indentation behind it. -/
def lineBreak (indent : Nat) : String :=
  "\n" ++ String.ofList (List.replicate (2 * indent) ' ')

/-- Written items between brackets, each on a line of its own. -/
def bracketLines (opening closing : String) (indent : Nat) (items : List String) : String :=
  match items with
  | [] => opening ++ closing
  | _ :: _ =>
    opening ++ lineBreak (indent + 1) ++ String.intercalate ("," ++ lineBreak (indent + 1)) items
      ++ lineBreak indent ++ closing

mutual

/-- The value as it stands `indent` brackets deep. -/
def prettyAt (indent : Nat) : Json → String
  | .null => "null"
  | .bool true => "true"
  | .bool false => "false"
  | .int n => Text.signedDecimal n.val
  | .float x => numberStyle.write x
  | .str text => quote text
  | .arr items => bracketLines "[" "]" indent (prettyItems (indent + 1) items)
  | .obj members => bracketLines "\x7b" "\x7d" indent (prettyMembers (indent + 1) members)

/-- The items of a list, each written `indent` brackets deep. -/
def prettyItems (indent : Nat) : List Json → List String
  | [] => []
  | item :: rest => prettyAt indent item :: prettyItems indent rest

/-- The members of an object, each written `indent` brackets deep. -/
def prettyMembers (indent : Nat) : List (String × Json) → List String
  | [] => []
  | (name, value) :: rest =>
    (quote name ++ ": " ++ prettyAt indent value) :: prettyMembers indent rest

end

/-- The value over several lines. -/
def pretty (value : Json) : String :=
  prettyAt 0 value

end Arbor.Json
