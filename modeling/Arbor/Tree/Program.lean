import Arbor.Json.Reader
import Arbor.Tree.Decode

/-!
# Reading programs

A program is a JSON text that holds a list of nodes. It is read one element at a time: the
shape of an element is settled before the text behind it is looked at, so an element of a wrong
shape hides any later error of syntax.

Errors carry no position. The sentence of an error is left open where it is shown (`Wording`): it
may depend on the text, so it may name the line and the column at which reading came to its end.
What this library writes of its own is the bare sentence, which names neither.
-/

namespace Arbor

/-- Why a text is not a parse tree. -/
inductive TreeError where
  | unreadable (error : SyntaxError)
  | misshapen (error : ShapeError)
deriving DecidableEq

/-- The reported sentence, without the place in the text. -/
def TreeError.message : TreeError → String
  | .unreadable error => error.message
  | .misshapen error => error.message

/-- How the error that a text is read with is put into words. -/
abbrev TreeError.Wording := String → TreeError → String

/-- The sentence alone, the same for every text. -/
def TreeError.Wording.bare : TreeError.Wording := fun _ error => error.message

namespace Node

/-- The node at the head of a text. -/
def readNext (depth : Nat) (text : List Char) : Except TreeError (Node × List Char) := do
  let (value, rest) ← (Json.readValue depth text).mapError .unreadable
  let node ← value.toNode.mapError .misshapen
  .ok (node, rest)

/-- The node that a whole text holds. -/
def read (text : String) : Except TreeError Node := do
  let (node, rest) ← readNext Json.maxDepth text.toList
  (Json.readEnd rest).mapError .unreadable
  .ok node

end Node

namespace Program

/-- The program that a whole text holds. A value other than a list is reported once its first
token has been read. -/
def read (text : String) : Except TreeError Program :=
  match Json.skipSpace text.toList with
  | '[' :: rest => do
    let (program, rest) ←
      Bracketed.list.read .unreadable (Node.readNext (Json.maxDepth - 1)) rest
    (Json.readEnd rest).mapError .unreadable
    .ok program
  | '\x7b' :: _ => .error (.misshapen (.invalidType .object .list))
  | text => do
    let (value, _) ← (Json.readValue 0 text).mapError .unreadable
    .error (.misshapen (.invalidType value.found .list))

end Program

end Arbor
