import Arbor.Fields
import Arbor.Json.Numeral
import Arbor.Json.StringBody

/-!
# Reading JSON

Readers take a value off the front of a text. `Bracketed.read` reads what stands between
brackets, separated by commas, for any kind of item and any kind of error that syntax errors
can be turned into; lists and objects are two instances. `Json.read` reads a whole text.
-/

namespace Arbor

/-- White space between the tokens of a JSON text. -/
def Json.isSpace (c : Char) : Bool :=
  c = ' ' || c = '\n' || c = '\t' || c = '\r'

/-- The text behind the white space it begins with. -/
def Json.skipSpace (text : List Char) : List Char :=
  text.dropWhile Json.isSpace

/-- A kind of bracketed sequence: its closing bracket, and the errors for a text that ends
before it and for an item followed by neither a comma nor the bracket. -/
structure Bracketed where
  close : Char
  atEnd : SyntaxError
  separator : SyntaxError

namespace Bracketed

/-- Lists stand between square brackets. -/
def list : Bracketed := ⟨']', .endInList, .expectedListSeparator⟩

/-- Objects stand between braces. -/
def object : Bracketed := ⟨'\x7d', .endInObject, .expectedObjectSeparator⟩

variable {α ε : Type}

/-- The items that follow one that has been read, each behind a comma. The first text bounds the
rounds: every round takes at least its comma, so the text itself is bound enough. -/
def readMore (kind : Bracketed) (lift : SyntaxError → ε)
    (item : List Char → Except ε (α × List Char)) :
    List Char → List Char → Except ε (List α × List Char)
  | [], _ => .error (lift kind.atEnd)
  | _ :: bound, text =>
    match Json.skipSpace text with
    | [] => .error (lift kind.atEnd)
    | c :: rest =>
      if c = kind.close then .ok ([], rest)
      else if c = ',' then
        match Json.skipSpace rest with
        | [] => .error (lift .endInValue)
        | d :: rest =>
          if d = kind.close then .error (lift .trailingComma)
          else do
            let (first, text) ← item (d :: rest)
            let (others, text) ← kind.readMore lift item bound text
            .ok (first :: others, text)
      else .error (lift kind.separator)

/-- The items of a sequence whose opening bracket has been read. -/
def read (kind : Bracketed) (lift : SyntaxError → ε)
    (item : List Char → Except ε (α × List Char)) (text : List Char) :
    Except ε (List α × List Char) :=
  match Json.skipSpace text with
  | [] => .error (lift kind.atEnd)
  | c :: rest =>
    if c = kind.close then .ok ([], rest)
    else do
      let (first, text) ← item (c :: rest)
      let (others, text) ← kind.readMore lift item text text
      .ok (first :: others, text)

end Bracketed

namespace Json

/-- The rest of a keyword whose first letter has been read. -/
def readKeyword (value : Json) : List Char → List Char → Except SyntaxError (Json × List Char)
  | [], text => .ok (value, text)
  | _ :: _, [] => .error .endInValue
  | k :: more, c :: text => if c = k then readKeyword value more text else .error .expectedKeyword

/-- A member of an object: a string, a colon and a value. -/
def readMember (value : List Char → Except SyntaxError (Json × List Char)) (text : List Char) :
    Except SyntaxError ((String × Json) × List Char) :=
  match text with
  | '"' :: rest => do
    let (name, rest) ← StringBody.read rest
    match skipSpace rest with
    | [] => .error .endInObject
    | ':' :: rest => do
      let (value, rest) ← value rest
      .ok ((name, value), rest)
    | _ => .error .expectedColon
  | _ => .error .keyNotString

/-- The value at the head of a text, with at most `depth` lists and objects open at once. -/
def readValue (depth : Nat) (text : List Char) : Except SyntaxError (Json × List Char) :=
  match skipSpace text with
  | [] => .error .endInValue
  | 'n' :: rest => readKeyword .null ['u', 'l', 'l'] rest
  | 't' :: rest => readKeyword (.bool true) ['r', 'u', 'e'] rest
  | 'f' :: rest => readKeyword (.bool false) ['a', 'l', 's', 'e'] rest
  | '"' :: rest => do
    let (text, rest) ← StringBody.read rest
    .ok (.str text, rest)
  | '[' :: rest =>
    match depth with
    | 0 => .error .nestingTooDeep
    | depth + 1 => do
      let (items, rest) ← Bracketed.list.read id (readValue depth) rest
      .ok (.arr items, rest)
  | '\x7b' :: rest =>
    match depth with
    | 0 => .error .nestingTooDeep
    | depth + 1 => do
      let (members, rest) ← Bracketed.object.read id (readMember (readValue depth)) rest
      .ok (.obj (Fields.ofPairs members), rest)
  | c :: rest =>
    if c = '-' || Numeral.isDigit c then do
      let (numeral, rest) ← Numeral.read (c :: rest)
      .ok (← numeral.value, rest)
    else .error .expectedValue

/-- How many lists and objects may be open at once in a text. -/
def maxDepth : Nat := 127

/-- Nothing but white space may follow the value a text holds. -/
def readEnd (text : List Char) : Except SyntaxError Unit :=
  match skipSpace text with
  | [] => .ok ()
  | _ :: _ => .error .trailingCharacters

/-- The value a whole text holds. -/
def read (text : String) : Except SyntaxError Json := do
  let (value, rest) ← readValue maxDepth text.toList
  readEnd rest
  .ok value

end Json

end Arbor
