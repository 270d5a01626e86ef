/-!
# Syntax errors

Why a text is not JSON, and the sentence that reports it. An error says what is wrong and not
where: the sentence is the bare one, without the line and the column that a report may add to it.
-/

namespace Arbor

/-- The ways in which a text fails to be JSON. -/
inductive SyntaxError where
  /-- The text ends inside a list. -/
  | endInList
  /-- The text ends inside an object. -/
  | endInObject
  /-- The text ends inside a string. -/
  | endInString
  /-- The text ends where a value is due or inside one. -/
  | endInValue
  | expectedColon
  | expectedListSeparator
  | expectedObjectSeparator
  /-- A letter that starts a keyword is not followed by the rest of it. -/
  | expectedKeyword
  | expectedValue
  | invalidEscape
  | invalidNumber
  /-- The number is past the largest double. -/
  | numberOutOfRange
  /-- A string holds a raw character below U+0020. -/
  | controlCharacter
  | keyNotString
  /-- A low surrogate stands first, or a high one is not followed by a low one. -/
  | loneSurrogate
  /-- No escape follows a high surrogate. -/
  | missingSurrogate
  | trailingComma
  | trailingCharacters
  /-- More lists and objects are open at once than a reader follows. -/
  | nestingTooDeep
deriving DecidableEq

/-- The reported sentence, without the place in the text. -/
def SyntaxError.message : SyntaxError → String
  | endInList => "EOF while parsing a list"
  | endInObject => "EOF while parsing an object"
  | endInString => "EOF while parsing a string"
  | endInValue => "EOF while parsing a value"
  | expectedColon => "expected `:`"
  | expectedListSeparator => "expected `,` or `]`"
  | expectedObjectSeparator => "expected `,` or `\x7d`"
  | expectedKeyword => "expected ident"
  | expectedValue => "expected value"
  | invalidEscape => "invalid escape"
  | invalidNumber => "invalid number"
  | numberOutOfRange => "number out of range"
  | controlCharacter => "control character (\\u0000-\\u001F) found while parsing a string"
  | keyNotString => "key must be a string"
  | loneSurrogate => "lone leading surrogate in hex escape"
  | missingSurrogate => "unexpected end of hex escape"
  | trailingComma => "trailing comma"
  | trailingCharacters => "trailing characters"
  | nestingTooDeep => "recursion limit exceeded"

end Arbor
