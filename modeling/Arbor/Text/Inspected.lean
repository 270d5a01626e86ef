import Arbor.Text.DefaultIgnorable
import Arbor.Text.GraphemeExtend
import Arbor.Text.Printable
import Arbor.Text.Quoted

/-!
# Inspected text

The quoted form used in descriptions meant for people: characters that cannot be seen on
their own are spelled by their code point.
-/

namespace Arbor.Text

/-- The code point of `c` between braces, in as few hexadecimal digits as it has. -/
def codePointEscape (c : Char) : List Char :=
  ['\\', 'u', '\x7b'] ++ hex c.toNat ++ ['\x7d']

/-- The character extends the one before it, and yet is drawn in a cell of its own. These are
the halfwidth sound marks, the only letters with the property Grapheme_Extend. -/
def isHalfwidthSoundMark (c : Char) : Bool :=
  c = '\uff9e' || c = '\uff9f'

/-- The character cannot be seen on its own. -/
def isHidden (c : Char) : Bool :=
  !isPrintable c || isDefaultIgnorable c || (isGraphemeExtend c && !isHalfwidthSoundMark c)

/-- The spelling of a character in an inspected text. -/
def inspectEscape (c : Char) : List Char :=
  match c with
  | '"' => ['\\', '"']
  | '\\' => ['\\', '\\']
  | '\n' => ['\\', 'n']
  | '\r' => ['\\', 'r']
  | '\t' => ['\\', 't']
  | '\x00' => ['\\', '0']
  | c => if isHidden c then codePointEscape c else [c]

/-- `text` as shown in a description. -/
def inspect (text : String) : String :=
  quoteWith inspectEscape text

end Arbor.Text
