/-!
# Quoted text

A quoted text stands between double quotes, with every character that could end it or
break a line spelled as an escape. `quoteWith` is the shape common to all quoted forms and
takes the spelling of one character; `quote` is the form written into emitted programs.
-/

namespace Arbor.Text

/-- The lower-case hexadecimal digits of `n`, at least one. -/
def hex (n : Nat) : List Char :=
  Nat.toDigits 16 n

/-- The last four hexadecimal digits of `n`, in lower case. -/
def hex4 (n : Nat) : List Char :=
  [n / 4096, n / 256, n / 16, n].map fun d => Nat.digitChar (d % 16)

/-- The decimal digits of `n`. -/
def decimal (n : Nat) : String :=
  String.ofList (Nat.toDigits 10 n)

/-- The decimal digits of `n` after its sign. -/
def signedDecimal (n : Int) : String :=
  if n < 0 then "-" ++ decimal n.natAbs else decimal n.natAbs

/-- `text` between double quotes, each character spelled by `escape`. -/
def quoteWith (escape : Char → List Char) (text : String) : String :=
  String.ofList ('"' :: (text.toList.flatMap escape ++ ['"']))

/-- The spelling of a character in an emitted string literal: control characters below
U+0020 and the two line separators never appear raw. -/
def literalEscape (c : Char) : List Char :=
  match c with
  | '"' => ['\\', '"']
  | '\\' => ['\\', '\\']
  | '\n' => ['\\', 'n']
  | '\r' => ['\\', 'r']
  | '\t' => ['\\', 't']
  | c =>
    if c.toNat < 0x20 || c.toNat == 0x2028 || c.toNat == 0x2029 then
      '\\' :: 'u' :: hex4 c.toNat
    else [c]

/-- `text` as a string literal of the emitted program. -/
def quote (text : String) : String :=
  quoteWith literalEscape text

end Arbor.Text
