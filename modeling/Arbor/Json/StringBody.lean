import Arbor.Json.SyntaxError

/-!
# String bodies

The part of a JSON string behind its opening quote. An escape that names a code unit outside
the basic plane takes two `\u` escapes, a high surrogate and a low one.
-/

namespace Arbor.StringBody

/-- The number a hexadecimal digit stands for, in either case. -/
def hexValue? (c : Char) : Option Nat :=
  if '0' ≤ c && c ≤ '9' then some (c.toNat - '0'.toNat)
  else if 'a' ≤ c && c ≤ 'f' then some (c.toNat - 'a'.toNat + 10)
  else if 'A' ≤ c && c ≤ 'F' then some (c.toNat - 'A'.toNat + 10)
  else none

/-- The code unit spelled by the four digits at the head of a text. Fewer than four bytes are
the end of the text, whatever they are. -/
def codeUnit (text : List Char) : Except SyntaxError Nat :=
  if (String.ofList (text.take 4)).utf8ByteSize < 4 then .error .endInString
  else match (text.take 4).mapM hexValue? with
    | some [a, b, c, d] => .ok (a * 4096 + b * 256 + c * 16 + d)
    | _ => .error .invalidEscape

/-- The low surrogate at the head of the text behind a high one. -/
def lowSurrogate (text : List Char) : Except SyntaxError Nat :=
  match text with
  | [] => .error .endInString
  | '\\' :: [] => .error .endInString
  | '\\' :: 'u' :: rest => do
    let unit ← codeUnit rest
    if 0xdc00 ≤ unit && unit ≤ 0xdfff then .ok unit else .error .loneSurrogate
  | _ => .error .missingSurrogate

/-- The character of a `\u` escape, read behind the `u`, and how many characters spell it. -/
def unicodeEscape (text : List Char) : Except SyntaxError (Char × Nat) := do
  let unit ← codeUnit text
  if 0xdc00 ≤ unit && unit ≤ 0xdfff then .error .loneSurrogate
  else if 0xd800 ≤ unit && unit ≤ 0xdbff then
    let low ← lowSurrogate (text.drop 4)
    .ok (Char.ofNat ((unit - 0xd800) * 1024 + (low - 0xdc00) + 0x10000), 10)
  else .ok (Char.ofNat unit, 4)

/-- The character of an escape, read behind the backslash, and how many characters spell it. -/
def escape (text : List Char) : Except SyntaxError (Char × Nat) :=
  match text with
  | [] => .error .endInString
  | '"' :: _ => .ok ('"', 1)
  | '\\' :: _ => .ok ('\\', 1)
  | '/' :: _ => .ok ('/', 1)
  | 'b' :: _ => .ok ('\x08', 1)
  | 'f' :: _ => .ok ('\x0c', 1)
  | 'n' :: _ => .ok ('\n', 1)
  | 'r' :: _ => .ok ('\r', 1)
  | 't' :: _ => .ok ('\t', 1)
  | 'u' :: rest => do
    let (c, taken) ← unicodeEscape rest
    .ok (c, taken + 1)
  | _ => .error .invalidEscape

/-- The characters up to the closing quote, once `skip` characters of an escape that has been
read are passed over. -/
def scan (skip : Nat) : List Char → Except SyntaxError (List Char × List Char)
  | [] => .error .endInString
  | c :: rest =>
    match skip with
    | skip + 1 => scan skip rest
    | 0 =>
      if c = '"' then .ok ([], rest)
      else if c = '\\' then do
        let (decoded, taken) ← escape rest
        let (more, rest) ← scan taken rest
        .ok (decoded :: more, rest)
      else if c.toNat < 0x20 then .error .controlCharacter
      else do
        let (more, rest) ← scan 0 rest
        .ok (c :: more, rest)

/-- The string whose opening quote has been read, and the text behind its closing quote. -/
def read (text : List Char) : Except SyntaxError (String × List Char) := do
  let (body, rest) ← scan 0 text
  .ok (String.ofList body, rest)

end Arbor.StringBody
