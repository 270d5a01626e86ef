/-!
# Blank text

The characters of the Unicode property White_Space, and texts made of them alone.
-/

namespace Arbor.Text

/-- The first and last code points of each run of White_Space characters. -/
def blankRanges : List (Nat × Nat) :=
  [(0x09, 0x0d), (0x20, 0x20), (0x85, 0x85), (0xa0, 0xa0), (0x1680, 0x1680), (0x2000, 0x200a),
   (0x2028, 0x2029), (0x202f, 0x202f), (0x205f, 0x205f), (0x3000, 0x3000)]

/-- The character has the property White_Space. -/
def isBlankChar (c : Char) : Bool :=
  blankRanges.any fun r => r.1 ≤ c.toNat && c.toNat ≤ r.2

/-- Nothing is left of the text once white space is taken off its ends. -/
def isBlank (text : String) : Bool :=
  text.toList.all isBlankChar

end Arbor.Text
