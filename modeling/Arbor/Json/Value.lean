import Arbor.Number.Binary64

/-!
# JSON values

Objects keep their members in order. A number is an integer where 64 bits hold it, signed or
unsigned, and a finite double otherwise.
-/

namespace Arbor

/-- An integer that a signed or an unsigned word of 64 bits holds. -/
structure WideInt where
  val : Int
  ge : -0x8000000000000000 ≤ val
  lt : val < 0x10000000000000000
deriving DecidableEq

/-- `n` if 64 bits hold it. -/
def WideInt.ofInt? (n : Int) : Option WideInt :=
  if h : -0x8000000000000000 ≤ n ∧ n < 0x10000000000000000 then some ⟨n, h.1, h.2⟩ else none

/-- A JSON value. -/
inductive Json where
  | null
  | bool (value : Bool)
  | int (value : WideInt)
  | float (value : Binary64)
  | str (text : String)
  | arr (items : List Json)
  | obj (members : List (String × Json))

end Arbor
