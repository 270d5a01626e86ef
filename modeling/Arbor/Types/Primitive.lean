/-!
# Primitive types

The types that are not built from others. Types are values too, so `type` is one of them.
-/

namespace Arbor

/-- A primitive type. -/
inductive Primitive where
  | int
  | float
  | bool
  | str
  | null
  | type
deriving DecidableEq

namespace Primitive

/-- The name under which the host runtime keeps the type. -/
def name : Primitive → String
  | int => "int"
  | float => "float"
  | bool => "bool"
  | str => "str"
  | null => "null"
  | type => "type"

/-- Every primitive type. -/
def all : List Primitive :=
  [int, float, bool, str, null, type]

/-- The primitive type of a name. -/
def ofName? (name : String) : Option Primitive :=
  all.find? fun p => p.name == name

/-- Arithmetic is defined on the type. -/
def isNumeric : Primitive → Bool
  | int => true
  | float => true
  | _ => false

theorem ofName?_name (p : Primitive) : ofName? p.name = some p := by
  cases p <;> decide

end Primitive

end Arbor
