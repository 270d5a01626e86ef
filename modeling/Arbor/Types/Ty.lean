import Arbor.Types.Primitive

/-!
# Structural types

A type is known by its shape alone. Two function types are the same when their parameters and
results are, pairwise; two object types are the same when they have the same field names and
every field has the same type in both, in whatever order the fields were declared.
-/

namespace Arbor

/-- A type. Object fields stand in the order of their declaration. -/
inductive Ty where
  | prim (primitive : Primitive)
  | fn (parameters : List Ty) (returns : Ty)
  | obj (fields : List (String × Ty))
  /-- A placeholder: no descriptor lowers to it and no constructor builds it. -/
  | list

namespace Ty

abbrev bool : Ty := .prim .bool

/-- The tag the host's type constructor is called with. -/
def tag : Ty → String
  | .prim p => p.name
  | .fn .. => "fn"
  | .obj _ => "obj"
  | .list => "list"

/-- The primitive type that a type is. -/
def primitive? : Ty → Option Primitive
  | .prim p => some p
  | _ => none

/-- Arithmetic is defined on the type. -/
def isNumeric (t : Ty) : Bool :=
  t.primitive?.any Primitive.isNumeric

mutual

/-- Structural equality. -/
def equiv : Ty → Ty → Bool
  | .prim p, .prim q => p == q
  | .fn ps r, .fn qs s => equivAll ps qs && r.equiv s
  | .obj fs, .obj gs => fs.length == gs.length && equivFields fs gs
  | .list, .list => true
  | _, _ => false

/-- Pairwise structural equality of lists of one length. -/
def equivAll : List Ty → List Ty → Bool
  | [], [] => true
  | t :: ts, u :: us => t.equiv u && equivAll ts us
  | _, _ => false

/-- Every field on the left is found on the right with an equal type. -/
def equivFields : List (String × Ty) → List (String × Ty) → Bool
  | [], _ => true
  | (name, t) :: rest, fields =>
    (match fields.lookup name with
      | some u => t.equiv u
      | none => false) && equivFields rest fields

end

mutual

/-- The type as people read it. -/
def display : Ty → String
  | .prim p => p.name
  | .fn parameters returns =>
    "fn(" ++ String.intercalate ", " (displayAll parameters) ++ ") -> " ++ returns.display
  | .obj [] => "obj \x7b\x7d"
  | .obj (field :: fields) =>
    "obj \x7b " ++ String.intercalate ", " (displayFields (field :: fields)) ++ " \x7d"
  | .list => "list"

/-- The types of a list, one by one. -/
def displayAll : List Ty → List String
  | [] => []
  | t :: ts => t.display :: displayAll ts

/-- The fields of an object type, one by one. -/
def displayFields : List (String × Ty) → List String
  | [] => []
  | (name, t) :: fields => (name ++ ": " ++ t.display) :: displayFields fields

end

end Ty

end Arbor
