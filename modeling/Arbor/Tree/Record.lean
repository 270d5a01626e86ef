import Arbor.Tree.ShapeError

/-!
# Records

A record is a fixed sequence of named fields, read either from the members of an object or from
an array that gives the fields in order. Records are put together field by field with `<$>` and
`<*>`.

From an object, the members that are fields are first looked at in the order in which they
stand, and the first one of a wrong shape is the error; members that are not fields are passed
over. Only then are missing fields reported, in the order of the record.
-/

namespace Arbor

/-- How to read an `α` from fields of type `ρ`. -/
structure Record (ρ α : Type) where
  /-- The number of fields. -/
  size : Nat
  /-- Whether the member of this name has the shape of its field. -/
  check : String → ρ → Except ShapeError Unit
  /-- The fields by name. -/
  ofMembers : List (String × ρ) → Except ShapeError α
  /-- The fields in order, and what follows them; the first argument reports a field that is
  not there. -/
  ofItems : ShapeError → List ρ → Except ShapeError (α × List ρ)

namespace Record

variable {ρ α β : Type}

/-- The record of one field. Without a default the field has to be there. -/
def field (name : String) (read : ρ → Except ShapeError α) (default : Option α) : Record ρ α where
  size := 1
  check n r := if n = name then (read r).map fun _ => () else .ok ()
  ofMembers members :=
    match members.lookup name, default with
    | some r, _ => read r
    | none, some a => .ok a
    | none, none => .error (.missingField name)
  ofItems short items :=
    match items, default with
    | r :: rest, _ => (read r).map fun a => (a, rest)
    | [], some a => .ok (a, [])
    | [], none => .error short

/-- A field that has to be there. -/
def required (name : String) (read : ρ → Except ShapeError α) : Record ρ α :=
  field name read none

/-- The record without fields. -/
def nil (a : α) : Record ρ α where
  size := 0
  check _ _ := .ok ()
  ofMembers _ := .ok a
  ofItems _ items := .ok (a, items)

/-- The fields of one record before those of another. -/
def append (f : Record ρ (α → β)) (x : Record ρ α) : Record ρ β where
  size := f.size + x.size
  check name r := do f.check name r; x.check name r
  ofMembers members := do
    let g ← f.ofMembers members
    let a ← x.ofMembers members
    .ok (g a)
  ofItems short items := do
    let (g, items) ← f.ofItems short items
    let (a, items) ← x.ofItems short items
    .ok (g a, items)

instance : Applicative (Record ρ) where
  pure := nil
  seq f x := append f (x ())

/-- The record read from the members of an object. -/
def readObject (record : Record ρ α) (members : List (String × ρ)) : Except ShapeError α := do
  members.forM fun member => record.check member.1 member.2
  record.ofMembers members

/-- The record of the given title read from an array. -/
def readArray (record : Record ρ α) (title : String) (items : List ρ) : Except ShapeError α := do
  let (a, rest) ← record.ofItems (.tooShort items.length title record.size) items
  if rest.isEmpty then .ok a else .error (.tooLong items.length record.size)

end Record

end Arbor
