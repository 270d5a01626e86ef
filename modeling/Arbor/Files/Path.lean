/-!
# Paths

A path is a text of segments divided by slashes. Empty segments and the segment `.` lead
nowhere and do not count, except for a `.` at the very beginning.
-/

namespace Arbor.Path

/-- The segments between the slashes of a text. -/
def segmentsOf : List Char → List (List Char)
  | [] => [[]]
  | c :: rest =>
    if c = '/' then [] :: segmentsOf rest
    else match segmentsOf rest with
      | [] => [[c]]
      | segment :: others => (c :: segment) :: others

/-- The segments between the slashes of a path. -/
def segments (path : String) : List String :=
  (segmentsOf path.toList).map String.ofList

/-- The path begins at the root. -/
def isAbsolute (path : String) : Bool :=
  path.toList.head? == some '/'

/-- The path ends in a slash. -/
def endsInSlash (path : String) : Bool :=
  path.toList.getLast? == some '/'

/-- The segment does not lead anywhere. -/
def isIdle (segment : String) : Bool :=
  segment = "" || segment = "."

/-- Segments, last first, without the idle ones that come last. The first segment of a path
stays. -/
def trim : List String → List String
  | [] => []
  | [first] => [first]
  | segment :: rest => if isIdle segment then trim rest else segment :: rest

/-- The path without its last segment that counts, if it has one. -/
def parent? (path : String) : Option String :=
  if path = "" then none
  else
    match trim (segments path).reverse with
    | [] => none
    | _ :: before =>
      if isAbsolute path then
        match trim before with
        | [] => none
        | [_] => some "/"
        | before => some (String.intercalate "/" before.reverse)
      else some (String.intercalate "/" (trim before).reverse)

/-- The path, its parent, the parent of that and so on; `count` bounds how many. -/
def ancestors : Nat → String → List String
  | 0, path => [path]
  | count + 1, path =>
    path :: match parent? path with
      | some parent => ancestors count parent
      | none => []

end Arbor.Path
