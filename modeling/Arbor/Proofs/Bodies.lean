import Arbor.Emit.Rendering
import Arbor.Proofs.Lookups
import Arbor.Proofs.ScopeGrowth

/-!
# The bodies of a program

A program as the tree of its bodies, read off the syntax alone: the program itself, the bodies of
branches and loops, and the bodies of function literals, in the order in which a reader from left
to right meets them. A reader needs to know where it is (`Place`): the frames around, because the
type of a `let` depends on them, and two numbers, because scopes are numbered as they are met.

`Node.derived` is the type that an expression has if it has one. It looks at descriptors and at
names and checks nothing.
-/

namespace Arbor

@[simp] theorem Frames.extend_extend (first last : List (String × Ty)) (frames : Frames) :
    (frames.extend first).extend last = frames.extend (first ++ last) := by
  cases frames <;> simp [Frames.extend]

/-- The type of an expression in its frames, if it has one. -/
def Node.derived (frames : Frames) : Node → Option Ty
  | .ident name => frames.type? name
  | .literal descriptor .. => descriptor.lower.toOption
  | .new target => target.lower.toOption
  | .binary op left _ => (left.derived frames).map (Emit.resultType op)
  | .unary _ operand => operand.derived frames
  | .call callee _ =>
    match callee.derived frames with
    | some (.fn _ result) => some result
    | _ => none
  | _ => none

/-- The names that a statement declares in the scope it stands in, with their types. -/
def Node.symbols (frames : Frames) : Node → List (String × Ty)
  | .bind name value => (value.derived frames).toList.map fun type => (name, type)
  | _ => []

/-- The names that the statements of a body declare in its scope, in order, with their types. -/
def bodySymbols (frames : Frames) : List Node → List (String × Ty)
  | [] => []
  | node :: rest => node.symbols frames ++ bodySymbols (frames.extend (node.symbols frames)) rest

/-- What a body is the body of. -/
inductive BodyKind where
  | root
  /-- A branch or a loop. -/
  | block
  /-- A function with these parameters and this declared result. -/
  | function (parameters : List (String × Ty)) (result : Ty)

namespace BodyKind

/-- The frame in which the statements of the body start. -/
def frame : BodyKind → Frame
  | .root => ⟨[], false⟩
  | .block => ⟨[], false⟩
  | .function parameters _ => ⟨parameters, true⟩

/-- The kind of the body's scope. -/
def scopeKind : BodyKind → ScopeKind
  | .root => .root
  | .block => .block
  | .function .. => .function

/-- The declared result, if the body is that of a function. -/
def result? : BodyKind → Option Ty
  | .function _ result => some result
  | _ => none

end BodyKind

/-- A body, where it stands. -/
structure Body where
  kind : BodyKind
  /-- The number of the scope around it. -/
  parent : Option Nat
  /-- The frames around it. -/
  frames : Frames
  statements : List Node

namespace Body

/-- The frames in which the first statement stands. -/
def inner (body : Body) : Frames :=
  body.kind.frame :: body.frames

/-- The scope of the body: its parameters and then what its own statements declare. -/
def scope (body : Body) : Scope where
  symbols := body.kind.frame.symbols ++ bodySymbols body.inner body.statements
  parent := body.parent
  kind := body.kind.scopeKind

end Body

/-- Where a node is met. -/
structure Place where
  /-- The frames around it. -/
  frames : Frames
  /-- The number of the scope it stands in. -/
  scope : Nat
  /-- The number of the next scope to be opened. -/
  next : Nat

namespace Place

/-- The place behind bodies that have been met. -/
def past (place : Place) (bodies : List Body) : Place :=
  { place with next := place.next + bodies.length }

/-- The place behind the declaration of names. -/
def behind (place : Place) (added : List (String × Ty)) : Place :=
  { place with frames := place.frames.extend added }

/-- The place of the first statement of a body that opens here. -/
def inside (place : Place) (frame : Frame) : Place :=
  ⟨frame :: place.frames, place.next, place.next + 1⟩

@[simp] theorem behind_nil (place : Place) : place.behind [] = place := by
  simp [behind]

end Place

/-- The bodies inside of a part, in order, given where the part stands. -/
abbrev Outline := Place → List Body

namespace Outline

def none : Outline := fun _ => []

/-- The bodies of one part and then of another. -/
def andThen (first last : Outline) : Outline := fun place =>
  first place ++ last (place.past (first place))

/-- The bodies of parts one behind the other. -/
def sequence : List Outline → Outline
  | [] => none
  | outline :: rest => andThen outline (sequence rest)

/-- A body and then those inside of it. -/
def body (kind : BodyKind) (statements : List Node) (inside : Outline) : Outline := fun place =>
  ⟨kind, some place.scope, place.frames, statements⟩ :: inside (place.inside kind.frame)

/-- The bodies of a part that is left out outside of functions. -/
def inFunction (outline : Outline) : Outline := fun place =>
  if place.frames.inFunction then outline place else []

end Outline

mutual

/-- The bodies inside of a node. The fields of an object come in the order of its type. -/
def Node.outline : Node → Outline
  | .bind _ value => value.outline
  | .assign _ value => value.outline
  | .ret none => .none
  | .ret (some value) => .inFunction value.outline
  | .branch test body none => .andThen test.outline (.body .block body (bodyOutline body))
  | .branch test body (some otherwise) =>
    .andThen test.outline (.andThen (.body .block body (bodyOutline body))
      (.body .block otherwise (bodyOutline otherwise)))
  | .loop test body => .andThen test.outline (.body .block body (bodyOutline body))
  | .literal type none parameters body =>
    match type.lower with
    | .ok (.fn types result) =>
      .body (.function (parameters.zip types) result) body (bodyOutline body)
    | _ => .none
  | .literal type (some payload) _ _ =>
    match type.lower with
    | .ok (.obj declared) =>
      .sequence (declared.filterMap fun field => payload.outlines.lookup field.1)
    | _ => .none
  | .binary _ left right => .andThen left.outline right.outline
  | .unary _ operand => operand.outline
  | .call callee arguments => .andThen callee.outline (.sequence (outlines arguments))
  | _ => .none

/-- The bodies inside of statements. Each is met behind what those before it declare. -/
def bodyOutline : List Node → Outline
  | [] => .none
  | node :: rest => fun place =>
    node.outline place ++
      bodyOutline rest ((place.past (node.outline place)).behind (node.symbols place.frames))

/-- The bodies inside of expressions, one by one. -/
def outlines : List Node → List Outline
  | [] => []
  | node :: rest => node.outline :: outlines rest

/-- The bodies inside of the entries of a table. -/
def fieldOutlines : List (String × Node) → List (String × Outline)
  | [] => []
  | (name, node) :: rest => (name, node.outline) :: fieldOutlines rest

/-- The bodies inside of the fields of an object literal. -/
def Payload.outlines : Payload → List (String × Outline)
  | .fields fields => fieldOutlines fields
  | _ => []

end

theorem outlines_eq_map (nodes : List Node) : outlines nodes = nodes.map Node.outline := by
  induction nodes with
  | nil => rfl
  | cons node rest ih => rw [outlines, ih, List.map_cons]

theorem fieldOutlines_eq_map (fields : List (String × Node)) :
    fieldOutlines fields = fields.map fun field => (field.1, field.2.outline) := by
  induction fields with
  | nil => rfl
  | cons field rest ih =>
    obtain ⟨name, node⟩ := field
    rw [fieldOutlines, ih, List.map_cons]

/-- All bodies of a program, the program itself first. -/
def Program.bodies (program : Program) : List Body :=
  ⟨.root, none, [], program⟩ :: bodyOutline program ⟨[BodyKind.root.frame], ScopeTree.root, 1⟩

/-- A function in a condition, a body behind it, and a function in an object in that body. -/
def Program.nested : Program :=
  let bool : Node := .type (.prim .bool) none [] none []
  let nullary : Node := .type .fn none [] (some bool) []
  let unary : Node := .type .fn none [bool] (some bool) []
  let holder : Node := .literal (.type .obj none [] none [("f", unary)])
    (some (.fields [("f", .literal unary none ["x"] [.bind "y" (.ident "x")])])) [] []
  [.bind "a" (.new bool),
   .branch (.call (.literal nullary none [] []) []) [.bind "b" holder] none]

/-- Numbers go in the order in which bodies open, and a parent is the body around. -/
example : Program.nested.bodies.map
    (fun body => (body.parent, body.scope.kind, Fields.names body.scope.symbols)) =
      [(none, .root, ["a"]), (some 0, .function, []), (some 0, .block, ["b"]),
        (some 2, .function, ["x", "y"])] := by
  decide

end Arbor
