import Arbor.CompileError

/-!
# Type descriptors

The type that a type descriptor stands for. A tag decides which parts of its descriptor count;
the others are not looked at.
-/

namespace Arbor.Node

/-- The tag of a node that is a type descriptor. -/
def descriptorTag : Node → Except CompileError Tag
  | .type tag .. => .ok tag
  | node => .error (.invalidDescriptor (.notDescriptor node.kind))

mutual

/-- The type a node describes. -/
def lower : Node → Except CompileError Ty
  | .type _ (some name) _ _ _ => .error (.unsupportedFeature (.namedType name))
  | .type (.prim p) none _ _ _ => .ok (.prim p)
  | .type .fn none parameters returns _ => do
    let parameters ← lowerAll parameters
    match returns with
    | none => .error (.invalidDescriptor .missingReturn)
    | some returns => .ok (.fn parameters (← returns.lower))
  | .type .obj none _ _ fields => do .ok (.obj (← lowerFields fields))
  | .type .list none _ _ _ => .error (.unsupportedFeature .listTypes)
  | .type (.unknown name) none _ _ _ => .error (.invalidDescriptor (.unknownTag name))
  | node => .error (.invalidDescriptor (.notDescriptor node.kind))

/-- The types that nodes describe, one by one. -/
def lowerAll : List Node → Except CompileError (List Ty)
  | [] => .ok []
  | node :: rest => do
    let type ← node.lower
    .ok (type :: (← lowerAll rest))

/-- The types of the fields of an object type, one by one. -/
def lowerFields : List (String × Node) → Except CompileError (List (String × Ty))
  | [] => .ok []
  | (name, node) :: rest => do
    let type ← node.lower
    .ok ((name, type) :: (← lowerFields rest))

end

end Arbor.Node
