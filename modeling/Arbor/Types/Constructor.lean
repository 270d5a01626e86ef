import Arbor.CompileError
import Arbor.Host

/-!
# Type constructors

The host expression that builds a type. Primitive types come from the runtime's table; the
others are built from their parts.
-/

namespace Arbor.Ty

mutual

/-- The host expression that builds the type. -/
def constructor : Ty → Except CompileError String
  | .prim p => .ok (Host.runtimeName ++ ".type.PRIMITIVES[\"" ++ p.name ++ "\"]")
  | .fn parameters returns => do
    let parameters ← constructors parameters
    let returns ← returns.constructor
    .ok ("new " ++ Host.runtimeName ++ ".type(\"fn\", \x7b parameters: ["
      ++ String.intercalate "," parameters ++ "], returns: " ++ returns ++ "\x7d)")
  | .obj fields => do
    let fields ← fieldConstructors fields
    .ok ("new " ++ Host.runtimeName ++ ".type(\"obj\", \x7b" ++ fields ++ "\x7d)")
  | .list => .error (.unsupportedFeature .listTypes)

/-- The host expressions that build the types of a list. -/
def constructors : List Ty → Except CompileError (List String)
  | [] => .ok []
  | type :: rest => do
    let text ← type.constructor
    .ok (text :: (← constructors rest))

/-- The entries of a host object, one for each field. -/
def fieldConstructors : List (String × Ty) → Except CompileError String
  | [] => .ok ""
  | (name, type) :: rest => do
    let text ← type.constructor
    .ok (Text.quote name ++ ": " ++ text ++ "," ++ (← fieldConstructors rest))

end

end Arbor.Ty
