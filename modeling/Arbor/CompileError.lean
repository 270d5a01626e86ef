import Arbor.Tree.Inspect
import Arbor.Types.Ty

/-!
# Compile errors

Why a program that was read is not compiled, and the sentence that reports it. Every one of
these ends the compilation; nothing is emitted next to an error.
-/

namespace Arbor

/-- The place of a type that does not match the one it is held against. -/
inductive Site where
  | assignment (name : String)
  | ifCondition
  | whileCondition
  | operands (op : BinaryOp)
  /-- The argument of a call, counted from one. -/
  | argument (position : Nat)
  | field (name : String)
deriving DecidableEq

/-- The place as reported. -/
def Site.text : Site → String
  | .assignment name => "assignment to " ++ name
  | .ifCondition => "if condition"
  | .whileCondition => "while condition"
  | .operands op => "operands of '" ++ op.symbol ++ "'"
  | .argument position => "argument " ++ Text.decimal position ++ " of call"
  | .field name => "field '" ++ name ++ "'"

/-- What a type descriptor may ask for and does not get. -/
inductive Unsupported where
  | namedType (name : String)
  | listTypes
deriving DecidableEq

/-- The missing feature as reported. -/
def Unsupported.text : Unsupported → String
  | .namedType name => "named type '" ++ name ++ "'"
  | .listTypes => "list types"

/-- What is wrong with a type descriptor. -/
inductive DescriptorFault where
  /-- A node of another kind stands in its place. -/
  | notDescriptor (kind : String)
  | missingReturn
  | unknownTag (name : String)
deriving DecidableEq

/-- The fault as reported. -/
def DescriptorFault.text : DescriptorFault → String
  | .notDescriptor kind => "expected a type descriptor but got a '" ++ kind ++ "' node"
  | .missingReturn => "fn type is missing its return type"
  | .unknownTag name => "invalid builtin type: " ++ name

/-- What is wrong with a literal. -/
inductive LiteralFault where
  | unexpectedPayload (payload : Payload)
  | missingPayload
  /-- The payload does not belong to the type its descriptor lowered to. -/
  | foreignPayload
  | parameterCount (names types : Nat)
  | undeclaredField (name : String)
  | missingField (name : String)

/-- The fault as reported. -/
def LiteralFault.text : LiteralFault → String
  | .unexpectedPayload payload => "unexpected payload " ++ payload.inspect
  | .missingPayload => "missing payload"
  | .foreignPayload => "payload does not match its declared type"
  | .parameterCount names types =>
    Text.decimal names ++ " parameter names for " ++ Text.decimal types ++ " parameter types"
  | .undeclaredField name => "field '" ++ name ++ "' is not declared by the object type"
  | .missingField name => "missing a value for field '" ++ name ++ "'"

/-- The ways in which a program fails to compile. -/
inductive CompileError where
  | noProgramLoaded
  /-- A name that no enclosing scope declares is used. -/
  | undefinedVariable (name : String)
  /-- A name that no enclosing scope declares is looked up. -/
  | undefinedSymbol (name : String)
  | invalidName (name : String)
  | duplicateDeclaration (name : String)
  /-- A node stands where nodes of its kind have no meaning. -/
  | unhandledKind (kind : String)
  | unsupportedTarget (kind : String)
  | typeMismatch (expected found : Ty) (site : Site)
  | unsupportedFeature (feature : Unsupported)
  | invalidDescriptor (fault : DescriptorFault)
  | malformedLiteral (tag : String) (fault : LiteralFault)
  | invalidOperand (operator : String) (type : Ty)
  | notCallable (type : Ty)
  | arityMismatch (expected found : Nat)

/-- The reported sentence. -/
def CompileError.message : CompileError → String
  | noProgramLoaded => "no program is loaded"
  | undefinedVariable name => "undefined variable: " ++ name
  | undefinedSymbol name => "undefined symbol: " ++ name
  | invalidName name => "'" ++ name ++ "' cannot be used as a binding name"
  | duplicateDeclaration name => "'" ++ name ++ "' is already declared in this scope"
  | unhandledKind kind => "unhandled node kind: " ++ kind
  | unsupportedTarget kind => kind ++ " is not valid as an assignment target"
  | typeMismatch expected found site =>
    "type mismatch in " ++ site.text ++ ": expected " ++ expected.display ++ ", found "
      ++ found.display
  | unsupportedFeature feature => "unsupported feature: " ++ feature.text
  | invalidDescriptor fault => "invalid type descriptor: " ++ fault.text
  | malformedLiteral tag fault => "malformed " ++ tag ++ " literal: " ++ fault.text
  | invalidOperand operator type =>
    "operator '" ++ operator ++ "' cannot be applied to " ++ type.display
  | notCallable type => "a value of type " ++ type.display ++ " is not callable"
  | arityMismatch expected found =>
    "function expects " ++ Text.decimal expected ++ " arguments but received "
      ++ Text.decimal found

end Arbor
