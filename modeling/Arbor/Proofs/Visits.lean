import Mathlib.Logic.Relation
import Arbor.Compile.Artifact
import Arbor.Proofs.Checking
import Arbor.Proofs.EmitRun

/-!
# The visits of a compilation

The walk over a program is a tree of visits: each is the visit of a part in a scope, from a state
on, and calls the visits of parts of its own, one behind the other. `Visit.Calls` has one rule for
each place in which one visit calls another; a part is visited in the state that the parts before it
leave behind, and only if the checks before it went through. What is reached by calls from the whole
program is what a compilation visits.

A visit that has to do with types lowers descriptors (`Lowers`), asks for constructors (`Builds`)
and finds the types of expressions (`Derives`).
-/

namespace Arbor

/-- What is visited. -/
inductive Visited where
  | expression (node : Node)
  | statement (node : Node)
  | body (nodes : List Node)
  /-- The arguments of a call that are still to come, with the types of their parameters. -/
  | arguments (nodes : List Node) (types : List Ty)
  /-- The entries of an object, with the declared fields that are still to come. -/
  | entries (fields : List (String × Node)) (declared : List (String × Ty))

/-- A visit in a scope, from a state on. -/
structure Visit where
  part : Visited
  scope : Nat
  state : EmitState

/-- The visit of a body in a new scope. -/
def Visit.inside (kind : ScopeKind) (nodes : List Node) (scope : Nat) (state : EmitState) : Visit :=
  ⟨.body nodes, state.scopes.next, Emit.after ((Emit.openScope scope kind).run state)⟩

namespace Visit

open Emit

/-- One visit calls another. -/
inductive Calls : Visit → Visit → Prop where
  | first {node : Node} {rest : List Node} {scope : Nat} {state : EmitState} :
      Calls ⟨.body (node :: rest), scope, state⟩ ⟨.statement node, scope, state⟩
  | rest {node : Node} {rest : List Node} {scope : Nat} {state next : EmitState}
      {text : Option String} : (node.rendering.statement scope).run state = .ok text next →
      Calls ⟨.body (node :: rest), scope, state⟩ ⟨.body rest, scope, next⟩
  | expression {node : Node} {scope : Nat} {state : EmitState} : node.isExpression →
      Calls ⟨.statement node, scope, state⟩ ⟨.expression node, scope, state⟩
  | bind {name : String} {value : Node} {scope : Nat} {state : EmitState} : Host.isBindable name →
      Calls ⟨.statement (.bind name value), scope, state⟩ ⟨.expression value, scope, state⟩
  | assign {name : String} {value : Node} {scope : Nat} {state next : EmitState} {type : Ty} :
      (resolve scope name).run state = .ok type next →
      Calls ⟨.statement (.assign (.ident name) value), scope, state⟩
        ⟨.expression value, scope, next⟩
  | ret {value : Node} {scope : Nat} {state : EmitState} : state.scopes.inFunction scope →
      Calls ⟨.statement (.ret (some value)), scope, state⟩ ⟨.expression value, scope, state⟩
  | test {test : Node} {body : List Node} {otherwise : Option (List Node)} {scope : Nat}
      {state : EmitState} :
      Calls ⟨.statement (.branch test body otherwise), scope, state⟩
        ⟨.expression test, scope, state⟩
  | branch {test : Node} {body : List Node} {otherwise : Option (List Node)} {scope : Nat}
      {state next : EmitState} {text : String} :
      (condition test.rendering.expression .ifCondition scope).run state = .ok text next →
      Calls ⟨.statement (.branch test body otherwise), scope, state⟩
        (.inside .block body scope next)
  | otherwise {test : Node} {body otherwise : List Node} {scope : Nat}
      {state next last : EmitState} {text inner : String} :
      (condition test.rendering.expression .ifCondition scope).run state = .ok text next →
      (block (Rendering.body (renderings body)) scope).run next = .ok inner last →
      Calls ⟨.statement (.branch test body (some otherwise)), scope, state⟩
        (.inside .block otherwise scope last)
  | guard {test : Node} {body : List Node} {scope : Nat} {state : EmitState} :
      Calls ⟨.statement (.loop test body), scope, state⟩ ⟨.expression test, scope, state⟩
  | loop {test : Node} {body : List Node} {scope : Nat} {state next : EmitState} {text : String} :
      (condition test.rendering.expression .whileCondition scope).run state = .ok text next →
      Calls ⟨.statement (.loop test body), scope, state⟩ (.inside .block body scope next)
  | function {descriptor : Node} {parameters : List String} {body : List Node} {types : List Ty}
      {returns : Ty} {scope : Nat} {state next : EmitState} :
      descriptor.lower = .ok (.fn types returns) → parameters.length = types.length →
      (declareParameters state.scopes.next parameters types).run
        (after ((openScope scope .function).run state)) = .ok () next →
      Calls ⟨.expression (.literal descriptor none parameters body), scope, state⟩
        ⟨.body body, state.scopes.next, next⟩
  | object {descriptor : Node} {fields : List (String × Node)} {parameters : List String}
      {body : List Node} {declared : List (String × Ty)} {scope : Nat} {state : EmitState} :
      descriptor.lower = .ok (.obj declared) →
      (∀ f ∈ fields, (declared.lookup f.1).isSome) →
      Calls
        ⟨.expression (.literal descriptor (some (.fields fields)) parameters body), scope, state⟩
        ⟨.entries fields declared, scope, state⟩
  | entry {fields : List (String × Node)} {name : String} {expected : Ty}
      {rest : List (String × Ty)} {node : Node} {scope : Nat} {state : EmitState} :
      fields.lookup name = some node →
      Calls ⟨.entries fields ((name, expected) :: rest), scope, state⟩
        ⟨.expression node, scope, state⟩
  | entries {fields : List (String × Node)} {name : String} {expected : Ty}
      {rest : List (String × Ty)} {node : Node} {value : Emitted} {scope : Nat}
      {state next : EmitState} : fields.lookup name = some node →
      (node.rendering.expression scope).run state = .ok value next → expected.equiv value.type →
      Calls ⟨.entries fields ((name, expected) :: rest), scope, state⟩
        ⟨.entries fields rest, scope, next⟩
  | left {op : BinaryOp} {left right : Node} {scope : Nat} {state : EmitState} :
      Calls ⟨.expression (.binary op left right), scope, state⟩ ⟨.expression left, scope, state⟩
  | right {op : BinaryOp} {left right : Node} {value : Emitted} {scope : Nat}
      {state next : EmitState} : (left.rendering.expression scope).run state = .ok value next →
      Calls ⟨.expression (.binary op left right), scope, state⟩ ⟨.expression right, scope, next⟩
  | operand {op : UnaryOp} {operand : Node} {scope : Nat} {state : EmitState} :
      Calls ⟨.expression (.unary op operand), scope, state⟩ ⟨.expression operand, scope, state⟩
  | callee {callee : Node} {arguments : List Node} {scope : Nat} {state : EmitState} :
      Calls ⟨.expression (.call callee arguments), scope, state⟩ ⟨.expression callee, scope, state⟩
  | arguments {callee : Node} {arguments : List Node} {value : Emitted} {types : List Ty}
      {returns : Ty} {scope : Nat} {state next : EmitState} :
      (callee.rendering.expression scope).run state = .ok value next →
      value.type = .fn types returns → types.length = arguments.length →
      Calls ⟨.expression (.call callee arguments), scope, state⟩
        ⟨.arguments arguments types, scope, next⟩
  | argument {node : Node} {rest : List Node} {expected : Ty} {types : List Ty} {scope : Nat}
      {state : EmitState} :
      Calls ⟨.arguments (node :: rest) (expected :: types), scope, state⟩
        ⟨.expression node, scope, state⟩
  | others {node : Node} {rest : List Node} {expected : Ty} {types : List Ty} {value : Emitted}
      {scope : Nat} {state next : EmitState} :
      (node.rendering.expression scope).run state = .ok value next → expected.equiv value.type →
      Calls ⟨.arguments (node :: rest) (expected :: types), scope, state⟩
        ⟨.arguments rest types, scope, next⟩

/-- The visit lowers a descriptor. -/
inductive Lowers : Visit → Node → Prop where
  | literal {descriptor : Node} {payload : Option Payload} {parameters : List String}
      {body : List Node} {scope : Nat} {state : EmitState} :
      Lowers ⟨.expression (.literal descriptor payload parameters body), scope, state⟩ descriptor
  | payload {descriptor node : Node} {parameters : List String} {body : List Node} {scope : Nat}
      {state : EmitState} : descriptor.lower = .ok (.prim .type) →
      Lowers ⟨.expression (.literal descriptor (some (.node node)) parameters body), scope, state⟩
        node
  | new {target : Node} {scope : Nat} {state : EmitState} :
      Lowers ⟨.expression (.new target), scope, state⟩ target

/-- The visit asks for the constructor of a type: of a type that it lowered a descriptor to, or of
the type of an operation. -/
inductive Builds : Visit → Ty → Prop where
  | lowered {visit : Visit} {descriptor : Node} {type : Ty} : Lowers visit descriptor →
      descriptor.lower = .ok type → Builds visit type
  | binary {op : BinaryOp} {left right : Node} {value : Emitted} {scope : Nat}
      {state next : EmitState} : (left.rendering.expression scope).run state = .ok value next →
      accepts op value.type →
      Builds ⟨.expression (.binary op left right), scope, state⟩ (resultType op value.type)
  | unary {op : UnaryOp} {operand : Node} {value : Emitted} {scope : Nat}
      {state next : EmitState} : (operand.rendering.expression scope).run state = .ok value next →
      Builds ⟨.expression (.unary op operand), scope, state⟩ value.type

/-- The visit finds the type of an expression. -/
inductive Derives : Visit → Ty → Prop where
  | mk {node : Node} {value : Emitted} {scope : Nat} {state next : EmitState} :
      (node.rendering.expression scope).run state = .ok value next →
      Derives ⟨.expression node, scope, state⟩ value.type

end Visit

/-- The visit of a whole program. -/
def Program.visit (program : Program) : Visit :=
  ⟨.body program, ScopeTree.root, .initial⟩

/-- A compilation of the program comes to the visit. -/
def Program.Visits (program : Program) (visit : Visit) : Prop :=
  Relation.ReflTransGen Visit.Calls program.visit visit

end Arbor
