import Arbor.Compile.Artifact
import Arbor.Proofs.EmitRun
import Arbor.Proofs.NodeInduction
import Arbor.Proofs.Tables

/-!
# Look-ups and the order of names

Two readings of a tree. `Node.trace` lists the names that the walk looks up, each with the scope it
stands in and the scopes as they are at that moment; a part is read in the state that the emission
of the parts before it leaves behind. `Node.usage` needs no walk: it says which names a node takes
from around it, and whether any body inside uses a name from around it that the same body declares
at that statement or further down.
-/

namespace Arbor

/-- The nearest scope on the way outward that declares a name. -/
def ScopeTree.nearest? (tree : ScopeTree) (scope : Nat) (name : String) : Option Nat :=
  (tree.ancestors scope).find? fun id => (Fields.names (tree.symbols id)).contains name

/-- A name that is looked up from a scope, and the tree at that moment. -/
structure Lookup where
  scope : Nat
  name : String
  tree : ScopeTree

/-- The scope in which the name is found at that moment. -/
def Lookup.found? (lookup : Lookup) : Option Nat :=
  lookup.tree.nearest? lookup.scope lookup.name

/-- The look-ups of a step in a scope, from a state on. -/
abbrev Trace := Nat → EmitState → List Lookup

namespace Trace

def none : Trace := fun _ _ => []

def name (name : String) : Trace := fun scope state => [⟨scope, name, state.scopes⟩]

/-- The look-ups of two steps. The second starts where the first, which is `step`, ends. -/
def andThen {α : Type} (first : Trace) (step : Nat → Emit α) (second : Trace) : Trace :=
  fun scope state => first scope state ++ second scope (Emit.after ((step scope).run state))

/-- The look-ups of steps one behind the other. -/
def sequence {α : Type} : List (Trace × (Nat → Emit α)) → Trace
  | [] => none
  | (trace, step) :: rest => andThen trace step (sequence rest)

/-- The look-ups of a body in a new scope. -/
def block (body : Trace) : Trace := fun scope state =>
  body state.scopes.next (Emit.after ((Emit.openScope scope .block).run state))

/-- The look-ups of a function's body, behind the declaration of its parameters. -/
def function (parameters : List String) (types : List Ty) (body : Trace) : Trace :=
  fun scope state =>
    let opened := Emit.after ((Emit.openScope scope .function).run state)
    body state.scopes.next
      (Emit.after ((Emit.declareParameters state.scopes.next parameters types).run opened))

/-- Look-ups that are made inside of functions only. -/
def inFunction (trace : Trace) : Trace := fun scope state =>
  if state.scopes.inFunction scope then trace scope state else []

end Trace

mutual

/-- The names that the walk looks up on a node, in order. -/
def Node.trace : Node → Trace
  | .bind _ value => value.trace
  | .assign (.ident name) value =>
    .andThen (.name name) (fun scope => Emit.resolve scope name) value.trace
  | .assign _ _ => .none
  | .ret none => .none
  | .ret (some value) => .inFunction value.trace
  | .branch test body none =>
    .andThen test.trace (Emit.condition test.rendering.expression .ifCondition)
      (.block (bodyTrace body))
  | .branch test body (some otherwise) =>
    .andThen test.trace (Emit.condition test.rendering.expression .ifCondition)
      (.andThen (.block (bodyTrace body)) (Emit.block (Rendering.body (renderings body)))
        (.block (bodyTrace otherwise)))
  | .loop test body =>
    .andThen test.trace (Emit.condition test.rendering.expression .whileCondition)
      (.block (bodyTrace body))
  | .ident name => .name name
  | .literal type none parameters body =>
    match type.lower with
    | .ok (.fn types _) => .function parameters types (bodyTrace body)
    | _ => .none
  | .literal type (some payload) _ _ =>
    match type.lower with
    | .ok (.obj declared) => .sequence (declared.filterMap fun field => payload.traces.lookup field.1)
    | _ => .none
  | .binary _ left right => .andThen left.trace left.rendering.expression right.trace
  | .unary _ operand => operand.trace
  | .call callee arguments =>
    .andThen callee.trace callee.rendering.expression (.sequence (argumentTraces arguments))
  | _ => .none

/-- The look-ups of statements, in order. -/
def bodyTrace : List Node → Trace
  | [] => .none
  | node :: rest => .andThen node.trace node.rendering.statement (bodyTrace rest)

/-- The look-ups of each argument of a call, with the step that emits it. -/
def argumentTraces : List Node → List (Trace × (Nat → Emit Emitted))
  | [] => []
  | node :: rest => (node.trace, node.rendering.expression) :: argumentTraces rest

/-- The look-ups of each entry of a table, with the step that emits it. -/
def fieldTraces : List (String × Node) → List (String × Trace × (Nat → Emit Emitted))
  | [] => []
  | (name, node) :: rest => (name, node.trace, node.rendering.expression) :: fieldTraces rest

/-- The look-ups of each field of an object literal. -/
def Payload.traces : Payload → List (String × Trace × (Nat → Emit Emitted))
  | .fields fields => fieldTraces fields
  | _ => []

end

/-- The names that the walk looks up in a program, in order. -/
def Program.lookups (program : Program) : List Lookup :=
  bodyTrace program ScopeTree.root .initial

/-- Which names are used, and whether they are used in an order the host agrees with. -/
structure Usage where
  /-- The names that are taken from around. -/
  free : List String
  /-- No body inside declares, at a statement or behind it, a name the statement takes from
  around. -/
  ordered : Bool

namespace Usage

def none : Usage := ⟨[], true⟩

def name (name : String) : Usage := ⟨[name], true⟩

def append (first second : Usage) : Usage :=
  ⟨first.free ++ second.free, first.ordered && second.ordered⟩

def sequence : List Usage → Usage
  | [] => none
  | usage :: rest => usage.append (sequence rest)

/-- The usage below the declaration of names. -/
def below (names : List String) (usage : Usage) : Usage :=
  ⟨usage.free.filter fun name => !names.contains name, usage.ordered⟩

/-- The usage of a statement at which and behind which its body declares names. -/
def above (names : List String) (usage : Usage) : Usage :=
  ⟨usage.free, usage.ordered && usage.free.all fun name => !names.contains name⟩

@[simp] theorem free_append (first second : Usage) :
    (first.append second).free = first.free ++ second.free := rfl

@[simp] theorem ordered_append {first second : Usage} :
    (first.append second).ordered ↔ first.ordered ∧ second.ordered := by
  simp [append]

@[simp] theorem below_nil (usage : Usage) : usage.below [] = usage := by
  rw [below, List.filter_eq_self.mpr (by simp)]

@[simp] theorem mem_free_below {names : List String} {usage : Usage} {name : String} :
    name ∈ (usage.below names).free ↔ name ∈ usage.free ∧ name ∉ names := by
  simp [below]

@[simp] theorem ordered_below (names : List String) (usage : Usage) :
    (usage.below names).ordered = usage.ordered := rfl

@[simp] theorem free_above (names : List String) (usage : Usage) :
    (usage.above names).free = usage.free := rfl

@[simp] theorem ordered_above {names : List String} {usage : Usage} :
    (usage.above names).ordered ↔ usage.ordered ∧ ∀ name ∈ usage.free, name ∉ names := by
  simp [above]

end Usage

/-- The names that a statement declares in the scope it stands in. -/
def Node.declared : Node → List String
  | .bind name _ => [name]
  | _ => []

mutual

/-- The usage of a node, inside or outside of functions. -/
def Node.usage (inFunction : Bool) : Node → Usage
  | .bind _ value => value.usage inFunction
  | .assign (.ident name) value => (Usage.name name).append (value.usage inFunction)
  | .assign _ _ => .none
  | .ret none => .none
  | .ret (some value) => if inFunction then value.usage inFunction else .none
  | .branch test body none => (test.usage inFunction).append (bodyUsage inFunction body)
  | .branch test body (some otherwise) =>
    (test.usage inFunction).append
      ((bodyUsage inFunction body).append (bodyUsage inFunction otherwise))
  | .loop test body => (test.usage inFunction).append (bodyUsage inFunction body)
  | .ident name => .name name
  | .literal type none parameters body =>
    match type.lower with
    | .ok (.fn ..) => (bodyUsage true body).below parameters
    | _ => .none
  | .literal type (some payload) _ _ =>
    match type.lower with
    | .ok (.obj declared) =>
      .sequence (declared.filterMap fun field => (payload.usages inFunction).lookup field.1)
    | _ => .none
  | .binary _ left right => (left.usage inFunction).append (right.usage inFunction)
  | .unary _ operand => operand.usage inFunction
  | .call callee arguments =>
    (callee.usage inFunction).append (.sequence (usages inFunction arguments))
  | _ => .none

/-- The usage of the statements of a body. -/
def bodyUsage (inFunction : Bool) : List Node → Usage
  | [] => .none
  | node :: rest =>
    ((node.usage inFunction).above ((node :: rest).flatMap Node.declared)).append
      ((bodyUsage inFunction rest).below node.declared)

/-- The usages of nodes, one by one. -/
def usages (inFunction : Bool) : List Node → List Usage
  | [] => []
  | node :: rest => node.usage inFunction :: usages inFunction rest

/-- The usages of the entries of a table. -/
def fieldUsages (inFunction : Bool) : List (String × Node) → List (String × Usage)
  | [] => []
  | (name, node) :: rest => (name, node.usage inFunction) :: fieldUsages inFunction rest

/-- The usages of the fields of an object literal. -/
def Payload.usages (inFunction : Bool) : Payload → List (String × Usage)
  | .fields fields => fieldUsages inFunction fields
  | _ => []

end

theorem argumentTraces_eq_map (nodes : List Node) :
    argumentTraces nodes = nodes.map fun n => (n.trace, n.rendering.expression) := by
  induction nodes with
  | nil => rfl
  | cons node rest ih => rw [argumentTraces, ih, List.map_cons]

theorem fieldTraces_eq_map (fields : List (String × Node)) :
    fieldTraces fields = fields.map fun f => (f.1, f.2.trace, f.2.rendering.expression) := by
  induction fields with
  | nil => rfl
  | cons field rest ih =>
    obtain ⟨name, node⟩ := field
    rw [fieldTraces, ih, List.map_cons]

theorem usages_eq_map (inFunction : Bool) (nodes : List Node) :
    usages inFunction nodes = nodes.map fun n => n.usage inFunction := by
  induction nodes with
  | nil => rfl
  | cons node rest ih => rw [usages, ih, List.map_cons]

theorem fieldUsages_eq_map (inFunction : Bool) (fields : List (String × Node)) :
    fieldUsages inFunction fields = fields.map fun f => (f.1, f.2.usage inFunction) := by
  induction fields with
  | nil => rfl
  | cons field rest ih =>
    obtain ⟨name, node⟩ := field
    rw [fieldUsages, ih, List.map_cons]

/-- No body of the program uses a name from around it that it declares at that statement or further
down. -/
def Program.Ordered (program : Program) : Prop :=
  (bodyUsage false program).ordered

instance (program : Program) : Decidable program.Ordered :=
  inferInstanceAs (Decidable (_ = true))

end Arbor
