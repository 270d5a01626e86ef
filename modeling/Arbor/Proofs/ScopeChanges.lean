import Arbor.Compile.Artifact
import Arbor.Proofs.Constructible
import Arbor.Proofs.EmitRun
import Arbor.Proofs.NodeInduction
import Arbor.Proofs.ScopeGrowth
import Arbor.Proofs.Tables

/-!
# A compilation as a sequence of changes

All that the walk ever does to the scopes is to open one inside of another and to declare a name in
one. `Node.changes` lists what it does on a node, one change behind the other, up to the end of the
walk or up to the error that stops it; which steps take place is read off the runs of the steps
before them. So the moments of a compilation are the trees that the first few changes of a program
lead to.

`Node.performed` says that the changes are those of the walk: from any state they lead to the tree
that the walk leaves behind, whether it goes through or fails, and each of them is allowed in the
tree it is made in. An invariant of scopes is shown once for each kind of change and then holds at
every moment.
-/

namespace Arbor

/-- A change of the scopes. -/
inductive ScopeChange where
  | opened (parent : Nat) (kind : ScopeKind)
  | declared (scope : Nat) (name : String) (type : Ty)

namespace ScopeChange

/-- The tree behind the change. A declaration that is refused changes nothing. -/
def apply (tree : ScopeTree) : ScopeChange → ScopeTree
  | opened parent kind => tree.push parent kind
  | declared scope name type => (tree.declare scope name type).toOption.getD tree

/-- The change is about a scope of the tree, and a name is declared only if the host takes it for a
name and the scope does not have it. -/
def Allowed (tree : ScopeTree) : ScopeChange → Prop
  | opened parent _ => parent < tree.next
  | declared scope name _ =>
    scope < tree.next ∧ Host.isBindable name ∧ name ∉ Fields.names (tree.symbols scope)

/-- A change takes no scope out. -/
theorem next_le_apply (tree : ScopeTree) (change : ScopeChange) :
    tree.next ≤ (change.apply tree).next := by
  cases change with
  | opened parent kind =>
    rw [apply, ScopeTree.next_push]
    omega
  | declared scope name type =>
    rw [apply]
    cases made : tree.declare scope name type with
    | ok after => exact (ScopeTree.Grows.declare made).next_le
    | error e => exact Nat.le_refl _

end ScopeChange

namespace ScopeTree

/-- The tree behind changes. -/
def replay (tree : ScopeTree) (changes : List ScopeChange) : ScopeTree :=
  changes.foldl ScopeChange.apply tree

/-- The changes lead from one tree to another, each allowed where it is made. -/
inductive Leads : ScopeTree → List ScopeChange → ScopeTree → Prop where
  | nil {tree : ScopeTree} : Leads tree [] tree
  | cons {tree last : ScopeTree} {change : ScopeChange} {rest : List ScopeChange} :
      change.Allowed tree → Leads (change.apply tree) rest last → Leads tree (change :: rest) last

variable {tree middle last : ScopeTree} {front back : List ScopeChange}

theorem declare_eq_ok {id : Nat} {name : String} {type : Ty} :
    tree.declare id name type = .ok last ↔ name ∉ Fields.names (tree.symbols id) ∧
      ⟨tree.scopes.modify id fun scope => scope.declare name type⟩ = last := by
  have taken : ((tree.symbols id).any fun entry => entry.1 == name) ↔
      name ∈ Fields.names (tree.symbols id) := by
    simp [Fields.names]
  unfold declare
  split
  · next again => simp [taken.mp again]
  · next fresh =>
    rw [taken] at fresh
    simp [fresh]

/-- A declaration adds its name behind the others of its scope and changes no other scope. -/
theorem symbols_declare {scope : Nat} {name : String} {type : Ty}
    (declared : tree.declare scope name type = .ok last) (h : scope < tree.next) (id : Nat) :
    last.symbols id = tree.symbols id ++ if id = scope then [(name, type)] else [] := by
  split
  · next own =>
    rw [own]
    exact (Grows.declare declared).symbols_eq h
  · next other =>
    obtain ⟨-, rfl⟩ := declare_eq_ok.mp declared
    simp [symbols, Array.getElem?_modify, Ne.symm other]

theorem mem_names_declare {scope id : Nat} {name other : String} {type : Ty}
    (declared : tree.declare scope name type = .ok last) (h : scope < tree.next) :
    other ∈ Fields.names (last.symbols id) ↔
      other ∈ Fields.names (tree.symbols id) ∨ id = scope ∧ other = name := by
  rw [symbols_declare declared h, Fields.names, List.map_append, List.mem_append]
  by_cases own : id = scope <;> simp [own, Fields.names]

namespace Leads

theorem append (first : tree.Leads front middle) (next : middle.Leads back last) :
    tree.Leads (front ++ back) last := by
  induction first with
  | nil => exact next
  | cons allowed _ ih => exact .cons allowed (ih next)

/-- The changes up to a moment lead to the tree at that moment. -/
theorem moment (leads : tree.Leads (front ++ back) last) : tree.Leads front (tree.replay front) := by
  induction front generalizing tree with
  | nil => exact .nil
  | cons change rest ih =>
    cases leads with
    | cons allowed leads => exact .cons allowed (ih leads)

/-- An invariant that every allowed change keeps is kept by changes in sequence. -/
theorem keep {inv : ScopeTree → Prop} (leads : tree.Leads front last)
    (step : ∀ {tree : ScopeTree} {change : ScopeChange}, change.Allowed tree → inv tree →
      inv (change.apply tree)) (start : inv tree) : inv last := by
  induction leads with
  | nil => exact start
  | cons allowed _ ih => exact ih (step allowed start)

theorem next_le (leads : tree.Leads front last) : tree.next ≤ last.next := by
  induction leads with
  | nil => exact Nat.le_refl _
  | cons _ _ ih => exact Nat.le_trans (ScopeChange.next_le_apply _ _) ih

end Leads

end ScopeTree

/-! ## The changes of a step -/

/-- The changes that a step in a scope makes, from a state on. -/
abbrev Changes := Nat → EmitState → List ScopeChange

namespace Changes

def none : Changes := fun _ _ => []

/-- The changes of a step that is taken only if a check goes through. -/
def given (p : Prop) [Decidable p] (changes : Changes) : Changes :=
  if p then changes else none

/-- The changes of two steps. The second is told what the first, which is `step`, comes to, starts
where it ends, and is not taken at all if it fails. -/
def andThen {α : Type} (first : Changes) (step : Nat → Emit α) (second : α → Changes) : Changes :=
  fun scope state => first scope state ++
    match (step scope).run state with
    | .ok a next => second a scope next
    | .error _ _ => []

/-- The changes of a step in a scope of its own. -/
def inside (kind : ScopeKind) (body : Changes) : Changes := fun scope state =>
  .opened scope kind ::
    body state.scopes.next (Emit.after ((Emit.openScope scope kind).run state))

def declare (name : String) (type : Ty) : Changes := fun scope state =>
  match (Emit.declare scope name type).run state with
  | .ok _ _ => [.declared scope name type]
  | .error _ _ => []

/-- The changes of a step that is taken inside of functions only. -/
def inFunction (changes : Changes) : Changes := fun scope state =>
  if state.scopes.inFunction scope then changes scope state else []

end Changes

/-- An expression inside of another: the step that emits it and the changes that the step makes. -/
structure Part where
  emit : Nat → Emit Emitted
  changes : Changes

namespace Changes

def arguments : List Part → List Ty → Changes
  | part :: rest, expected :: others =>
    andThen part.changes part.emit fun value =>
      given (expected.equiv value.type) (arguments rest others)
  | _, _ => none

def call (callee : Part) (args : List Part) : Changes :=
  andThen callee.changes callee.emit fun value =>
    match value.type with
    | .fn parameters _ => given (parameters.length = args.length) (arguments args parameters)
    | _ => none

def parameters : List String → List Ty → Changes
  | name :: names, type :: types =>
    given (Host.isBindable name)
      (andThen (declare name type) (fun scope => Emit.declare scope name type) fun _ =>
        parameters names types)
  | _, _ => none

def function (names : List String) (types : List Ty) (body : Changes) : Changes :=
  given (names.length = types.length) <| inside .function <|
    andThen (parameters names types) (fun scope => Emit.declareParameters scope names types) fun _ =>
      body

def entries (fields : List (String × Part)) : List (String × Ty) → Changes
  | [] => none
  | (name, expected) :: rest =>
    match fields.lookup name with
    | Option.none => none
    | some part =>
      andThen part.changes part.emit fun value =>
        given (expected.equiv value.type) (entries fields rest)

def object (fields : List (String × Part)) (declared : List (String × Ty)) : Changes :=
  given (fields.find? fun field => (declared.lookup field.1).isNone).isNone (entries fields declared)

/-- The changes of a literal: those of a function's body or of an object's fields. -/
def literal (parameters : List String) (body : Changes) (fields : List (String × Part)) :
    Except CompileError Ty → Option Payload → Changes
  | .ok (.fn types _), Option.none => function parameters types body
  | .ok (.obj declared), some (.fields _) => object fields declared
  | _, _ => none

def bind (name : String) (value : Part) : Changes :=
  given (Host.isBindable name) <|
    andThen value.changes value.emit fun value => declare name value.type

def assign (name : String) (value : Changes) : Changes :=
  andThen none (fun scope => Emit.resolve scope name) fun _ => value

/-- The changes of a body behind a condition. -/
def guarded (site : Site) (test : Part) (body : Changes) : Changes :=
  andThen test.changes (Emit.condition test.emit site) fun _ => body

def alternatives (body : Changes) (emit : Nat → Emit String) (otherwise : Changes) : Changes :=
  andThen (inside .block body) (Emit.block emit) fun _ => inside .block otherwise

end Changes

/-- The changes of a node in each place. -/
structure NodeChanges where
  expression : Changes
  statement : Changes

namespace NodeChanges

def none : NodeChanges := ⟨.none, .none⟩

def ofStatement (changes : Changes) : NodeChanges := ⟨.none, changes⟩

def ofExpression (changes : Changes) : NodeChanges := ⟨changes, changes⟩

end NodeChanges

mutual

/-- The changes that the walk makes on a node. -/
def Node.changes : Node → NodeChanges
  | .bind name value =>
    .ofStatement (.bind name ⟨value.rendering.expression, value.changes.expression⟩)
  | .assign (.ident name) value => .ofStatement (.assign name value.changes.expression)
  | .ret (some value) => .ofStatement (.inFunction value.changes.expression)
  | .branch test body none =>
    .ofStatement (.guarded .ifCondition ⟨test.rendering.expression, test.changes.expression⟩
      (.inside .block (bodyChanges body)))
  | .branch test body (some otherwise) =>
    .ofStatement (.guarded .ifCondition ⟨test.rendering.expression, test.changes.expression⟩
      (.alternatives (bodyChanges body) (Rendering.body (renderings body)) (bodyChanges otherwise)))
  | .loop test body =>
    .ofStatement (.guarded .whileCondition ⟨test.rendering.expression, test.changes.expression⟩
      (.inside .block (bodyChanges body)))
  | .literal type none parameters body =>
    .ofExpression (.literal parameters (bodyChanges body) [] type.lower none)
  | .literal type (some payload) parameters body =>
    .ofExpression (.literal parameters (bodyChanges body) payload.parts type.lower (some payload))
  | .binary _ left right =>
    .ofExpression (.andThen left.changes.expression left.rendering.expression fun _ =>
      right.changes.expression)
  | .unary _ operand => .ofExpression operand.changes.expression
  | .call callee arguments =>
    .ofExpression (.call ⟨callee.rendering.expression, callee.changes.expression⟩ (parts arguments))
  | _ => .none

/-- The changes of statements, one behind the other. -/
def bodyChanges : List Node → Changes
  | [] => .none
  | node :: rest => .andThen node.changes.statement node.rendering.statement fun _ => bodyChanges rest

/-- The nodes of a list as expressions inside of another. -/
def parts : List Node → List Part
  | [] => []
  | node :: rest => ⟨node.rendering.expression, node.changes.expression⟩ :: parts rest

/-- The nodes of a table as expressions inside of another. -/
def fieldParts : List (String × Node) → List (String × Part)
  | [] => []
  | (name, node) :: rest =>
    (name, ⟨node.rendering.expression, node.changes.expression⟩) :: fieldParts rest

/-- The fields of an object literal. -/
def Payload.parts : Payload → List (String × Part)
  | .fields fields => fieldParts fields
  | _ => []

end

/-- The node as an expression inside of another. -/
def Node.part (node : Node) : Part :=
  ⟨node.rendering.expression, node.changes.expression⟩

theorem parts_eq_map (nodes : List Node) : parts nodes = nodes.map Node.part := by
  induction nodes with
  | nil => rfl
  | cons node rest ih =>
    rw [parts, ih]
    rfl

theorem fieldParts_eq_map (fields : List (String × Node)) :
    fieldParts fields = fields.map fun field => (field.1, field.2.part) := by
  induction fields with
  | nil => rfl
  | cons field rest ih =>
    obtain ⟨name, node⟩ := field
    rw [fieldParts, ih]
    rfl

theorem Node.changes_literal (type : Node) (payload : Option Payload) (parameters : List String)
    (body : List Node) :
    (Node.literal type payload parameters body).changes =
      .ofExpression (.literal parameters (bodyChanges body)
        ((Payload.entries payload).map fun f => (f.1, f.2.part)) type.lower payload) := by
  cases payload with
  | none => rfl
  | some payload =>
    cases payload with
    | fields fields =>
      rw [Node.changes, Payload.parts, fieldParts_eq_map]
      rfl
    | _ => rfl

/-- The changes that the walk makes on a program, up to its end or to the error that stops it. -/
def Program.changes (program : Program) : List ScopeChange :=
  bodyChanges program ScopeTree.root .initial

/-! ## The walk makes these changes -/

open Emit

variable {α β : Type}

/-- The step leaves the scopes alone, even if it fails. -/
def Still (step : Emit α) : Prop :=
  ∀ state, (after (step.run state)).scopes = state.scopes

namespace Still

theorem pure (a : α) : Still (Pure.pure a) := fun _ => rfl

theorem throw (e : CompileError) : Still (MonadExcept.throw e : Emit α) := fun _ => rfl

theorem tell (event : Event) : Still (Emit.tell event) := fun _ => rfl

theorem ofExcept (value : Except CompileError α) : Still (Emit.ofExcept value) := by
  cases value with
  | ok a => exact .pure a
  | error e => exact .throw e

theorem ite {p : Prop} [Decidable p] {x y : Emit α} (yes : Still x) (no : Still y) :
    Still (if p then x else y) := by
  split
  · exact yes
  · exact no

theorem expectType (expected found : Ty) (site : Site) :
    Still (Emit.expectType expected found site) :=
  .ite (.pure ()) (.throw _)

theorem resolve (scope : Nat) (name : String) : Still (Emit.resolve scope name) := by
  intro state
  rw [resolve_run]
  cases state.scopes.lookup? scope name <;> rfl

theorem bind {x : Emit α} {f : α → Emit β} (first : Still x) (rest : ∀ a, Still (f a)) :
    Still (x >>= f) := by
  intro state
  have here := first state
  rw [bind_run]
  cases ran : x.run state with
  | ok a next =>
    rw [ran] at here
    exact (rest a next).trans here
  | error e next =>
    rw [ran] at here
    exact here

end Still

/-- From any state the changes lead to the tree that the step leaves behind, even if it fails. -/
def Performs (step : Nat → Emit α) (changes : Changes) : Prop :=
  ∀ (scope : Nat) (state : EmitState), scope < state.scopes.next →
    state.scopes.Leads (changes scope state) (after ((step scope).run state)).scopes

namespace Performs

variable {x : Nat → Emit α} {f : α → Nat → Emit β} {first : Changes} {next : α → Changes}

theorem still (still : ∀ scope, Still (x scope)) : Performs x .none := by
  intro scope state _
  rw [still scope state]
  exact .nil

theorem throw (e : CompileError) :
    Performs (fun _ => (MonadExcept.throw e : Emit α)) .none :=
  still fun _ => .throw e

theorem ite {p : Prop} [Decidable p] {e : CompileError} (yes : p → Performs x first) :
    Performs (fun scope => if p then x scope else MonadExcept.throw e) (.given p first) := by
  unfold Changes.given
  split
  · next holds => exact yes holds
  · exact .throw e

/-- Steps in sequence. The first may fail, and then its changes are all there are. -/
theorem bind (performs : Performs x first) (rest : ∀ a, Performs (f a) (next a)) :
    Performs (fun scope => x scope >>= fun a => f a scope) (.andThen first x next) := by
  intro scope state h
  have leads := performs scope state h
  dsimp only
  rw [Changes.andThen, bind_run]
  cases ran : (x scope).run state with
  | ok a middle =>
    rw [ran] at leads
    exact leads.append (rest a scope middle (Nat.lt_of_lt_of_le h leads.next_le))
  | error e middle =>
    rw [ran] at leads
    exact leads.append .nil

/-- What is done with the value of a step leaves the scopes alone. -/
theorem bind_still (performs : Performs x first) (still : ∀ a scope, Still (f a scope)) :
    Performs (fun scope => x scope >>= fun a => f a scope) first := by
  intro scope state h
  have leads := performs scope state h
  dsimp only
  rw [bind_run]
  cases ran : (x scope).run state with
  | ok a middle =>
    rw [ran] at leads
    dsimp only
    rw [still a scope middle]
    exact leads
  | error e middle =>
    rw [ran] at leads
    exact leads

theorem expectType (expected found : Ty) (site : Site) (performs : Performs x first) :
    Performs (fun scope => Emit.expectType expected found site >>= fun _ => x scope)
      (.given (expected.equiv found) first) := by
  unfold Emit.expectType Changes.given
  by_cases same : expected.equiv found
  · simp only [same, ↓reduceIte]
    exact performs
  · simp only [same]
    exact .throw _

theorem declare (name : String) (type : Ty) (valid : Host.isBindable name) :
    Performs (fun scope => Emit.declare scope name type) (.declare name type) := by
  intro scope state h
  dsimp only
  rw [Changes.declare, declare_run]
  cases made : state.scopes.declare scope name type with
  | error e => exact .nil
  | ok scopes =>
    have reached : (ScopeChange.declared scope name type).apply state.scopes = scopes := by
      rw [ScopeChange.apply, made]
      rfl
    exact .cons ⟨h, valid, (ScopeTree.declare_eq_ok.mp made).1⟩ (reached ▸ .nil)

theorem inside {body : Nat → Emit α} (kind : ScopeKind) (performs : Performs body first) :
    Performs (fun scope => openScope scope kind >>= body) (.inside kind first) := by
  intro scope state h
  dsimp only
  rw [bind_run, Changes.inside, openScope_run]
  have inner : state.scopes.next < (state.scopes.push scope kind).next := by simp
  exact .cons h (performs state.scopes.next ⟨_, _⟩ inner)

end Performs

/-- The expression makes the changes that are given for it. -/
def Part.Sound (part : Part) : Prop :=
  Performs part.emit part.changes

namespace Performs

variable {value test callee : Part} {body otherwise : Nat → Emit String} {within other : Changes}

/-! ### Expressions -/

theorem newValue (target : Node) : Performs (fun _ => Emit.newValue target) .none :=
  .still fun _ => (Still.ofExcept _).bind fun _ => (Still.tell _).bind fun _ =>
    (Still.ofExcept _).bind fun _ => .pure _

theorem binary (op : BinaryOp) {left right : Part} (first : left.Sound) (second : right.Sound) :
    Performs (Emit.binary op left.emit right.emit)
      (.andThen left.changes left.emit fun _ => right.changes) :=
  first.bind fun _ => second.bind_still fun _ _ => (Still.expectType _ _ _).bind fun _ =>
    .ite ((Still.ofExcept _).bind fun _ => .pure _) (.throw _)

theorem unary (op : UnaryOp) (sound : value.Sound) :
    Performs (Emit.unary op value.emit) value.changes :=
  bind_still sound fun _ _ => .ite ((Still.ofExcept _).bind fun _ => .pure _) (.throw _)

theorem arguments {parts : List Part} (sound : ∀ part ∈ parts, part.Sound) (types : List Ty)
    (position : Nat) :
    Performs (fun scope => Emit.arguments scope position (parts.map Part.emit) types)
      (.arguments parts types) := by
  induction parts generalizing types position with
  | nil => cases types <;> exact .still fun _ => .pure []
  | cons part rest ih =>
    cases types with
    | nil => exact .still fun _ => .pure []
    | cons expected others =>
      have performs := ih (fun part member => sound part (by simp [member])) others (position + 1)
      refine bind (sound part (by simp)) fun argument => .expectType _ _ _ ?_
      exact performs.bind_still fun _ _ => .pure _

theorem call (sound : callee.Sound) {parts : List Part} (given : ∀ part ∈ parts, part.Sound) :
    Performs (Emit.call callee.emit (parts.map Part.emit)) (.call callee parts) := by
  refine bind sound fun callee => ?_
  cases callee.type with
  | fn types returns =>
    simp only [List.length_map]
    exact .ite fun _ => (arguments given types 1).bind_still fun _ _ => .pure _
  | prim p => exact .throw _
  | obj fields => exact .throw _
  | list => exact .throw _

theorem declareParameters (names : List String) (types : List Ty) :
    Performs (fun scope => Emit.declareParameters scope names types) (.parameters names types) := by
  induction names generalizing types with
  | nil => cases types <;> exact .still fun _ => .pure ()
  | cons name names ih =>
    cases types with
    | nil => exact .still fun _ => .pure ()
    | cons type types =>
      exact .ite fun valid => (declare name type valid).bind fun _ => ih types

theorem function (names : List String) (types : List Ty) (performs : Performs body within) :
    Performs (Emit.function names types body) (.function names types within) := by
  refine .ite fun _ => .inside .function ?_
  exact (declareParameters names types).bind fun _ => performs.bind_still fun _ _ => .pure _

theorem entries {fields : List (String × Part)} (sound : ∀ f ∈ fields, f.2.Sound)
    (declared : List (String × Ty)) :
    Performs (fun scope => Emit.entries (fields.map fun f => (f.1, f.2.emit)) scope declared)
      (.entries fields declared) := by
  induction declared with
  | nil => exact .still fun _ => .pure ""
  | cons field rest ih =>
    obtain ⟨name, expected⟩ := field
    simp only [Emit.entries, Changes.entries, Fields.lookup_map Part.emit]
    cases found : fields.lookup name with
    | none => exact .throw _
    | some part =>
      refine bind (sound _ (Fields.mem_of_lookup found)) fun value => .expectType _ _ _ ?_
      exact ih.bind_still fun _ _ => .pure _

theorem object {fields : List (String × Part)} (sound : ∀ f ∈ fields, f.2.Sound)
    (declared : List (String × Ty)) :
    Performs (Emit.object (fields.map fun f => (f.1, f.2.emit)) declared)
      (.object fields declared) := by
  unfold Emit.object Changes.object
  rw [List.find?_map]
  simp only [Function.comp_def]
  cases fields.find? fun f => (declared.lookup f.1).isNone with
  | some field => exact .throw _
  | none => exact (entries sound declared).bind_still fun _ _ => .pure _

/-- The payloads of primitive types leave the scopes alone. -/
theorem payload_prim (p : Primitive) (type : Ty) (value : Option Payload)
    (parameters : List String) (body : Nat → Emit String)
    (fields : List (String × (Nat → Emit Emitted))) :
    Performs (Emit.payload (.prim p) type value parameters body fields) .none := by
  apply still
  intro scope
  unfold Emit.payload
  split
  · exact .pure _
  · exact .pure _
  · exact .pure _
  · exact .pure _
  · exact .pure _
  · exact .pure _
  · exact (Still.ofExcept _).bind fun _ => .ofExcept _
  · next tag => cases tag
  · next tag => cases tag
  · exact .throw _
  · exact .throw _

/-- A literal without a type makes no changes. -/
theorem literal (descriptor : Node) (payload : Option Payload) (parameters : List String)
    (performs : Performs body within) {fields : List (String × Part)}
    (sound : ∀ f ∈ fields, f.2.Sound) :
    Performs (Emit.literal descriptor payload parameters body (fields.map fun f => (f.1, f.2.emit)))
      (.literal parameters within fields descriptor.lower payload) := by
  unfold Emit.literal
  cases lowered : descriptor.lower with
  | error e =>
    exact .still fun _ => (Still.ofExcept _).bind fun _ => .throw e
  | ok type =>
    rw [Node.descriptorTag_of_lower lowered]
    simp only [ofExcept_ok, pure_bind]
    refine bind_still ?_ fun _ _ => (Still.ofExcept _).bind fun _ => .pure _
    cases type with
    | prim p => cases payload <;> exact .payload_prim p _ _ _ _ _
    | fn types returns =>
      cases payload with
      | none => exact performs.function parameters types
      | some payload => exact .throw _
    | obj declared =>
      cases payload with
      | none => exact .throw _
      | some payload =>
        cases payload with
        | fields table => exact .object sound declared
        | _ => exact .throw _
    | list => cases payload <;> exact .throw _

/-! ### Statements -/

theorem bindName (name : String) (sound : value.Sound) :
    Performs (Emit.bind name value.emit) (.bind name value) :=
  .ite fun valid => bind sound fun value =>
    (declare name value.type valid).bind_still fun _ _ => .pure _

theorem assign (name : String) (sound : value.Sound) :
    Performs (Emit.assign (.ident name) value.emit) (.assign name value.changes) :=
  (still fun scope => .resolve scope name).bind fun _ => bind_still sound fun _ _ =>
    (Still.expectType _ _ _).bind fun _ => .pure _

theorem ret (sound : value.Sound) :
    Performs (Emit.ret (some value.emit)) (.inFunction value.changes) := by
  intro scope state h
  change state.scopes.Leads _ (after ((if state.scopes.inFunction scope then _ else _ :
    Emit (Option String)).run state)).scopes
  unfold Changes.inFunction
  split
  · exact bind_still sound (fun value _ => .pure (some ("return " ++ value.text))) scope state h
  · exact .nil

theorem leave : Performs (Emit.ret none) .none := by
  apply still
  intro scope state
  change (after ((if state.scopes.inFunction scope then _ else _ :
    Emit (Option String)).run state)).scopes = _
  split <;> rfl

theorem condition (sound : test.Sound) (site : Site) :
    Performs (Emit.condition test.emit site) test.changes :=
  bind_still sound fun _ _ => (Still.expectType _ _ _).bind fun _ => .pure _

theorem block (performs : Performs body within) :
    Performs (Emit.block body) (.inside .block within) :=
  .inside .block (performs.bind_still fun _ _ => .pure _)

theorem branch (sound : test.Sound) (performs : Performs body within) :
    Performs (Emit.branch test.emit body none) (.guarded .ifCondition test (.inside .block within)) :=
  (condition sound .ifCondition).bind fun _ => performs.block.bind_still fun _ _ => .pure _

theorem alternatives (sound : test.Sound) (performs : Performs body within)
    (performsOther : Performs otherwise other) :
    Performs (Emit.branch test.emit body (some otherwise))
      (.guarded .ifCondition test (.alternatives within body other)) :=
  (condition sound .ifCondition).bind fun _ => performs.block.bind fun _ =>
    performsOther.block.bind_still fun _ _ => .pure _

theorem loop (sound : test.Sound) (performs : Performs body within) :
    Performs (Emit.loop test.emit body) (.guarded .whileCondition test (.inside .block within)) :=
  (condition sound .whileCondition).bind fun _ => performs.block.bind_still fun _ _ => .pure _

end Performs

/-! ### Nodes -/

/-- The walk makes the changes of the node, in each place. -/
structure Node.Performed (node : Node) : Prop where
  expression : Performs node.rendering.expression node.changes.expression
  statement : Performs node.rendering.statement node.changes.statement

namespace Node.Performed

variable {node : Node} {kind : String} {changes : Changes}

theorem sound (performed : node.Performed) : node.part.Sound :=
  performed.expression

theorem ofExpression {emit : Nat → Emit Emitted} (rendered : node.rendering = .ofExpression kind emit)
    (made : node.changes = .ofExpression changes) (performs : Performs emit changes) :
    node.Performed := by
  constructor
  · rw [rendered, made]
    exact performs
  · rw [rendered, made]
    exact performs.bind_still fun _ _ => (Still.tell _).bind fun _ => .pure _

theorem ofStatement {emit : Nat → Emit String} (rendered : node.rendering = .ofStatement kind emit)
    (made : node.changes = .ofStatement changes) (performs : Performs emit changes) :
    node.Performed := by
  constructor
  · rw [rendered, made]
    exact .throw _
  · rw [rendered, made]
    exact performs.bind_still fun _ _ => (Still.tell _).bind fun _ => .pure _

theorem unhandled (rendered : node.rendering = .unhandled kind) (made : node.changes = .none) :
    node.Performed := by
  constructor
  · rw [rendered, made]
    exact .throw _
  · rw [rendered, made]
    exact .throw _

end Node.Performed

theorem body_performs {nodes : List Node} (parts : ∀ n ∈ nodes, n.Performed) :
    Performs (Rendering.body (renderings nodes)) (bodyChanges nodes) := by
  rw [renderings_eq_map, Rendering.body, List.map_map]
  induction nodes with
  | nil => exact .still fun _ => .pure ""
  | cons node rest ih =>
    have others := ih fun n member => parts n (by simp [member])
    exact (parts node (by simp)).statement.bind fun _ => others.bind_still fun _ _ => .pure _

/-- The walk makes the changes of every node, kind by kind. -/
theorem Node.performed (node : Node) : node.Performed := by
  induction node with
  | bind name value ih => exact .ofStatement rfl rfl (.bindName name ih.sound)
  | assign target value _ ih =>
    cases target with
    | ident name => exact .ofStatement rfl rfl (.assign name ih.sound)
    | _ => exact .ofStatement rfl rfl (.throw _)
  | ret value ih =>
    constructor
    · rw [Node.rendering_ret]
      cases value <;> exact .throw _
    · cases value with
      | none => exact .leave
      | some value => exact .ret (ih value rfl).sound
  | branch condition body otherwise conditionIH bodyIH otherwiseIH =>
    have inside := body_performs bodyIH
    cases otherwise with
    | none => exact .ofStatement rfl rfl (.branch conditionIH.sound inside)
    | some other =>
      have outside := body_performs (otherwiseIH other rfl)
      exact .ofStatement rfl rfl (.alternatives conditionIH.sound inside outside)
  | loop condition body conditionIH bodyIH =>
    exact .ofStatement rfl rfl (.loop conditionIH.sound (body_performs bodyIH))
  | ident name =>
    refine .ofExpression rfl rfl (.still fun scope => ?_)
    exact (Still.resolve scope name).bind fun _ => .pure _
  | literal type payload parameters body _ _ fieldsIH bodyIH =>
    refine .ofExpression (Node.rendering_literal ..) (Node.changes_literal ..) ?_
    have fields : ∀ f ∈ (Payload.entries payload).map fun f => (f.1, f.2.part), f.2.Sound := by
      simp only [List.forall_mem_map]
      exact fun field member => (fieldsIH field member).sound
    have performs := Performs.literal type payload parameters (body_performs bodyIH) fields
    rw [List.map_map] at performs
    exact performs
  | new target => exact .ofExpression rfl rfl (.newValue target)
  | binary op left right leftIH rightIH =>
    exact .ofExpression rfl rfl (.binary op leftIH.sound rightIH.sound)
  | unary op operand ih => exact .ofExpression rfl rfl (.unary op ih.sound)
  | call callee arguments calleeIH argumentsIH =>
    have given : ∀ part ∈ arguments.map Node.part, part.Sound := by
      simp only [List.forall_mem_map]
      exact fun node member => (argumentsIH node member).sound
    have performs := Performs.call calleeIH.sound given
    rw [List.map_map] at performs
    refine .ofExpression (Node.rendering_call ..) ?_ performs
    rw [Node.changes, parts_eq_map]
    rfl
  | member object property => exact .unhandled rfl rfl
  | element object index => exact .unhandled rfl rfl
  | type tag name parameters returns fields => exact .unhandled rfl rfl
  | unknown kind => exact .unhandled rfl rfl

/-- The changes of a program lead to the scopes that its compilation ends with, whether it ends in
an artifact or in an error. -/
theorem Program.performed (program : Program) :
    ScopeTree.empty.Leads program.changes (after program.emit).scopes :=
  body_performs (fun n (_ : n ∈ program) => n.performed) ScopeTree.root .initial (by decide)

end Arbor
