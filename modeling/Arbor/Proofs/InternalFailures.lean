import Arbor.Proofs.ScopeHistory
import Arbor.Proofs.SessionHistory
import Arbor.Proofs.Visits

/-!
# Internal failures are unreachable

Some errors are there for cases that the compiler has settled before: a name is looked up where it
was not found, a payload does not belong to the type that its own tag was lowered to, a list type is
to be built. None of them is ever met. Descriptors lower to types without lists, so scopes hold
none, so expressions have none, whichever function they are the result of (`Sound`); the induction
is over nodes, and with it goes that a feature is reported as missing only where a descriptor that
asks for it is lowered.
-/

namespace Arbor

open Emit

/-! ## Scopes without lists -/

namespace ScopeTree

variable {tree last : ScopeTree} {changes front back : List ScopeChange}

/-- No list type occurs in the types of declared names. -/
def ListFree (tree : ScopeTree) : Prop :=
  ∀ id, ∀ entry ∈ tree.symbols id, entry.2.ListFree

theorem ListFree.empty : ScopeTree.empty.ListFree := by
  intro id entry member
  rcases id with _ | id <;> cases member

theorem ListFree.push (free : tree.ListFree) (parent : Nat) (kind : ScopeKind) :
    (tree.push parent kind).ListFree := by
  intro id entry member
  rw [symbols_push] at member
  exact free id entry member

theorem ListFree.declare {scope : Nat} {name : String} {type : Ty} (free : tree.ListFree)
    (typed : type.ListFree) (declared : tree.declare scope name type = .ok last) :
    last.ListFree := by
  obtain ⟨-, rfl⟩ := declare_eq_ok.mp declared
  intro id entry member
  have inner := free id
  unfold symbols at member inner
  rw [Array.getElem?_modify] at member
  cases held : tree.scopes[id]? with
  | none => simp [held] at member
  | some found =>
    simp only [held] at member inner
    by_cases own : scope = id
    · simp only [own, if_true, Option.map_some] at member
      rcases List.mem_append.mp member with member | member
      · exact inner entry member
      · cases List.mem_singleton.mp member
        exact typed
    · simp only [own, if_false] at member
      exact inner entry member

theorem ListFree.lookup? {scope : Nat} {name : String} {type : Ty} (free : tree.ListFree)
    (found : tree.lookup? scope name = some type) : type.ListFree := by
  obtain ⟨id, -, here⟩ := List.exists_of_findSome?_eq_some found
  exact free id _ (Fields.mem_of_lookup here)

/-- What is declared at the end covers what was declared at any moment before. -/
theorem Leads.listFree (leads : tree.Leads changes last) (free : last.ListFree) :
    tree.ListFree := by
  induction leads with
  | nil => exact free
  | @cons tree last change rest allowed _ ih =>
    have known : change.scope < tree.next := by
      cases change with
      | opened parent kind => exact allowed
      | declared scope name type => exact allowed.1
    intro id entry member
    exact ih free id entry ((symbols_prefix_apply change known id).subset member)

/-- The changes behind a moment lead from it to the end. -/
theorem Leads.behind (leads : tree.Leads (front ++ back) last) :
    (tree.replay front).Leads back last := by
  induction front generalizing tree with
  | nil => exact leads
  | cons change rest ih =>
    cases leads with
    | cons _ leads => exact ih leads

end ScopeTree

/-! ## Sound steps -/

/-- The error is none of the internal ones, and a missing feature is one to blame on something. -/
structure CompileError.Accounted (blame : Unsupported → Prop) (error : CompileError) : Prop where
  loaded : error ≠ .noProgramLoaded
  symbol : ∀ name, error ≠ .undefinedSymbol name
  payload : ∀ tag, error ≠ .malformedLiteral tag .foreignPayload
  feature : ∀ feature, error = .unsupportedFeature feature → blame feature

/-- The errors that are neither internal nor about a missing feature. -/
def CompileError.isPlain : CompileError → Bool
  | noProgramLoaded | undefinedSymbol _ | malformedLiteral _ .foreignPayload => false
  | unsupportedFeature _ => false
  | _ => true

theorem CompileError.Accounted.plain {blame : Unsupported → Prop} {error : CompileError}
    (plain : error.isPlain) : error.Accounted blame := by
  refine ⟨?_, ?_, ?_, ?_⟩
  · rintro rfl
    cases plain
  · rintro name rfl
    cases plain
  · rintro tag rfl
    cases plain
  · rintro feature rfl
    cases plain

variable {α β : Type} {blame : Unsupported → Prop} {good : α → Prop} {result : β → Prop}
  {state : EmitState} {scope : Nat}

/-- From scopes without lists the step leads to such scopes, even if it fails. What it gives is
good, and what it fails with is accounted for. -/
def Sound (blame : Unsupported → Prop) (good : α → Prop) (step : Emit α) (state : EmitState) :
    Prop :=
  state.scopes.ListFree → match step.run state with
    | .ok a next => next.scopes.ListFree ∧ good a
    | .error e next => next.scopes.ListFree ∧ e.Accounted blame

namespace Sound

theorem pure {a : α} (here : good a) : Sound blame good (Pure.pure a) state :=
  fun free => ⟨free, here⟩

theorem throw {e : CompileError} (accounted : e.Accounted blame) :
    Sound blame good (MonadExcept.throw e) state :=
  fun free => ⟨free, accounted⟩

theorem tell (event : Event) : Sound blame (fun _ => True) (Emit.tell event) state :=
  fun free => ⟨free, trivial⟩

theorem bind {x : Emit α} {f : α → Emit β} (first : Sound blame good x state)
    (next : ∀ a next, x.run state = .ok a next → good a → Sound blame result (f a) next) :
    Sound blame result (x >>= f) state := by
  intro free
  have here := first free
  rw [bind_run]
  cases ran : x.run state with
  | ok a middle =>
    rw [ran] at here
    exact next a middle ran here.2 here.1
  | error e middle =>
    rw [ran] at here
    exact here

theorem mono {blame' : Unsupported → Prop} {x : Emit α} (sound : Sound blame good x state)
    (more : ∀ feature, blame feature → blame' feature) : Sound blame' good x state := by
  intro free
  have here := sound free
  cases ran : x.run state with
  | ok a next =>
    rw [ran] at here
    exact here
  | error e next =>
    rw [ran] at here
    obtain ⟨kept, loaded, symbol, payload, feature⟩ := here
    exact ⟨kept, loaded, symbol, payload, fun f same => more f (feature f same)⟩

/-- Where a sound step leads if it goes through. -/
theorem of_ok {x : Emit α} (sound : Sound blame good x state) (free : state.scopes.ListFree) {a : α}
    {next : EmitState} (ran : x.run state = .ok a next) : next.scopes.ListFree ∧ good a := by
  have here := sound free
  rw [ran] at here
  exact here

/-- A step behind a computation that needs no state. -/
theorem ofExcept {value : Except CompileError β} {f : β → Emit α}
    (failed : ∀ e, value = .error e → e.Accounted blame)
    (next : ∀ b, value = .ok b → Sound blame good (f b) state) :
    Sound blame good (Emit.ofExcept value >>= f) state := by
  cases value with
  | ok b => exact next b rfl
  | error e => exact .throw (failed e rfl)

theorem ite {p : Prop} [Decidable p] {x y : Emit α} (yes : p → Sound blame good x state)
    (no : Sound blame good y state) : Sound blame good (if p then x else y) state := by
  split
  · next holds => exact yes holds
  · exact no

/-- A step behind a check of types. -/
theorem expectType {expected found : Ty} {site : Site} {x : Emit α}
    (next : expected.equiv found → Sound blame good x state) :
    Sound blame good (Emit.expectType expected found site >>= fun _ => x) state := by
  unfold Emit.expectType
  split
  · next same => exact next same
  · exact .throw (.plain rfl)

theorem resolve {name : String} : Sound blame Ty.ListFree (Emit.resolve scope name) state := by
  intro free
  rw [resolve_run]
  cases found : state.scopes.lookup? scope name with
  | some type => exact ⟨free, free.lookup? found⟩
  | none => exact ⟨free, .plain rfl⟩

theorem declare {name : String} {type : Ty} (typed : type.ListFree) :
    Sound blame (fun _ => True) (Emit.declare scope name type) state := by
  intro free
  rw [declare_run]
  cases made : state.scopes.declare scope name type with
  | ok scopes => exact ⟨free.declare typed made, trivial⟩
  | error e =>
    unfold ScopeTree.declare at made
    split at made
    · cases made
      exact ⟨free, .plain rfl⟩
    · cases made

/-- A type without lists is built. -/
theorem constructor {type : Ty} (typed : type.ListFree) :
    Sound blame (fun _ => True) (Emit.ofExcept type.constructor) state := by
  obtain ⟨text, built⟩ := typed.exists_constructor
  rw [built]
  exact .pure trivial

end Sound

/-! ## Descriptors -/

/-- A computation of two steps fails in one of them. -/
theorem Except.bind_eq_error {ε α β : Type} {x : Except ε α} {f : α → Except ε β} {e : ε} :
    (x >>= f) = .error e ↔ x = .error e ∨ ∃ a, x = .ok a ∧ f a = .error e := by
  cases x with
  | ok a =>
    change f a = .error e ↔ _
    simp
  | error e' =>
    change Except.error e' = .error e ↔ _
    simp

namespace Node

/-- The errors of lowering: a feature is missing, or the descriptor is at fault. -/
def FailsToLower (e : CompileError) : Prop :=
  (∃ feature, e = .unsupportedFeature feature) ∨ ∃ fault, e = .invalidDescriptor fault

theorem lowerAll_error {nodes : List Node}
    (parts : ∀ n ∈ nodes, ∀ e, n.lower = .error e → FailsToLower e) {e : CompileError}
    (failed : lowerAll nodes = .error e) : FailsToLower e := by
  induction nodes with
  | nil => cases failed
  | cons node rest ih =>
    obtain ⟨first, others⟩ := List.forall_mem_cons.mp parts
    rcases Except.bind_eq_error.mp failed with failed | ⟨_, -, failed⟩
    · exact first e failed
    · rcases Except.bind_eq_error.mp failed with failed | ⟨_, -, ⟨⟩⟩
      exact ih others failed

theorem lowerFields_error {fields : List (String × Node)}
    (parts : ∀ f ∈ fields, ∀ e, f.2.lower = .error e → FailsToLower e) {e : CompileError}
    (failed : lowerFields fields = .error e) : FailsToLower e := by
  induction fields with
  | nil => cases failed
  | cons field rest ih =>
    obtain ⟨first, others⟩ := List.forall_mem_cons.mp parts
    rcases Except.bind_eq_error.mp failed with failed | ⟨_, -, failed⟩
    · exact first e failed
    · rcases Except.bind_eq_error.mp failed with failed | ⟨_, -, ⟨⟩⟩
      exact ih others failed

theorem lower_error (node : Node) {e : CompileError} (failed : node.lower = .error e) :
    FailsToLower e := by
  induction node generalizing e with
  | type tag name parameters returns fields parametersIH returnsIH fieldsIH =>
    unfold lower at failed
    split at failed
    · cases failed
      exact .inl ⟨_, rfl⟩
    · cases failed
    · next same =>
      cases same
      rcases Except.bind_eq_error.mp failed with failed | ⟨_, -, failed⟩
      · exact lowerAll_error (fun n member _ => parametersIH n member) failed
      · split at failed
        · cases failed
          exact .inr ⟨_, rfl⟩
        · rcases Except.bind_eq_error.mp failed with failed | ⟨_, -, ⟨⟩⟩
          exact returnsIH _ rfl failed
    · next same =>
      cases same
      rcases Except.bind_eq_error.mp failed with failed | ⟨_, -, ⟨⟩⟩
      exact lowerFields_error (fun f member _ => fieldsIH f member) failed
    · cases failed
      exact .inl ⟨_, rfl⟩
    · cases failed
      exact .inr ⟨_, rfl⟩
    · cases failed
      exact .inr ⟨_, rfl⟩
  | _ =>
    cases failed
    exact .inr ⟨_, rfl⟩

theorem listFree_parameters (node : Node) {types : List Ty} {returns : Ty}
    (lowered : node.lower = .ok (.fn types returns)) : ∀ t ∈ types, t.ListFree := by
  cases node.lower_listFree lowered with
  | fn parameters _ => exact parameters

end Node

/-! ## Blame -/

namespace Visit

variable {visit called : Visit} {feature : Unsupported}

/-- Below the visit a descriptor is lowered that asks for the feature. -/
def Blames (visit : Visit) (feature : Unsupported) : Prop :=
  ∃ inner descriptor, Relation.ReflTransGen Calls visit inner ∧ inner.Lowers descriptor ∧
    descriptor.lower = .error (.unsupportedFeature feature)

theorem Blames.of_call (calls : visit.Calls called) (blames : called.Blames feature) :
    visit.Blames feature := by
  obtain ⟨inner, descriptor, reached, lowers, failed⟩ := blames
  exact ⟨inner, descriptor, reached.head calls, lowers, failed⟩

end Visit

namespace Sound

variable {visit inner : Visit} {descriptor : Node}

/-- The step of a visit that is called. -/
theorem called {x : Emit α} (calls : visit.Calls inner) (sound : Sound inner.Blames good x state) :
    Sound visit.Blames good x state :=
  sound.mono fun _ => .of_call calls

/-- A step behind the lowering of a descriptor. -/
theorem lower (lowers : visit.Lowers descriptor) {f : Ty → Emit α}
    (next : ∀ type, descriptor.lower = .ok type → Sound visit.Blames good (f type) state) :
    Sound visit.Blames good (Emit.ofExcept descriptor.lower >>= f) state := by
  refine .ofExcept (fun e failed => ?_) next
  rcases descriptor.lower_error failed with ⟨feature, rfl⟩ | ⟨fault, rfl⟩
  · refine ⟨nofun, nofun, nofun, ?_⟩
    rintro _ ⟨⟩
    exact ⟨visit, descriptor, .refl, lowers, failed⟩
  · exact .plain rfl

/-- A step in a scope of its own. -/
theorem inside {kind : ScopeKind} {body : Nat → Emit α}
    (sound : Sound blame good (body state.scopes.next) (after ((openScope scope kind).run state))) :
    Sound blame good (openScope scope kind >>= body) state := by
  intro free
  rw [bind_run, openScope_run]
  exact sound (free.push scope kind)

theorem declareParameters {names : List String} {types : List Ty}
    (typed : ∀ t ∈ types, t.ListFree) :
    Sound blame (fun _ => True) (Emit.declareParameters scope names types) state := by
  induction names generalizing types state with
  | nil => cases types <;> exact .pure trivial
  | cons name names ih =>
    cases types with
    | nil => exact .pure trivial
    | cons type types =>
      obtain ⟨first, others⟩ := List.forall_mem_cons.mp typed
      unfold Emit.declareParameters
      split
      · exact (declare first).bind fun _ _ _ _ => ih others
      · exact .throw (.plain rfl)

end Sound

/-! ## Nodes -/

/-- The expression has a type without lists. -/
abbrev Emitted.Typed (value : Emitted) : Prop :=
  value.type.ListFree

/-- The walk over the node is sound in each place, from any state on. -/
structure Node.Accounted (node : Node) : Prop where
  expression : ∀ scope state, Sound (Visit.Blames ⟨.expression node, scope, state⟩) Emitted.Typed
    (node.rendering.expression scope) state
  statement : ∀ scope state, Sound (Visit.Blames ⟨.statement node, scope, state⟩) (fun _ => True)
    (node.rendering.statement scope) state

namespace Node.Accounted

variable {node : Node}

/-- The visit of the node as a part of another. -/
theorem called (accounted : node.Accounted) {visit : Visit}
    (calls : visit.Calls ⟨.expression node, scope, state⟩) :
    Sound visit.Blames Emitted.Typed (node.rendering.expression scope) state :=
  .called calls (accounted.expression scope state)

theorem ofExpression {kind : String} {emit : Nat → Emit Emitted}
    (rendered : node.rendering = .ofExpression kind emit) (typed : node.isExpression)
    (sound : ∀ scope state, Sound (Visit.Blames ⟨.expression node, scope, state⟩) Emitted.Typed
      (emit scope) state) : node.Accounted := by
  constructor
  · rw [rendered]
    exact sound
  · intro scope state
    rw [rendered]
    refine .bind (.called (.expression typed) (sound scope state)) fun _ _ _ _ => ?_
    exact (Sound.tell _).bind fun _ _ _ _ => .pure trivial

theorem ofStatement {kind : String} {emit : Nat → Emit String}
    (rendered : node.rendering = .ofStatement kind emit)
    (sound : ∀ scope state, Sound (Visit.Blames ⟨.statement node, scope, state⟩) (fun _ => True)
      (emit scope) state) : node.Accounted := by
  constructor
  · intro scope state
    rw [rendered]
    exact .throw (.plain rfl)
  · intro scope state
    rw [rendered]
    exact (sound scope state).bind fun _ _ _ _ => (Sound.tell _).bind fun _ _ _ _ => .pure trivial

theorem unhandled {kind : String} (rendered : node.rendering = .unhandled kind) :
    node.Accounted := by
  constructor <;> intro scope state <;> rw [rendered] <;>
    exact .throw (.plain rfl)

end Node.Accounted

namespace Sound

/-! ### Expressions -/

theorem newValue (target : Node) :
    Sound (Visit.Blames ⟨.expression (.new target), scope, state⟩) Emitted.Typed
      (Emit.newValue target) state := by
  refine lower .new fun type lowered => (tell _).bind fun _ _ _ _ => ?_
  have typed := target.lower_listFree lowered
  exact (constructor typed).bind fun _ _ _ _ => .pure typed

theorem listFree_resultType (op : BinaryOp) {type : Ty} (typed : type.ListFree) :
    (resultType op type).ListFree := by
  cases op <;> first | exact typed | exact .prim .bool

theorem binary (op : BinaryOp) {left right : Node} (first : left.Accounted)
    (second : right.Accounted) :
    Sound (Visit.Blames ⟨.expression (.binary op left right), scope, state⟩) Emitted.Typed
      (Emit.binary op left.rendering.expression right.rendering.expression scope) state := by
  refine (first.called .left).bind fun value _ ran typed => ?_
  refine (second.called (.right ran)).bind fun _ _ _ _ => expectType fun _ => ?_
  refine ite (fun _ => ?_) (.throw (.plain rfl))
  have built := listFree_resultType op typed
  exact (constructor built).bind fun _ _ _ _ => .pure built

theorem unary (op : UnaryOp) {operand : Node} (accounted : operand.Accounted) :
    Sound (Visit.Blames ⟨.expression (.unary op operand), scope, state⟩) Emitted.Typed
      (Emit.unary op operand.rendering.expression scope) state := by
  refine (accounted.called .operand).bind fun _ _ _ typed => ?_
  refine ite (fun _ => ?_) (.throw (.plain rfl))
  exact (constructor typed).bind fun _ _ _ _ => .pure typed

theorem arguments {nodes : List Node} (parts : ∀ n ∈ nodes, n.Accounted) (types : List Ty)
    (position : Nat) :
    Sound (Visit.Blames ⟨.arguments nodes types, scope, state⟩) (fun _ => True)
      (Emit.arguments scope position (nodes.map fun n => n.rendering.expression) types) state := by
  induction nodes generalizing types position state with
  | nil => cases types <;> exact .pure trivial
  | cons node rest ih =>
    cases types with
    | nil => exact .pure trivial
    | cons expected types =>
      obtain ⟨first, others⟩ := List.forall_mem_cons.mp parts
      refine (first.called .argument).bind fun value next ran _ => expectType fun same => ?_
      exact bind (called (.others ran same) (ih others types _)) fun _ _ _ _ => .pure trivial

theorem call {callee : Node} {nodes : List Node} (accounted : callee.Accounted)
    (parts : ∀ n ∈ nodes, n.Accounted) :
    Sound (Visit.Blames ⟨.expression (.call callee nodes), scope, state⟩) Emitted.Typed
      (Emit.call callee.rendering.expression (nodes.map fun n => n.rendering.expression) scope)
      state := by
  refine (accounted.called .callee).bind fun value next ran typed => ?_
  obtain ⟨text, type⟩ := value
  cases typed with
  | fn parameters returns =>
    refine ite (fun count => ?_) (.throw (.plain rfl))
    rw [List.length_map] at count
    have rest := called (.arguments ran rfl count) (arguments parts _ 1)
    exact rest.bind fun _ _ _ _ => .pure returns
  | prim p => exact .throw (.plain rfl)
  | obj fields => exact .throw (.plain rfl)

theorem body {nodes : List Node} (parts : ∀ n ∈ nodes, n.Accounted) :
    Sound (Visit.Blames ⟨.body nodes, scope, state⟩) (fun _ => True)
      (Rendering.body (renderings nodes) scope) state := by
  rw [renderings_eq_map, Rendering.body, List.map_map]
  induction nodes generalizing state with
  | nil => exact .pure trivial
  | cons node rest ih =>
    obtain ⟨here, others⟩ := List.forall_mem_cons.mp parts
    refine bind (called .first (here.statement scope state)) fun _ next ran _ => ?_
    exact bind (called (.rest ran) (ih others)) fun _ _ _ _ => .pure trivial

variable {descriptor : Node} {nodes : List Node} {names : List String}

theorem function {types : List Ty} {returns : Ty}
    (lowered : descriptor.lower = .ok (.fn types returns)) (parts : ∀ n ∈ nodes, n.Accounted) :
    Sound (Visit.Blames ⟨.expression (.literal descriptor none names nodes), scope, state⟩)
      (fun _ => True) (Emit.function names types (Rendering.body (renderings nodes)) scope)
      state := by
  refine ite (fun count => inside ?_) (.throw (.plain rfl))
  refine (declareParameters (descriptor.listFree_parameters lowered)).bind fun _ next ran _ => ?_
  exact bind (called (.function lowered count ran) (body parts)) fun _ _ _ _ => .pure trivial

theorem entries {fields : List (String × Node)} (parts : ∀ f ∈ fields, f.2.Accounted)
    (declared : List (String × Ty)) :
    Sound (Visit.Blames ⟨.entries fields declared, scope, state⟩) (fun _ => True)
      (Emit.entries (fields.map fun f => (f.1, f.2.rendering.expression)) scope declared)
      state := by
  induction declared generalizing state with
  | nil => exact .pure trivial
  | cons field rest ih =>
    obtain ⟨name, expected⟩ := field
    unfold Emit.entries
    rw [Fields.lookup_map fun n : Node => n.rendering.expression]
    cases found : fields.lookup name with
    | none => exact .throw (.plain rfl)
    | some node =>
      have accounted := parts _ (Fields.mem_of_lookup found)
      refine (accounted.called (.entry found)).bind fun value next ran _ => ?_
      refine expectType fun same => ?_
      exact bind (called (.entries found ran same) ih) fun _ _ _ _ => .pure trivial

theorem object {fields : List (String × Node)} {declared : List (String × Ty)}
    (lowered : descriptor.lower = .ok (.obj declared)) (parts : ∀ f ∈ fields, f.2.Accounted) :
    Sound
      (Visit.Blames
        ⟨.expression (.literal descriptor (some (.fields fields)) names nodes), scope, state⟩)
      (fun _ => True)
      (Emit.object (fields.map fun f => (f.1, f.2.rendering.expression)) declared scope) state := by
  unfold Emit.object
  rw [List.find?_map]
  cases missing : fields.find? ((fun f : String × (Nat → Emit Emitted) =>
      (declared.lookup f.1).isNone) ∘ fun f => (f.1, f.2.rendering.expression)) with
  | some field => exact .throw (.plain rfl)
  | none =>
    have known : ∀ f ∈ fields, (declared.lookup f.1).isSome := by
      simpa using missing
    refine bind (called (.object lowered known) (entries parts declared)) fun _ _ _ _ => ?_
    exact .pure trivial

theorem payload_prim {p : Primitive} (lowered : descriptor.lower = .ok (.prim p)) (type : Ty)
    (value : Option Payload) (body : Nat → Emit String)
    (fields : List (String × (Nat → Emit Emitted))) :
    Sound (Visit.Blames ⟨.expression (.literal descriptor value names nodes), scope, state⟩)
      (fun _ => True) (Emit.payload (.prim p) type value names body fields scope) state := by
  unfold Emit.payload
  split
  iterate 6
    · exact .pure trivial
  · next same =>
    cases same
    refine lower (.payload lowered) fun type lowered => ?_
    exact constructor (Node.lower_listFree _ lowered)
  · next tag => cases tag
  · next tag => cases tag
  · exact .throw (.plain rfl)
  · exact .throw (.plain rfl)

theorem literal {value : Option Payload} (fields : ∀ f ∈ Payload.entries value, f.2.Accounted)
    (parts : ∀ n ∈ nodes, n.Accounted) :
    Sound (Visit.Blames ⟨.expression (.literal descriptor value names nodes), scope, state⟩)
      Emitted.Typed
      (Emit.literal descriptor value names (Rendering.body (renderings nodes))
        ((Payload.entries value).map fun f => (f.1, f.2.rendering.expression)) scope) state := by
  refine ofExcept ?_ fun tag tagged => lower .literal fun type lowered => ?_
  · intro e failed
    unfold Node.descriptorTag at failed
    split at failed
    · cases failed
    · cases failed
      exact .plain rfl
  have typed := descriptor.lower_listFree lowered
  rw [Node.descriptorTag_of_lower lowered] at tagged
  cases tagged
  refine @bind _ _ _ (fun _ => True) _ _ _ _ ?_ fun _ _ _ _ => (constructor typed).bind
    fun _ _ _ _ => .pure typed
  -- The tag is that of the type, so a payload that the tag takes belongs to the type.
  cases typed with
  | prim p => exact payload_prim lowered _ value _ _
  | fn =>
    cases value with
    | none => exact function lowered parts
    | some value => exact .throw (.plain rfl)
  | obj =>
    cases value with
    | none => exact .throw (.plain rfl)
    | some value =>
      cases value with
      | fields table => exact object lowered fields
      | _ => exact .throw (.plain rfl)

/-! ### Statements -/

theorem bindName {name : String} {value : Node} (accounted : value.Accounted) :
    Sound (Visit.Blames ⟨.statement (.bind name value), scope, state⟩) (fun _ => True)
      (Emit.bind name value.rendering.expression scope) state := by
  refine ite (fun valid => ?_) (.throw (.plain rfl))
  refine (accounted.called (.bind valid)).bind fun _ _ _ typed => ?_
  exact (declare typed).bind fun _ _ _ _ => .pure trivial

theorem assign {name : String} {value : Node} (accounted : value.Accounted) :
    Sound (Visit.Blames ⟨.statement (.assign (.ident name) value), scope, state⟩) (fun _ => True)
      (Emit.assign (.ident name) value.rendering.expression scope) state := by
  refine resolve.bind fun _ _ ran _ => (accounted.called (.assign ran)).bind fun _ _ _ _ => ?_
  exact expectType fun _ => .pure trivial

theorem ret {value : Node} (accounted : value.Accounted) :
    Sound (Visit.Blames ⟨.statement (.ret (some value)), scope, state⟩) (fun _ => True)
      (Emit.ret (some value.rendering.expression) scope) state := by
  refine ite (fun inside => ?_) ((tell _).bind fun _ _ _ _ => .pure trivial)
  exact (accounted.called (.ret inside)).bind fun _ _ _ _ => .pure trivial

theorem leave : Sound blame (fun _ => True) (Emit.ret none scope) state :=
  ite (fun _ => .pure trivial) ((tell _).bind fun _ _ _ _ => .pure trivial)

theorem condition {x : Nat → Emit Emitted} (sound : Sound blame Emitted.Typed (x scope) state)
    (site : Site) : Sound blame (fun _ => True) (Emit.condition x site scope) state :=
  bind sound fun _ _ _ _ => expectType fun _ => .pure trivial

theorem block {visit : Visit} (calls : visit.Calls (.inside .block nodes scope state))
    (parts : ∀ n ∈ nodes, n.Accounted) :
    Sound visit.Blames (fun _ => True) (Emit.block (Rendering.body (renderings nodes)) scope)
      state :=
  .inside (bind (called calls (body parts)) fun _ _ _ _ => .pure trivial)

theorem branch {test : Node} {otherwise : Option (List Node)} (accounted : test.Accounted)
    (parts : ∀ n ∈ nodes, n.Accounted) (others : ∀ other ∈ otherwise, ∀ n ∈ other, n.Accounted) :
    Sound (Visit.Blames ⟨.statement (.branch test nodes otherwise), scope, state⟩) (fun _ => True)
      (Emit.branch test.rendering.expression (Rendering.body (renderings nodes))
        (otherwise.map fun other => Rendering.body (renderings other)) scope) state := by
  refine (condition (accounted.called .test) .ifCondition).bind fun _ _ tested _ => ?_
  refine (block (.branch tested) parts).bind fun _ _ ran _ => ?_
  cases otherwise with
  | none => exact .pure trivial
  | some other =>
    exact (block (.otherwise tested ran) (others other rfl)).bind fun _ _ _ _ => .pure trivial

theorem loop {test : Node} (accounted : test.Accounted) (parts : ∀ n ∈ nodes, n.Accounted) :
    Sound (Visit.Blames ⟨.statement (.loop test nodes), scope, state⟩) (fun _ => True)
      (Emit.loop test.rendering.expression (Rendering.body (renderings nodes)) scope) state := by
  refine (condition (accounted.called .guard) .whileCondition).bind fun _ _ tested _ => ?_
  exact (block (.loop tested) parts).bind fun _ _ _ _ => .pure trivial

end Sound

/-- The walk is sound on every node, kind by kind. -/
theorem Node.accounted (node : Node) : node.Accounted := by
  induction node with
  | bind name value ih => exact .ofStatement rfl fun _ _ => .bindName ih
  | assign target value _ ih =>
    refine .ofStatement rfl fun _ _ => ?_
    cases target with
    | ident name => exact .assign ih
    | _ => exact .throw (.plain rfl)
  | ret value ih =>
    constructor
    · intro scope state
      rw [Node.rendering_ret]
      exact .throw (.plain rfl)
    · intro scope state
      cases value with
      | none => exact .leave
      | some value => exact .ret (ih value rfl)
  | branch condition body otherwise conditionIH bodyIH otherwiseIH =>
    exact .ofStatement (Node.rendering_branch ..) fun _ _ => .branch conditionIH bodyIH otherwiseIH
  | loop condition body conditionIH bodyIH =>
    exact .ofStatement rfl fun _ _ => .loop conditionIH bodyIH
  | ident name =>
    exact .ofExpression rfl rfl fun _ _ => Sound.resolve.bind fun _ _ _ typed => .pure typed
  | literal type payload parameters body _ _ fieldsIH bodyIH =>
    exact .ofExpression (Node.rendering_literal ..) rfl fun _ _ => .literal fieldsIH bodyIH
  | new target => exact .ofExpression rfl rfl fun _ _ => .newValue target
  | binary op left right leftIH rightIH =>
    exact .ofExpression rfl rfl fun _ _ => .binary op leftIH rightIH
  | unary op operand ih => exact .ofExpression rfl rfl fun _ _ => .unary op ih
  | call callee arguments calleeIH argumentsIH =>
    exact .ofExpression (Node.rendering_call ..) rfl fun _ _ => .call calleeIH argumentsIH
  | member object property => exact .unhandled rfl
  | element object index => exact .unhandled rfl
  | type tag name parameters returns fields => exact .unhandled rfl
  | unknown kind => exact .unhandled rfl

/-! ## Visits -/

namespace Visit

variable {visit called : Visit}

/-- No list type occurs in the scopes in which the visit begins. -/
def ListFree (visit : Visit) : Prop :=
  visit.state.scopes.ListFree

/-- A visit that begins without lists calls visits that do. -/
theorem Calls.listFree (calls : visit.Calls called) (free : visit.ListFree) : called.ListFree := by
  have expression {node : Node} {scope : Nat} {state next : EmitState} {value : Emitted}
      (free : state.scopes.ListFree)
      (ran : (node.rendering.expression scope).run state = .ok value next) : next.scopes.ListFree :=
    ((node.accounted.expression scope state).of_ok free ran).1
  have condition {test : Node} {site : Site} {scope : Nat} {state next : EmitState} {text : String}
      (free : state.scopes.ListFree)
      (ran : (Emit.condition test.rendering.expression site scope).run state = .ok text next) :
      next.scopes.ListFree :=
    ((Sound.condition (test.accounted.expression scope state) site).of_ok free ran).1
  cases calls with
  | @rest node _ scope state _ _ ran =>
    exact ((node.accounted.statement scope state).of_ok free ran).1
  | @assign name _ scope state _ _ ran =>
    have sound : Sound (fun _ => True) Ty.ListFree (resolve scope name) state := .resolve
    exact (sound.of_ok free ran).1
  | branch tested => exact (condition free tested).push _ _
  | @otherwise test body _ scope _ next last _ _ tested ran =>
    have calls : Calls ⟨.statement (.branch test body none), scope, _⟩ _ := .branch tested
    have sound := Sound.block calls fun n _ => n.accounted
    exact (sound.of_ok (condition free tested) ran).1.push _ _
  | loop tested => exact (condition free tested).push _ _
  | @function descriptor names _ types _ scope state _ lowered _ ran =>
    have sound : Sound (fun _ => True) (fun _ => True)
        (declareParameters state.scopes.next names types)
        (after ((openScope scope .function).run state)) :=
      .declareParameters (descriptor.listFree_parameters lowered)
    exact (sound.of_ok (free.push _ _) ran).1
  | entries _ ran _ => exact expression free ran
  | right ran => exact expression free ran
  | arguments ran _ _ => exact expression free ran
  | others ran _ => exact expression free ran
  | _ => exact free

/-- The type that a visit finds is without lists. -/
theorem Derives.listFree {type : Ty} (derives : visit.Derives type) (free : visit.ListFree) :
    type.ListFree := by
  cases derives with
  | @mk node _ scope state _ ran => exact ((node.accounted.expression scope state).of_ok free ran).2

/-- A type whose constructor a visit asks for can be built. -/
theorem Builds.exists_constructor {type : Ty} (builds : visit.Builds type) (free : visit.ListFree) :
    ∃ text, type.constructor = .ok text := by
  cases builds with
  | lowered _ lowered => exact Node.exists_constructor_of_lower lowered
  | binary ran _ =>
    exact (Sound.listFree_resultType _ (Derives.listFree (.mk ran) free)).exists_constructor
  | unary ran => exact (Derives.listFree (.mk ran) free).exists_constructor

end Visit

/-! ## Programs -/

/-- The sentence about a foreign payload is written for no other fault. -/
theorem LiteralFault.text_eq_foreign {fault : LiteralFault}
    (same : fault.text = "payload does not match its declared type") : fault = .foreignPayload := by
  have letter {c : Char} (opens : ∃ more, fault.text.toList = c :: more) : c = 'p' := by
    obtain ⟨more, opens⟩ := opens
    rw [same] at opens
    exact (List.cons.inj opens).1.symm
  have append {front back : String} {c : Char} (opens : ∃ more, front.toList = c :: more) :
      ∃ more, (front ++ back).toList = c :: more := by
    obtain ⟨more, opens⟩ := opens
    exact ⟨more ++ back.toList, by rw [String.toList_append, opens, List.cons_append]⟩
  cases fault with
  | foreignPayload => rfl
  | unexpectedPayload payload => cases letter (append ⟨"nexpected payload ".toList, rfl⟩)
  | missingPayload => cases letter ⟨"issing payload".toList, rfl⟩
  | parameterCount names types =>
    -- This sentence begins with a digit, and the others with other letters.
    obtain ⟨digit, digits, spelled⟩ := List.exists_cons_of_ne_nil (@Nat.toDigits_ne_nil names 10)
    have decimal : digit.isDigit :=
      Nat.isDigit_of_mem_toDigits (by decide) (by decide) (spelled ▸ List.mem_cons_self)
    cases letter (append (append (append ⟨digits, String.toList_ofList.trans spelled⟩)))
    cases decimal
  | undeclaredField name => cases letter (append (append ⟨"ield '".toList, rfl⟩))
  | missingField name => cases letter (append (append ⟨"issing a value for field '".toList, rfl⟩))

namespace Program

theorem listFree_of_visits {program : Program} {visit : Visit} (visits : program.Visits visit) :
    visit.ListFree := by
  induction visits with
  | refl => exact .empty
  | tail _ calls ih => exact calls.listFree ih

/-- A compilation ends in scopes without lists, and with an error only that is accounted for. -/
theorem emit_sound (program : Program) :
    Sound program.visit.Blames (fun _ => True) (Rendering.body (renderings program) ScopeTree.root)
      .initial :=
  .body fun n _ => n.accounted

theorem accounted_of_compile {program : Program} {error : CompileError}
    (failed : program.compile = .error error) : error.Accounted program.visit.Blames := by
  have sound := program.emit_sound .empty
  unfold compile compilation emit at failed
  split at failed
  · cases failed
  · next ran =>
    cases failed
    rw [ran] at sound
    exact sound.2

theorem listFree_after_emit (program : Program) : (after program.emit).scopes.ListFree := by
  have sound := program.emit_sound .empty
  unfold emit
  split at sound
  · next ran =>
    rw [ran]
    exact sound.1
  · next ran =>
    rw [ran]
    exact sound.1

end Program

/-- Internal failures are unreachable. No compilation ends because a symbol is undefined, because no
program is loaded although one is, or because a payload does not match its declared type. In no
scope, at no moment, and in the type of no expression that is visited does a list type occur; so
each type whose constructor is asked for has one, and a feature is reported as missing only where a
descriptor that asks for it is lowered. -/
theorem internal_failures_unreachable (program : Program) :
    (∀ error, program.compile = .error error → error ≠ .noProgramLoaded ∧
      (∀ name, error ≠ .undefinedSymbol name) ∧
      ∀ tag fault, error = .malformedLiteral tag fault →
        fault.text ≠ "payload does not match its declared type") ∧
    (∀ history, Session.loaded? history = some program →
      (Session.after history).run.outcome ≠ .error .noProgramLoaded) ∧
    (∀ front, front <+: program.changes → (ScopeTree.empty.replay front).ListFree) ∧
    (∀ visit, program.Visits visit → visit.state.scopes.ListFree ∧
      (∀ type, visit.Derives type → type.ListFree) ∧
      ∀ type, visit.Builds type → ∃ text, type.constructor = .ok text) ∧
    ∀ feature, program.compile = .error (.unsupportedFeature feature) →
      ∃ visit descriptor, program.Visits visit ∧ visit.Lowers descriptor ∧
        descriptor.lower = .error (.unsupportedFeature feature) := by
  refine ⟨?_, ?_, ?_, ?_, ?_⟩
  · intro error failed
    have accounted := Program.accounted_of_compile failed
    refine ⟨accounted.loaded, accounted.symbol, ?_⟩
    rintro tag fault rfl same
    exact accounted.payload tag (LiteralFault.text_eq_foreign same ▸ rfl)
  · intro history loaded unloaded
    have known := (Session.program_after history).trans loaded
    obtain ⟨_, -, outcome, -⟩ | ⟨error, failed, outcome, -⟩ := Session.run_cases known
    · cases outcome.symm.trans unloaded
    · cases outcome.symm.trans unloaded
      exact (Program.accounted_of_compile failed).loaded rfl
  · rintro front ⟨back, whole⟩
    have leads := program.performed
    rw [← whole] at leads
    exact leads.behind.listFree program.listFree_after_emit
  · intro visit visits
    have free := Program.listFree_of_visits visits
    refine ⟨free, ?_, ?_⟩
    · exact fun _ derives => derives.listFree free
    · exact fun _ builds => builds.exists_constructor free
  · intro feature failed
    exact (Program.accounted_of_compile failed).feature feature rfl

/-- A program that asks for a list type: the missing feature is blamed on a descriptor that was
lowered on the way, and not on a constructor. -/
theorem internal_failures_unreachable_of_listing :
    let listing : Program := [.bind "xs" (.new (.type .list none [] none []))]
    listing.compile = .error (.unsupportedFeature .listTypes) ∧
      (∃ visit descriptor, listing.Visits visit ∧ visit.Lowers descriptor ∧
        descriptor.lower = .error (.unsupportedFeature .listTypes)) ∧
      (Session.after [.load listing, .run]).run.outcome ≠ .error .noProgramLoaded := by
  intro listing
  have failed : listing.compile = .error (.unsupportedFeature .listTypes) := rfl
  obtain ⟨-, loaded, -, -, blamed⟩ := internal_failures_unreachable listing
  exact ⟨failed, blamed _ failed, loaded [.load listing, .run] rfl⟩

end Arbor
