import Arbor.Proofs.Agreement
import Arbor.Proofs.Constructible

/-!
# Names in the host

The host brings a `let` into scope in the whole of its body, before its own statement too, so an
emitted name means the nearest declaration in the tree as it is at the end. The walk looks names up
in the tree as it is so far. The two agree on every name of an accepted program exactly when the
program is ordered: no body uses a name from around it that it declares at that statement or
further down.
-/

namespace Arbor

open Emit

variable {α β : Type}

/-- The step leaves the scopes alone. -/
def Quiet (step : Emit α) : Prop :=
  ∀ before a after, step.run before = .ok a after → after.scopes = before.scopes

namespace Quiet

theorem pure (a : α) : Quiet (Pure.pure a) := by
  rintro before _ after ⟨⟩
  rfl

theorem throw (e : CompileError) : Quiet (MonadExcept.throw e : Emit α) := by
  rintro before _ after ⟨⟩

theorem tell (event : Event) : Quiet (Emit.tell event) := by
  rintro before _ after ⟨⟩
  rfl

theorem ofExcept (value : Except CompileError α) : Quiet (Emit.ofExcept value) := by
  cases value with
  | ok a => exact .pure a
  | error e => exact .throw e

theorem ite {p : Prop} [Decidable p] {x y : Emit α} (yes : Quiet x) (no : Quiet y) :
    Quiet (if p then x else y) := by
  split
  · exact yes
  · exact no

theorem expectType (expected found : Ty) (site : Site) :
    Quiet (Emit.expectType expected found site) :=
  .ite (.pure ()) (.throw _)

theorem bind {x : Emit α} {f : α → Emit β} (first : Quiet x) (rest : ∀ a, Quiet (f a)) :
    Quiet (x >>= f) := by
  intro before b after run
  obtain ⟨a, middle, ran, run⟩ := bind_eq_ok.mp run
  rw [rest a middle b after run, first before a middle ran]

end Quiet

/-- Every run of the step that goes through looks up what the trace lists, with the usage that is
given for inside and for outside of functions. -/
def Traced (step : Nat → Emit α) (declared : List String) (trace : Trace)
    (usage : Bool → Usage) : Prop :=
  ∀ scope before a after, scope < before.scopes.next → (step scope).run before = .ok a after →
    Looks scope declared (trace scope before) (usage (before.scopes.inFunction scope))
      before.scopes after.scopes

namespace Traced

variable {x : Nat → Emit α} {f : α → Nat → Emit β} {declared : List String} {first last : Trace}
  {usage rest : Bool → Usage}

theorem quiet (still : ∀ scope, Quiet (x scope)) : Traced x [] .none fun _ => .none := by
  intro scope before a after h run
  rw [still scope before a after run]
  exact .silent scope before.scopes

theorem throw (e : CompileError) : Traced (fun _ => (MonadExcept.throw e : Emit α)) declared first
    usage := by
  rintro scope before _ after _ ⟨⟩

theorem andThen (traced : Traced x [] first usage) (next : ∀ a, Traced (f a) declared last rest) :
    Traced (fun scope => x scope >>= fun a => f a scope) declared (.andThen first x last)
      fun inside => (usage inside).append (rest inside) := by
  intro scope before b after h run
  obtain ⟨a, middle, ran, run⟩ := bind_eq_ok.mp run
  have looks := traced scope before a middle h ran
  have looksNext := next a scope middle b after (looks.lt h) run
  rw [looks.inFunction_eq h] at looksNext
  have whole := looks.andThen h looksNext
  rw [Trace.andThen, ran]
  exact whole

/-- What is done with the value of a step looks nothing up. -/
theorem bind_quiet (traced : Traced x declared first usage) (still : ∀ a scope, Quiet (f a scope)) :
    Traced (fun scope => x scope >>= fun a => f a scope) declared first usage := by
  intro scope before b after h run
  obtain ⟨a, middle, ran, run⟩ := bind_eq_ok.mp run
  rw [still a scope middle b after run]
  exact traced scope before a middle h ran

theorem ofExcept {value : Except CompileError α}
    (next : ∀ a, value = .ok a → Traced (f a) declared first usage) :
    Traced (fun scope => Emit.ofExcept value >>= fun a => f a scope) declared first usage := by
  cases value with
  | ok a => exact next a rfl
  | error e => exact .throw e

theorem ite {p : Prop} [Decidable p] {y : Nat → Emit α} (yes : p → Traced x declared first usage)
    (no : ¬p → Traced y declared first usage) :
    Traced (fun scope => if p then x scope else y scope) declared first usage := by
  split
  · next holds => exact yes holds
  · next fails => exact no fails

theorem expectType (expected found : Ty) (site : Site) (next : Traced x declared first usage) :
    Traced (fun scope => Emit.expectType expected found site >>= fun _ => x scope) declared first
      usage := by
  intro scope before b after h run
  obtain ⟨_, middle, ran, run⟩ := bind_eq_ok.mp run
  rw [expectType_run] at ran
  split at ran
  · cases ran
    exact next scope before b after h run
  · cases ran

theorem resolve (name : String) :
    Traced (fun scope => Emit.resolve scope name) [] (.name name) fun _ => .name name := by
  intro scope before type after h run
  dsimp only at run
  rw [resolve_run] at run
  cases found : before.scopes.lookup? scope name with
  | none => simp [found] at run
  | some type =>
    rw [found] at run
    cases run
    refine ⟨⟨[], .refl _ _, rfl⟩, by simp, ?_, by simp [Trace.name, Usage.name]⟩
    simpa [Trace.name, Lookup.found?] using ScopeTree.nearest?_isSome.mpr (by simp [found])

theorem declare (name : String) (type : Ty) :
    Traced (fun scope => Emit.declare scope name type) [name] .none fun _ => .none := by
  intro scope before _ after h run
  dsimp only at run
  rw [declare_run] at run
  cases done : before.scopes.declare scope name type with
  | error e => simp [done] at run
  | ok scopes =>
    rw [done] at run
    cases run
    refine ⟨⟨_, .declare done, rfl⟩, ?_, by simp [Trace.none], by simp [Trace.none, Usage.none]⟩
    unfold ScopeTree.declare at done
    split at done
    · cases done
    · next absent => simpa [Fields.names] using absent

/-! ## Expressions -/

theorem identifier (name : String) :
    Traced (Emit.identifier name) [] (.name name) fun _ => .name name :=
  (Traced.resolve name).bind_quiet fun _ _ => .pure _

theorem newValue (target : Node) :
    Traced (fun _ => Emit.newValue target) [] .none fun _ => .none :=
  .quiet fun _ => (Quiet.ofExcept _).bind fun _ => (Quiet.tell _).bind fun _ =>
    (Quiet.ofExcept _).bind fun _ => .pure _

theorem binary (op : BinaryOp) {left right : Nat → Emit Emitted}
    (traced : Traced left [] first usage) (next : Traced right [] last rest) :
    Traced (Emit.binary op left right) [] (.andThen first left last)
      fun inside => (usage inside).append (rest inside) :=
  traced.andThen fun _ => next.bind_quiet fun _ _ => (Quiet.expectType _ _ _).bind fun _ =>
    .ite ((Quiet.ofExcept _).bind fun _ => .pure _) (.throw _)

theorem unary (op : UnaryOp) {operand : Nat → Emit Emitted}
    (traced : Traced operand [] first usage) : Traced (Emit.unary op operand) [] first usage :=
  traced.bind_quiet fun _ _ => .ite ((Quiet.ofExcept _).bind fun _ => .pure _) (.throw _)

section Parts

variable {ι : Type} (emit : ι → Nat → Emit Emitted) (trace : ι → Trace) (uses : ι → Bool → Usage)

theorem arguments {items : List ι} (parts : ∀ i ∈ items, Traced (emit i) [] (trace i) (uses i))
    {types : List Ty} (count : types.length = items.length) (position : Nat) :
    Traced (fun scope => Emit.arguments scope position (items.map emit) types) []
      (.sequence (items.map fun i => (trace i, emit i)))
      fun inside => .sequence (items.map fun i => uses i inside) := by
  induction items generalizing types position with
  | nil => exact .quiet fun _ => by simpa [Emit.arguments] using .pure []
  | cons item items ih =>
    cases types with
    | nil => cases count
    | cons expected others =>
      refine (parts item (by simp)).andThen fun argument => .expectType _ _ _ ?_
      refine (ih (fun i hi => parts i (by simp [hi])) (Nat.succ.inj count) _).bind_quiet ?_
      exact fun _ _ => .pure _

theorem call {callee : Nat → Emit Emitted} (traced : Traced callee [] first usage) {items : List ι}
    (parts : ∀ i ∈ items, Traced (emit i) [] (trace i) (uses i)) :
    Traced (Emit.call callee (items.map emit)) []
      (.andThen first callee (.sequence (items.map fun i => (trace i, emit i))))
      fun inside => (usage inside).append (.sequence (items.map fun i => uses i inside)) := by
  refine traced.andThen fun callee => ?_
  cases callee.type with
  | fn types returns =>
    refine .ite (fun count => ?_) fun _ => .throw _
    rw [List.length_map] at count
    exact (arguments emit trace uses parts count 1).bind_quiet fun _ _ => .pure _
  | prim p => exact .throw _
  | obj fields => exact .throw _
  | list => exact .throw _

/-- The fields of an object are visited in the order in which its type declares them. -/
theorem entries {fields : List (String × ι)}
    (parts : ∀ f ∈ fields, Traced (emit f.2) [] (trace f.2) (uses f.2)) (declared : List (String × Ty)) :
    Traced (fun scope => Emit.entries (fields.map fun f => (f.1, emit f.2)) scope declared) []
      (.sequence (declared.filterMap fun field =>
        (fields.map fun f => (f.1, trace f.2, emit f.2)).lookup field.1))
      fun inside => .sequence (declared.filterMap fun field =>
        (fields.map fun f => (f.1, uses f.2 inside)).lookup field.1) := by
  induction declared with
  | nil => exact .quiet fun _ => .pure ""
  | cons field rest ih =>
    obtain ⟨name, expected⟩ := field
    have lookupTrace := Fields.lookup_map (fun i => (trace i, emit i)) name fields
    have lookupUses (inside : Bool) := Fields.lookup_map (fun i => uses i inside) name fields
    simp only [Emit.entries, List.filterMap_cons, Fields.lookup_map emit, lookupTrace, lookupUses]
    cases found : fields.lookup name with
    | none => exact .throw _
    | some item =>
      refine (parts _ (Fields.mem_of_lookup found)).andThen fun value => .expectType _ _ _ ?_
      exact ih.bind_quiet fun _ _ => .pure _

theorem object {fields : List (String × ι)}
    (parts : ∀ f ∈ fields, Traced (emit f.2) [] (trace f.2) (uses f.2))
    (declared : List (String × Ty)) :
    Traced (Emit.object (fields.map fun f => (f.1, emit f.2)) declared) []
      (.sequence (declared.filterMap fun field =>
        (fields.map fun f => (f.1, trace f.2, emit f.2)).lookup field.1))
      fun inside => .sequence (declared.filterMap fun field =>
        (fields.map fun f => (f.1, uses f.2 inside)).lookup field.1) := by
  unfold Emit.object
  split
  · exact .throw _
  · exact (entries emit trace uses parts declared).bind_quiet fun _ _ => .pure _

end Parts

end Traced

/-- As `Traced`, of the statements of a whole body. -/
def BodyTraced (step : Nat → Emit α) (declared : List String) (trace : Trace)
    (usage : Bool → Usage) : Prop :=
  ∀ scope before a after, scope < before.scopes.next → (step scope).run before = .ok a after →
    BodyLooks scope declared (trace scope before) (usage (before.scopes.inFunction scope))
      before.scopes after.scopes

section Bodies

variable {body : Nat → Emit String} {declared : List String} {trace : Trace}
  {usage : Bool → Usage}

theorem BodyTraced.block (traced : BodyTraced body declared trace usage) :
    Traced (Emit.block body) [] (.block trace) usage := by
  intro scope before text after h run
  obtain ⟨inner, opened, ran, run⟩ := bind_eq_ok.mp run
  rw [openScope_run] at ran
  cases ran
  obtain ⟨statements, last, ran, run⟩ := bind_eq_ok.mp run
  cases run
  have looks := traced _ _ _ _ (by simp) ran
  rw [ScopeTree.inFunction_push .block h] at looks
  have whole := looks.looks h (.refl _ _)
  rw [Fields.names, List.map_nil, Usage.below_nil] at whole
  exact whole

/-- The parameters are declared one behind the other. -/
theorem declareParameters_grows {names : List String} {types : List Ty} {scope : Nat}
    {before after : EmitState} (h : scope < before.scopes.next)
    (count : names.length = types.length)
    (run : (Emit.declareParameters scope names types).run before = .ok () after) :
    before.scopes.Grows scope (names.zip types) after.scopes := by
  induction names generalizing types before with
  | nil =>
    cases run
    exact .refl _ _
  | cons name names ih =>
    cases types with
    | nil => cases count
    | cons type types =>
      unfold Emit.declareParameters at run
      split at run
      · obtain ⟨_, middle, ran, run⟩ := bind_eq_ok.mp run
        rw [declare_run] at ran
        cases done : before.scopes.declare scope name type with
        | error e => simp [done] at ran
        | ok scopes =>
          rw [done] at ran
          cases ran
          have grows := ScopeTree.Grows.declare done
          exact grows.trans (ih (Nat.lt_of_lt_of_le h grows.next_le) (Nat.succ.inj count) run) h
      · cases run

theorem BodyTraced.function (parameters : List String) (types : List Ty)
    (traced : BodyTraced body declared trace usage) :
    Traced (Emit.function parameters types body) [] (.function parameters types trace)
      fun _ => (usage true).below parameters := by
  refine .ite (fun count => ?_) fun _ => .throw _
  intro scope before text after h run
  obtain ⟨inner, opened, ran, run⟩ := bind_eq_ok.mp run
  rw [openScope_run] at ran
  cases ran
  obtain ⟨_, entered, ran, run⟩ := bind_eq_ok.mp run
  have grows := declareParameters_grows (by simp) count ran
  obtain ⟨statements, last, ran', run⟩ := bind_eq_ok.mp run
  cases run
  have looks := traced _ _ _ _ (Nat.lt_of_lt_of_le (by simp) grows.next_le) ran'
  rw [grows.inFunction_eq (by simp), ScopeTree.inFunction_push .function h] at looks
  have whole := looks.looks h grows
  rw [Fields.names, List.map_fst_zip (Nat.le_of_eq count)] at whole
  rw [Trace.function, openScope_run]
  dsimp only [Emit.after] at ran ⊢
  rw [ran]
  exact whole

end Bodies

/-! ## Literals and nodes -/

/-- The payloads of primitive types leave the scopes alone. -/
theorem Quiet.payload_prim (p : Primitive) (type : Ty) (value : Option Payload)
    (parameters : List String) (body : Nat → Emit String)
    (fields : List (String × (Nat → Emit Emitted))) (scope : Nat) :
    Quiet (Emit.payload (.prim p) type value parameters body fields scope) := by
  unfold Emit.payload
  split
  · exact .pure _
  · exact .pure _
  · exact .pure _
  · exact .pure _
  · exact .pure _
  · exact .pure _
  · exact (Quiet.ofExcept _).bind fun _ => .ofExcept _
  · next tag => cases tag
  · next tag => cases tag
  · exact .throw _
  · exact .throw _

/-- The payloads of primitive types look nothing up. -/
theorem Traced.payload_prim (p : Primitive) (type : Ty) (value : Option Payload)
    (parameters : List String) (body : Nat → Emit String)
    (fields : List (String × (Nat → Emit Emitted))) :
    Traced (Emit.payload (.prim p) type value parameters body fields) [] .none fun _ => .none :=
  .quiet (Quiet.payload_prim p type value parameters body fields)

section Literals

variable {declared : List String} {trace : Trace} {usage : Bool → Usage}

/-- What a literal looks up, type by type. -/
theorem Traced.literal {descriptor : Node} {value : Option Payload} {parameters : List String}
    {body : Nat → Emit String} {fields : List (String × (Nat → Emit Emitted))}
    (typed : ∀ type, descriptor.lower = .ok type →
      Traced (Emit.payload type.descriptorTag type value parameters body fields) [] trace usage) :
    Traced (Emit.literal descriptor value parameters body fields) [] trace usage := by
  refine .ofExcept fun tag tagged => .ofExcept fun type lowered => ?_
  rw [Node.descriptorTag_of_lower lowered] at tagged
  cases tagged
  exact (typed type lowered).bind_quiet fun _ _ => (Quiet.ofExcept _).bind fun _ => .pure _

end Literals

/-- A node looks up what its trace lists, in each place. -/
structure Node.Traces (node : Node) : Prop where
  expression : Traced node.rendering.expression [] node.trace fun inside => node.usage inside
  statement :
    Traced node.rendering.statement node.declared node.trace fun inside => node.usage inside

namespace Node.Traces

variable {node : Node}

theorem ofExpression {kind : String} {emit : Nat → Emit Emitted}
    (rendered : node.rendering = .ofExpression kind emit) (nothing : node.declared = [])
    (traced : Traced emit [] node.trace fun inside => node.usage inside) : node.Traces := by
  constructor
  · rw [rendered]
    exact traced
  · rw [rendered, nothing]
    exact traced.bind_quiet fun _ _ => (Quiet.tell _).bind fun _ => .pure _

theorem ofStatement {kind : String} {emit : Nat → Emit String}
    (rendered : node.rendering = .ofStatement kind emit)
    (traced : Traced emit node.declared node.trace fun inside => node.usage inside) :
    node.Traces := by
  constructor
  · rw [rendered]
    exact .throw _
  · rw [rendered]
    exact traced.bind_quiet fun _ _ => (Quiet.tell _).bind fun _ => .pure _

theorem unhandled {kind : String} (rendered : node.rendering = .unhandled kind) : node.Traces := by
  constructor
  · rw [rendered]
    exact .throw _
  · rw [rendered]
    exact .throw _

end Node.Traces

theorem body_traced {nodes : List Node} (parts : ∀ n ∈ nodes, n.Traces) :
    BodyTraced (Rendering.body (renderings nodes)) (nodes.flatMap Node.declared) (bodyTrace nodes)
      fun inside => bodyUsage inside nodes := by
  rw [renderings_eq_map, Rendering.body, List.map_map]
  induction nodes with
  | nil =>
    rintro scope before _ after h ⟨⟩
    exact .nil scope before.scopes
  | cons node rest ih =>
    intro scope before text after h run
    obtain ⟨_, middle, ran, run⟩ := bind_eq_ok.mp run
    obtain ⟨_, last, ran', run⟩ := bind_eq_ok.mp run
    cases run
    have looks := (parts node (by simp)).statement scope before _ middle h ran
    have looksRest := ih (fun n hn => parts n (by simp [hn])) scope middle _ _ (looks.lt h) ran'
    rw [looks.inFunction_eq h] at looksRest
    change (node.rendering.statement scope).run before = _ at ran
    rw [bodyTrace, Trace.andThen, ran]
    exact BodyLooks.cons h looks looksRest

theorem literal_traced {descriptor : Node} {payload : Option Payload} {parameters : List String}
    {body : List Node} (fieldParts : ∀ f ∈ Payload.entries payload, f.2.Traces)
    (bodyParts : ∀ n ∈ body, n.Traces) :
    (Node.literal descriptor payload parameters body).Traces := by
  refine .ofExpression (Node.rendering_literal ..) rfl (.literal fun type lowered => ?_)
  cases payload with
  | none =>
    simp only [Node.trace, Node.usage, lowered]
    cases type with
    | prim p => exact .payload_prim p _ _ _ _ _
    | fn types returns => exact (body_traced bodyParts).function parameters types
    | obj declared => exact .throw _
    | list => exact .throw _
  | some payload =>
    simp only [Node.trace, Node.usage, lowered]
    cases type with
    | prim p => exact .payload_prim p _ _ _ _ _
    | fn types returns => exact .throw _
    | obj declared =>
      cases payload with
      | fields fields =>
        simp only [Payload.traces, Payload.usages, fieldTraces_eq_map, fieldUsages_eq_map]
        exact .object (fun n : Node => n.rendering.expression) Node.trace
          (fun n inside => n.usage inside) (fun f hf => (fieldParts f hf).expression) declared
      | _ => exact .throw _
    | list => exact .throw _

/-! ## Statements -/

section Statements

variable {first last : Trace} {usage rest : Bool → Usage}

theorem Traced.bindName (name : String) {value : Nat → Emit Emitted}
    (traced : Traced value [] first usage) : Traced (Emit.bind name value) [name] first usage := by
  refine .ite (fun _ => ?_) fun _ => .throw _
  have steps := traced.andThen fun value => (Traced.declare name value.type).bind_quiet
    fun _ _ => .pure ("let " ++ name ++ " = " ++ value.text)
  intro scope before text after h run
  have looks := steps scope before text after h run
  simpa [Trace.andThen, Trace.none, Usage.append, Usage.none] using looks

theorem Traced.assign (name : String) {value : Nat → Emit Emitted}
    (traced : Traced value [] first usage) :
    Traced (Emit.assign (.ident name) value) []
      (.andThen (.name name) (fun scope => Emit.resolve scope name) first)
      fun inside => (Usage.name name).append (usage inside) :=
  (Traced.resolve name).andThen fun _ => traced.bind_quiet fun _ _ =>
    (Quiet.expectType _ _ _).bind fun _ => .pure _

theorem Traced.ret (value : Nat → Emit Emitted) (traced : Traced value [] first usage) :
    Traced (Emit.ret (some value)) [] (.inFunction first)
      fun inside => if inside then usage inside else .none := by
  intro scope before text after h run
  change (if before.scopes.inFunction scope then _ else _ : Emit (Option String)).run before = _
    at run
  dsimp only [Trace.inFunction]
  split at run
  · next within =>
    rw [if_pos within, if_pos within]
    exact traced.bind_quiet (fun value _ => .pure (some ("return " ++ value.text))) scope before text
      after h run
  · next without =>
    rw [if_neg without, if_neg without]
    cases run
    exact .silent scope before.scopes

theorem Traced.condition {test : Nat → Emit Emitted} (traced : Traced test [] first usage)
    (site : Site) : Traced (Emit.condition test site) [] first usage :=
  traced.bind_quiet fun _ _ => (Quiet.expectType _ _ _).bind fun _ => .pure _

end Statements

/-- A node looks up what its trace lists, kind by kind. -/
theorem Node.traces (node : Node) : node.Traces := by
  induction node with
  | bind name value ih => exact .ofStatement rfl (.bindName name ih.expression)
  | assign target value _ ih =>
    refine .ofStatement rfl ?_
    cases target with
    | ident name => exact .assign name ih.expression
    | _ => exact .throw _
  | ret value ih =>
    constructor
    · rw [Node.rendering_ret]
      exact .throw _
    · cases value with
      | none =>
        intro scope before text after h run
        change (if before.scopes.inFunction scope then _ else _ : Emit (Option String)).run before =
          _ at run
        split at run
        · cases run
          exact .silent scope before.scopes
        · cases run
          exact .silent scope before.scopes
      | some value => exact .ret _ (ih value rfl).expression
  | branch condition body otherwise conditionIH bodyIH otherwiseIH =>
    refine .ofStatement (Node.rendering_branch ..) ?_
    have tested := conditionIH.expression.condition .ifCondition
    have inside := (body_traced bodyIH).block
    cases otherwise with
    | none => exact tested.andThen fun _ => inside.bind_quiet fun _ _ => .pure _
    | some other =>
      have outside := (body_traced (otherwiseIH other rfl)).block
      exact tested.andThen fun _ => inside.andThen fun _ => outside.bind_quiet fun _ _ => .pure _
  | loop condition body conditionIH bodyIH =>
    refine .ofStatement rfl ?_
    have tested := conditionIH.expression.condition .whileCondition
    exact tested.andThen fun _ => (body_traced bodyIH).block.bind_quiet fun _ _ => .pure _
  | ident name => exact .ofExpression rfl rfl (.identifier name)
  | literal type payload parameters body _ _ fieldsIH bodyIH =>
    exact literal_traced fieldsIH bodyIH
  | new target => exact .ofExpression rfl rfl (.newValue target)
  | binary op left right leftIH rightIH =>
    exact .ofExpression rfl rfl (.binary op leftIH.expression rightIH.expression)
  | unary op operand ih => exact .ofExpression rfl rfl (.unary op ih.expression)
  | call callee arguments calleeIH argumentsIH =>
    refine .ofExpression (Node.rendering_call ..) rfl ?_
    simp only [Node.trace, Node.usage, argumentTraces_eq_map, usages_eq_map]
    exact .call (fun n : Node => n.rendering.expression) Node.trace
      (fun n inside => n.usage inside) calleeIH.expression fun argument member => (argumentsIH argument member).expression
  | member object property => exact .unhandled rfl
  | element object index => exact .unhandled rfl
  | type tag name parameters returns fields => exact .unhandled rfl
  | unknown kind => exact .unhandled rfl

namespace Program

/-- A program whose second statement opens a body that declares `name` with a value. -/
def shadowing (name : String) (value : Node) (body : List Node) : Program :=
  [.bind name (.new (.type (.prim .bool) none [] none [])),
   .branch (.ident name) (.bind name value :: body) none]

/-- Every name of an accepted program is found in the scope the host finds it in exactly when the
program is ordered. -/
theorem host_agrees_iff_ordered {program : Program} {output : String} {state : EmitState}
    (accepted : program.emit = .ok output state) :
    (∀ lookup ∈ program.lookups, ∃ found, lookup.found? = some found ∧
      state.scopes.nearest? lookup.scope lookup.name = some found) ↔ program.Ordered := by
  have looks := body_traced (fun n (_ : n ∈ program) => n.traces) ScopeTree.root .initial output state
    (by decide) accepted
  have decided := looks.agrees state.scopes (.refl _ _) rfl
  have around (name : String) : state.scopes.outer? ScopeTree.root name =
      EmitState.initial.scopes.outer? ScopeTree.root name := by
    obtain ⟨added, grows, -⟩ := looks.grows
    exact grows.outer?_eq (by decide)
  have outside : EmitState.initial.scopes.inFunction ScopeTree.root = false := by decide
  simp only [around, or_true, implies_true, and_true, outside] at decided
  rw [Ordered, ← decided]
  refine forall_congr' fun lookup => forall_congr' fun member => ?_
  obtain ⟨found, known⟩ := Option.isSome_iff_exists.mp (looks.found lookup member)
  simp [Lookup.Agrees, known]

/-- A body that hides a name and uses its own from then on. -/
theorem host_agrees_on_hiding : ∃ output state,
    (shadowing "a" (.new (.type (.prim .int) none [] none [])) [.ident "a"]).emit = .ok output state ∧
      ∀ lookup ∈ (shadowing "a" (.new (.type (.prim .int) none [] none [])) [.ident "a"]).lookups,
        ∃ found, lookup.found? = some found ∧
          state.scopes.nearest? lookup.scope lookup.name = some found :=
  ⟨_, _, rfl, (host_agrees_iff_ordered rfl).mpr (by decide)⟩

/-- A body that hides a name with its own value is accepted, and the host finds the new name where
the walk has found the old one. -/
theorem host_disagrees_on_self_reference :
    ¬∀ (program : Program) (output : String) (state : EmitState),
      program.emit = .ok output state → ∀ lookup ∈ program.lookups,
        state.scopes.nearest? lookup.scope lookup.name = lookup.found? := by
  intro all
  have inside := all (shadowing "a" (.ident "a") []) _ _ rfl
  have member := inside _ (List.mem_cons_of_mem _ (List.mem_cons_self ..))
  revert member
  decide

end Program

end Arbor
