import Arbor.Compile.Session
import Arbor.Proofs.EmitRun
import Arbor.Proofs.Lexical
import Arbor.Proofs.NodeInduction
import Arbor.Proofs.Tables

/-!
# Scope trees refine plain environments

Emission keeps every scope it ever opened in one tree and changes that tree in the middle of
expressions. `Program.compile_eq_compileLexically` says that this cannot be told apart from
carrying an immutable stack of frames: both compilations give the same artifact or the same error.

The relation between the two is growth. While the parts of an expression in `scope` are visited,
the tree differs from the one at the start by scopes opened inside `scope` only, so the frames seen
from `scope` stay the same (`Follows` under `Within`). A statement may also declare one name in
`scope`, and the frames behind it are those of the tree behind it (`States`). Both relations are
carried through every construct, on success and on failure alike.
-/

namespace Arbor.Emit

variable {α β : Type}

/-- From any state with the invariant, `emit` comes to what `reference` says, and the invariant
holds again, whether it fails or not. -/
def Follows (inv : EmitState → Prop) (emit : Emit α) (reference : Except CompileError α) : Prop :=
  ∀ state, inv state → inv (after (emit.run state)) ∧ outcome (emit.run state) = reference

section Follows

variable {inv : EmitState → Prop}

theorem Follows.pure (a : α) : Follows inv (Pure.pure a) (.ok a) :=
  fun _ h => ⟨h, rfl⟩

theorem Follows.throw (e : CompileError) : Follows inv (MonadExcept.throw e : Emit α) (.error e) :=
  fun _ h => ⟨h, rfl⟩

theorem Follows.of_eq {emit : Emit α} {first last : Except CompileError α}
    (steps : Follows inv emit first) (same : first = last) : Follows inv emit last :=
  same ▸ steps

theorem Follows.bind {x : Emit α} {y : Except CompileError α} {f : α → Emit β}
    {g : α → Except CompileError β} (first : Follows inv x y)
    (rest : ∀ a, Follows inv (f a) (g a)) : Follows inv (x >>= f) (y >>= g) := by
  intro state h
  obtain ⟨kept, same⟩ := first state h
  rw [bind_run]
  cases hx : x.run state with
  | ok a next =>
    rw [hx] at kept same
    subst same
    exact rest a next kept
  | error e next =>
    rw [hx] at kept same
    subst same
    exact ⟨kept, rfl⟩

theorem Follows.ofExcept (value : Except CompileError α) :
    Follows inv (Emit.ofExcept value) value := by
  cases value with
  | ok a => exact .pure a
  | error e => exact .throw e

theorem Follows.ite {p : Prop} [Decidable p] {x x' : Emit α} {y y' : Except CompileError α}
    (yes : Follows inv x y) (no : Follows inv x' y') :
    Follows inv (if p then x else x') (if p then y else y') := by
  split
  · exact yes
  · exact no

theorem Follows.expectType (expected found : Ty) (site : Site) :
    Follows inv (Emit.expectType expected found site)
      (Lexical.expectType expected found site) :=
  .ite (.pure ()) (.throw _)

end Follows

/-- The tree has grown inside `scope` only, and `scope` declares what it did at the start. -/
def Within (scope : Nat) (start : ScopeTree) (state : EmitState) : Prop :=
  start.Grows scope [] state.scopes

/-- A step in a scope is what the reference says of the frames there, and declares nothing. -/
def Expresses (emit : Nat → Emit α) (reference : Frames → Except CompileError α) : Prop :=
  ∀ (start : ScopeTree) (scope : Nat), scope < start.next →
    Follows (Within scope start) (emit scope) (reference (start.frames scope))

/-- A step in a scope is what the reference says of the frames there, and the frames the reference
gives back are those seen from the scope after the step. -/
def States (emit : Nat → Emit α) (reference : Frames → Except CompileError (α × Frames)) : Prop :=
  ∀ (scope : Nat) (state : EmitState), scope < state.scopes.next →
    (∃ added, state.scopes.Grows scope added (after ((emit scope).run state)).scopes) ∧
      (outcome ((emit scope).run state)).map (fun a => (a, (after ((emit scope).run state)).scopes.frames scope)) =
        reference (state.scopes.frames scope)

section Steps

variable {scope : Nat} {start : ScopeTree}

/-- A note in the log is left out by the reference. -/
theorem Follows.tell_bind (event : Event) {emit : Emit α} {reference : Except CompileError α}
    (rest : Follows (Within scope start) emit reference) :
    Follows (Within scope start) (do tell event; emit) reference :=
  fun state within => rest { state with log := event :: state.log } within

theorem Expresses.resolve (name : String) :
    Expresses (fun scope => Emit.resolve scope name) (Lexical.resolve name) := by
  intro start scope h state within
  have found : state.scopes.lookup? scope name = (start.frames scope).type? name := by
    rw [ScopeTree.lookup?_eq_type?, within.frames_same h]
  dsimp only
  rw [resolve_run, found, Lexical.resolve]
  cases (start.frames scope).type? name with
  | none => exact ⟨within, rfl⟩
  | some type => exact ⟨within, rfl⟩

/-- A step that declares nothing, as a statement. -/
theorem Expresses.states {emit : Nat → Emit α} {reference : Frames → Except CompileError α}
    (steps : Expresses emit reference) :
    States emit fun frames => (reference frames).map fun a => (a, frames) := by
  intro scope state h
  obtain ⟨within, same⟩ := steps state.scopes scope h state (.refl scope state.scopes)
  refine ⟨⟨[], within⟩, ?_⟩
  rw [same, within.frames_same h]

theorem States.congr {emit : Nat → Emit α} {first last : Frames → Except CompileError (α × Frames)}
    (steps : States emit first) (same : ∀ frames, first frames = last frames) :
    States emit last :=
  (funext same : first = last) ▸ steps

theorem States.pure (a : α) : States (fun _ => Pure.pure a) fun frames => .ok (a, frames) :=
  fun scope state _ => ⟨⟨[], .refl scope state.scopes⟩, rfl⟩

theorem States.throw (e : CompileError) :
    States (fun _ => (MonadExcept.throw e : Emit α)) fun _ => .error e :=
  fun scope state _ => ⟨⟨[], .refl scope state.scopes⟩, rfl⟩

/-- Statements in sequence: the frames behind the first are those before the second. -/
theorem States.bind {x : Nat → Emit α} {y : Frames → Except CompileError (α × Frames)}
    {f : α → Nat → Emit β} {g : α → Frames → Except CompileError (β × Frames)}
    (first : States x y) (rest : ∀ a, States (f a) (g a)) :
    States (fun scope => x scope >>= fun a => f a scope)
      fun frames => y frames >>= fun result => g result.1 result.2 := by
  intro scope state h
  obtain ⟨⟨added, grows⟩, same⟩ := first scope state h
  rw [bind_run]
  cases hx : (x scope).run state with
  | ok a next =>
    rw [hx] at grows same
    dsimp only
    rw [← same]
    obtain ⟨⟨more, grows'⟩, same'⟩ := rest a scope next (Nat.lt_of_lt_of_le h grows.next_le)
    exact ⟨⟨added ++ more, grows.trans grows' h⟩, same'⟩
  | error e next =>
    rw [hx] at grows same
    dsimp only
    rw [← same]
    exact ⟨⟨added, grows⟩, rfl⟩

theorem States.tell_bind (event : Event) {emit : Nat → Emit α}
    {reference : Frames → Except CompileError (α × Frames)} (rest : States emit reference) :
    States (fun scope => do tell event; emit scope) reference :=
  fun scope state h => rest scope { state with log := event :: state.log } h

theorem States.declare (name : String) (type : Ty) :
    States (fun scope => Emit.declare scope name type)
      fun frames => (frames.declare name type).map fun frames => ((), frames) := by
  intro scope state h
  obtain ⟨outer, innermost⟩ := ScopeTree.frames_eq_cons h
  dsimp only
  rw [declare_run]
  cases declared : state.scopes.declare scope name type with
  | error e =>
    refine ⟨⟨[], .refl scope state.scopes⟩, ?_⟩
    rw [innermost, Frames.declare]
    unfold ScopeTree.declare at declared
    split at declared
    · next again =>
      cases declared
      rw [if_pos (by exact again)]
      rfl
    · cases declared
  | ok scopes =>
    have grows := ScopeTree.Grows.declare declared
    refine ⟨⟨_, grows⟩, ?_⟩
    change Except.ok ((), scopes.frames scope) = _
    rw [grows.frames_eq h, innermost, Frames.declare]
    unfold ScopeTree.declare at declared
    split at declared
    · cases declared
    · next fresh => rw [if_neg (by exact fresh)]; rfl

/-- A body in a scope of its own leaves nothing behind but its text. -/
theorem States.inner {emit : Nat → Emit α} {reference : Frames → Except CompileError (α × Frames)}
    (body : States emit reference) (kind : ScopeKind) :
    Expresses (fun scope => openScope scope kind >>= emit) fun frames =>
      (reference (⟨[], kind == .function⟩ :: frames)).map Prod.fst := by
  intro start scope h state within
  have h' : scope < state.scopes.next := Nat.lt_of_lt_of_le h within.next_le
  dsimp only
  rw [bind_run, openScope_run]
  dsimp only
  have fresh : state.scopes.next < (state.scopes.push scope kind).next := by
    rw [ScopeTree.next_push]
    omega
  obtain ⟨⟨added, grows⟩, same⟩ := body state.scopes.next
    ⟨state.scopes.push scope kind, .openedScope state.scopes.next scope kind :: state.log⟩ fresh
  refine ⟨within.trans (grows.inner h') h, ?_⟩
  dsimp only at same
  rw [ScopeTree.frames_push kind h', within.frames_same h] at same
  rw [← same]
  cases (emit state.scopes.next).run _ <;> rfl

end Steps

/-! ## Expressions -/

theorem Expresses.identifier (name : String) :
    Expresses (Emit.identifier name) (Lexical.identifier name) :=
  fun start scope h => (Expresses.resolve name start scope h).bind fun _ => .pure _

theorem Expresses.newValue (target : Node) :
    Expresses (fun _ => Emit.newValue target) fun _ => Lexical.newValue target := by
  intro start scope _
  refine (Follows.ofExcept _).bind fun type => .tell_bind _ ?_
  exact (Follows.ofExcept _).bind fun _ => .pure _

theorem Expresses.binary (op : BinaryOp) {left right : Nat → Emit Emitted}
    {left' right' : Lexical.Expression} (first : Expresses left left')
    (second : Expresses right right') :
    Expresses (Emit.binary op left right) (Lexical.binary op left' right') := by
  intro start scope h
  refine (first start scope h).bind fun left => (second start scope h).bind fun right => ?_
  refine (Follows.expectType _ _ _).bind fun _ => .ite ?_ (.throw _)
  exact (Follows.ofExcept _).bind fun _ => .pure _

theorem Expresses.unary (op : UnaryOp) {operand : Nat → Emit Emitted}
    {operand' : Lexical.Expression} (inner : Expresses operand operand') :
    Expresses (Emit.unary op operand) (Lexical.unary op operand') := by
  intro start scope h
  refine (inner start scope h).bind fun operand => .ite ?_ (.throw _)
  exact (Follows.ofExcept _).bind fun _ => .pure _

section Lists

variable {ι : Type} (emit : ι → Nat → Emit Emitted) (reference : ι → Lexical.Expression)

theorem Expresses.arguments {items : List ι} (parts : ∀ i ∈ items, Expresses (emit i) (reference i))
    (position : Nat) (types : List Ty) :
    Expresses (fun scope => Emit.arguments scope position (items.map emit) types)
      fun frames => Lexical.arguments frames position (items.map reference) types := by
  intro start scope h
  induction items generalizing position types with
  | nil => cases types <;> exact .pure []
  | cons item rest ih =>
    cases types with
    | nil => exact .pure []
    | cons expected others =>
      refine (parts item (by simp) start scope h).bind fun argument => ?_
      refine (Follows.expectType _ _ _).bind fun _ => ?_
      exact (ih (fun i hi => parts i (by simp [hi])) _ _).bind fun _ => .pure _

theorem Expresses.call {callee : Nat → Emit Emitted} {callee' : Lexical.Expression}
    (function : Expresses callee callee') {items : List ι}
    (parts : ∀ i ∈ items, Expresses (emit i) (reference i)) :
    Expresses (Emit.call callee (items.map emit)) (Lexical.call callee' (items.map reference)) := by
  intro start scope h
  refine (function start scope h).bind fun callee => ?_
  cases callee.type with
  | fn parameters returns =>
    dsimp only
    rw [List.length_map, List.length_map]
    refine .ite ?_ (.throw _)
    exact (Expresses.arguments emit reference parts 1 parameters start scope h).bind fun _ => .pure _
  | prim p => exact .throw _
  | obj fields => exact .throw _
  | list => exact .throw _

theorem Expresses.entries {fields : List (String × ι)}
    (parts : ∀ f ∈ fields, Expresses (emit f.2) (reference f.2)) (declared : List (String × Ty)) :
    Expresses (fun scope => Emit.entries (fields.map fun f => (f.1, emit f.2)) scope declared)
      fun frames => Lexical.entries (fields.map fun f => (f.1, reference f.2)) frames declared := by
  intro start scope h
  induction declared with
  | nil => exact .pure ""
  | cons field rest ih =>
    obtain ⟨name, expected⟩ := field
    dsimp only
    rw [Emit.entries, Lexical.entries, Fields.lookup_map, Fields.lookup_map]
    cases found : fields.lookup name with
    | none => exact .throw _
    | some item =>
      have member : (name, item) ∈ fields := Fields.mem_of_lookup found
      refine (parts _ member start scope h).bind fun value => ?_
      refine (Follows.expectType _ _ _).bind fun _ => ?_
      exact ih.bind fun _ => .pure _

theorem Expresses.object {fields : List (String × ι)}
    (parts : ∀ f ∈ fields, Expresses (emit f.2) (reference f.2)) (declared : List (String × Ty)) :
    Expresses (Emit.object (fields.map fun f => (f.1, emit f.2)) declared)
      (Lexical.object (fields.map fun f => (f.1, reference f.2)) declared) := by
  intro start scope h
  unfold Emit.object Lexical.object
  rw [List.find?_map, List.find?_map]
  simp only [Function.comp_def]
  cases fields.find? fun f => (declared.lookup f.1).isNone with
  | some field => exact .throw _
  | none => exact (Expresses.entries emit reference parts declared start scope h).bind fun _ => .pure _

end Lists

theorem States.declareParameters (names : List String) (types : List Ty) :
    States (fun scope => Emit.declareParameters scope names types) fun frames =>
      (Lexical.declareParameters names types frames).map fun frames => ((), frames) := by
  induction names generalizing types with
  | nil => cases types <;> exact .pure ()
  | cons name names ih =>
    cases types with
    | nil => exact .pure ()
    | cons type types =>
      simp only [Emit.declareParameters, Lexical.declareParameters]
      by_cases bindable : Host.isBindable name
      · simp only [bindable, ↓reduceIte]
        refine ((States.declare name type).bind fun _ => ih types).congr fun frames => ?_
        cases frames.declare name type <;> rfl
      · simp only [bindable]
        exact .throw _

theorem Expresses.function (parameters : List String) (types : List Ty) {body : Nat → Emit String}
    {body' : Lexical.Body} (inside : States body body') :
    Expresses (Emit.function parameters types body)
      (Lexical.function parameters types body') := by
  intro start scope h
  refine .ite ?_ (.throw _)
  refine Follows.of_eq (((States.declareParameters parameters types).bind fun _ =>
    inside.bind fun statements => .pure ("(" ++ String.intercalate "," parameters ++
      ") => \x7b\n" ++ statements ++ "\x7d")).inner .function start scope h) ?_
  change Except.map Prod.fst (Except.map _ (Lexical.declareParameters parameters types
    (⟨[], true⟩ :: start.frames scope)) >>= _) = _
  cases Lexical.declareParameters parameters types (⟨[], true⟩ :: start.frames scope) with
  | error e => rfl
  | ok inner =>
    change Except.map Prod.fst (body' inner >>= _) = body' inner >>= _
    cases body' inner <;> rfl

section Literals

variable {ι : Type} (emit : ι → Nat → Emit Emitted) (reference : ι → Lexical.Expression)

theorem Expresses.payload (tag : Tag) (type : Ty) (value : Option Payload)
    (parameters : List String) {body : Nat → Emit String} {body' : Lexical.Body}
    (inside : States body body') {fields : List (String × ι)}
    (parts : ∀ f ∈ fields, Expresses (emit f.2) (reference f.2)) :
    Expresses
      (Emit.payload tag type value parameters body (fields.map fun f => (f.1, emit f.2)))
      (Lexical.payload tag type value parameters body'
        (fields.map fun f => (f.1, reference f.2))) := by
  intro start scope h
  unfold Emit.payload
  split
  · exact .pure _
  · exact .pure _
  · exact .pure _
  · exact .pure _
  · exact .pure _
  · exact .pure _
  · exact (Follows.ofExcept _).bind fun _ => .ofExcept _
  · cases type with
    | fn types returns => exact Expresses.function parameters types inside start scope h
    | prim p => exact .throw _
    | obj declared => exact .throw _
    | list => exact .throw _
  · cases type with
    | obj declared => exact Expresses.object emit reference parts declared start scope h
    | prim p => exact .throw _
    | fn types returns => exact .throw _
    | list => exact .throw _
  · rw [Lexical.payload]
    · exact .throw _
    all_goals assumption
  · rw [Lexical.payload]
    · exact .throw _
    all_goals assumption

theorem Expresses.literal (descriptor : Node) (value : Option Payload)
    (parameters : List String) {body : Nat → Emit String} {body' : Lexical.Body}
    (inside : States body body') {fields : List (String × ι)}
    (parts : ∀ f ∈ fields, Expresses (emit f.2) (reference f.2)) :
    Expresses
      (Emit.literal descriptor value parameters body (fields.map fun f => (f.1, emit f.2)))
      (Lexical.literal descriptor value parameters body'
        (fields.map fun f => (f.1, reference f.2))) := by
  intro start scope h
  refine (Follows.ofExcept _).bind fun tag => (Follows.ofExcept _).bind fun type => ?_
  refine (Expresses.payload emit reference tag type value parameters inside parts start scope
    h).bind fun text => ?_
  exact (Follows.ofExcept _).bind fun _ => .pure _

end Literals

/-! ## Statements -/

theorem States.bindName (name : String) {value : Nat → Emit Emitted} {value' : Lexical.Expression}
    (initial : Expresses value value') :
    States (Emit.bind name value) (Lexical.bind name value') := by
  unfold Emit.bind Lexical.bind
  by_cases bindable : Host.isBindable name
  · simp only [bindable, ↓reduceIte]
    refine (initial.states.bind fun value => (States.declare name value.type).bind fun _ =>
      .pure ("let " ++ name ++ " = " ++ value.text)).congr fun frames => ?_
    cases value' frames with
    | error e => rfl
    | ok value =>
      change Except.map _ (frames.declare name value.type) >>= _ =
        frames.declare name value.type >>= _
      cases frames.declare name value.type <;> rfl
  · simp only [bindable]
    exact .throw _

theorem Expresses.assign (target : Node) {value : Nat → Emit Emitted}
    {value' : Lexical.Expression} (assigned : Expresses value value') :
    Expresses (Emit.assign target value) (Lexical.assign target value') := by
  intro start scope h
  unfold Emit.assign
  split
  · next name =>
    refine (Expresses.resolve name start scope h).bind fun declared => ?_
    refine (assigned start scope h).bind fun value => ?_
    exact (Follows.expectType _ _ _).bind fun _ => .pure _
  · rw [Lexical.assign]
    · exact .throw _
    · assumption

theorem Expresses.ret {ι : Type} (value : Option ι) {emit : ι → Nat → Emit Emitted}
    {reference : ι → Lexical.Expression} (part : ∀ v ∈ value, Expresses (emit v) (reference v)) :
    Expresses (Emit.ret (value.map emit)) (Lexical.ret (value.map reference)) := by
  intro start scope h state within
  unfold Emit.ret Lexical.ret
  have function : state.scopes.inFunction scope = (start.frames scope).inFunction := by
    rw [ScopeTree.inFunction_eq_frames, within.frames_same h]
  change Within scope start (after ((if state.scopes.inFunction scope then _ else _ :
    Emit (Option String)).run state)) ∧ outcome ((if state.scopes.inFunction scope then _ else _ :
    Emit (Option String)).run state) = _
  rw [function]
  refine Follows.ite ?_ (.tell_bind _ (.pure none)) state within
  cases value with
  | none => exact .pure _
  | some value => exact (part value rfl start scope h).bind fun _ => .pure _

theorem Expresses.condition {value : Nat → Emit Emitted} {value' : Lexical.Expression}
    (tested : Expresses value value') (site : Site) :
    Expresses (Emit.condition value site) (Lexical.condition value' site) := by
  intro start scope h
  refine (tested start scope h).bind fun value => ?_
  exact (Follows.expectType _ _ _).bind fun _ => .pure _

theorem Expresses.block {body : Nat → Emit String} {body' : Lexical.Body}
    (inside : States body body') : Expresses (Emit.block body) (Lexical.block body') := by
  intro start scope h
  refine Follows.of_eq ((inside.bind fun statements =>
    .pure ("\x7b\n" ++ statements ++ "\x7d")).inner .block start scope h) ?_
  change Except.map Prod.fst (body' (⟨[], false⟩ :: start.frames scope) >>= _) =
    body' (⟨[], false⟩ :: start.frames scope) >>= _
  cases body' (⟨[], false⟩ :: start.frames scope) <;> rfl

theorem Expresses.branch {ι : Type} {test : Nat → Emit Emitted} {test' : Lexical.Expression}
    (tested : Expresses test test') {body : Nat → Emit String} {body' : Lexical.Body}
    (inside : States body body') (otherwise : Option ι) {emit : ι → Nat → Emit String}
    {reference : ι → Lexical.Body} (other : ∀ o ∈ otherwise, States (emit o) (reference o)) :
    Expresses (Emit.branch test body (otherwise.map emit))
      (Lexical.branch test' body' (otherwise.map reference)) := by
  intro start scope h
  refine (tested.condition .ifCondition start scope h).bind fun test => ?_
  refine (Expresses.block inside start scope h).bind fun body => ?_
  cases otherwise with
  | none => exact .pure _
  | some o => exact (Expresses.block (other o rfl) start scope h).bind fun _ => .pure _

theorem Expresses.loop {test : Nat → Emit Emitted} {test' : Lexical.Expression}
    (tested : Expresses test test') {body : Nat → Emit String} {body' : Lexical.Body}
    (inside : States body body') :
    Expresses (Emit.loop test body) (Lexical.loop test' body') := by
  intro start scope h
  refine (tested.condition .whileCondition start scope h).bind fun test => ?_
  exact (Expresses.block inside start scope h).bind fun _ => .pure _

theorem States.statements {ι : Type} {items : List ι} {emit : ι → Nat → Emit (Option String)}
    {reference : ι → Frames → Except CompileError (Option String × Frames)}
    (parts : ∀ i ∈ items, States (emit i) (reference i)) :
    States (Emit.statements (items.map emit)) (Lexical.statements (items.map reference)) := by
  induction items with
  | nil => exact .pure ""
  | cons item rest ih =>
    have others := ih fun i hi => parts i (by simp [hi])
    refine ((parts item (by simp)).bind fun first => others.bind fun text =>
      .pure (terminated first ++ text)).congr fun frames => ?_
    rfl

end Arbor.Emit

namespace Arbor

open Emit

/-- What a node emits is what it gives in plain environments, in each place. -/
structure Rendering.Refines (rendering : Rendering) (lexical : LexicalRendering) : Prop where
  expression : Expresses rendering.expression lexical.expression
  statement : States rendering.statement lexical.statement

theorem Rendering.Refines.unhandled (kind : String) :
    Refines (.unhandled kind) (.unhandled kind) :=
  ⟨fun _ _ _ => .throw _, .throw _⟩

theorem Rendering.Refines.ofStatement (kind : String) {emit : Nat → Emit String}
    {reference : Lexical.Statement} (steps : States emit reference) :
    Refines (.ofStatement kind emit) (.ofStatement kind reference) :=
  ⟨fun _ _ _ => .throw _, steps.bind fun text => .tell_bind _ (.pure (some text))⟩

/-- A statement that declares nothing. -/
theorem Rendering.Refines.keepFrames (kind : String) {emit : Nat → Emit String}
    {reference : Frames → Except CompileError String} (steps : Expresses emit reference) :
    Refines (.ofStatement kind emit) (.ofStatement kind (Lexical.keepFrames reference)) :=
  .ofStatement kind (steps.states.congr fun frames => by
    unfold Lexical.keepFrames
    cases reference frames <;> rfl)

theorem Rendering.Refines.ofExpression (kind : String) {emit : Nat → Emit Emitted}
    {reference : Lexical.Expression} (steps : Expresses emit reference) :
    Refines (.ofExpression kind emit) (.ofExpression reference) := by
  refine ⟨steps, (steps.states.bind fun value =>
    .tell_bind _ (.pure (some value.text))).congr fun frames => ?_⟩
  change Except.map _ (reference frames) >>= _ = reference frames >>= _
  cases reference frames <;> rfl

theorem Rendering.Refines.ofReturn {ι : Type} (value : Option ι) {emit : ι → Rendering}
    {reference : ι → LexicalRendering} (part : ∀ v ∈ value, (emit v).Refines (reference v)) :
    Refines (.ofReturn (value.map emit)) (.ofReturn (value.map reference)) := by
  refine ⟨fun _ _ _ => .throw _, ?_⟩
  have steps := Expresses.ret value fun v hv => (part v hv).expression
  unfold Rendering.ofReturn LexicalRendering.ofReturn
  simp only [Option.map_map]
  refine steps.states.congr fun frames => ?_
  dsimp only [Function.comp_def]
  cases Lexical.ret (value.map fun v => (reference v).expression) frames <;> rfl

theorem body_states {nodes : List Node} (parts : ∀ n ∈ nodes, n.rendering.Refines n.lexical) :
    States (Rendering.body (renderings nodes)) (LexicalRendering.body (lexicals nodes)) := by
  rw [renderings_eq_map, lexicals_eq_map, Rendering.body, LexicalRendering.body, List.map_map,
    List.map_map]
  exact .statements fun n hn => (parts n hn).statement

/-- The simulation, kind by kind. -/
theorem Node.rendering_refines (node : Node) : node.rendering.Refines node.lexical := by
  induction node with
  | bind name value ih => exact .ofStatement "let" (.bindName name ih.expression)
  | assign target value _ ih => exact .keepFrames "assign" (.assign target ih.expression)
  | ret value ih =>
    rw [Node.rendering_ret, Node.lexical_ret]
    exact .ofReturn value ih
  | branch condition body otherwise conditionIH bodyIH otherwiseIH =>
    rw [Node.rendering_branch, Node.lexical_branch]
    exact .keepFrames "if" (.branch conditionIH.expression (body_states bodyIH) otherwise
      fun other member => body_states (otherwiseIH other member))
  | loop condition body conditionIH bodyIH =>
    exact .keepFrames "while" (.loop conditionIH.expression (body_states bodyIH))
  | ident name => exact .ofExpression "identifier" (.identifier name)
  | literal type payload parameters body _ _ fieldsIH bodyIH =>
    rw [Node.rendering_literal, Node.lexical_literal]
    exact .ofExpression "literal" (.literal (fun n : Node => n.rendering.expression)
      (fun n => n.lexical.expression) type payload parameters (body_states bodyIH)
      fun field member => (fieldsIH field member).expression)
  | new target => exact .ofExpression "new" (.newValue target)
  | binary op left right leftIH rightIH =>
    exact .ofExpression "binary" (.binary op leftIH.expression rightIH.expression)
  | unary op operand ih => exact .ofExpression "unary" (.unary op ih.expression)
  | call callee arguments calleeIH argumentsIH =>
    rw [Node.rendering_call, Node.lexical_call]
    exact .ofExpression "call" (.call (fun n : Node => n.rendering.expression)
      (fun n => n.lexical.expression) calleeIH.expression
      fun argument member => (argumentsIH argument member).expression)
  | member object property => exact .unhandled "objAccess"
  | element object index => exact .unhandled "access"
  | type tag name parameters returns fields => exact .unhandled "type"
  | unknown kind => exact .unhandled kind

namespace Program

/-- The statements of a program in the root of a fresh tree, against the frame they start in. -/
theorem emit_refines (program : Program) :
    (∃ added, ScopeTree.empty.Grows ScopeTree.root added (after program.emit).scopes) ∧
      (outcome program.emit).map (fun output =>
        (output, (after program.emit).scopes.frames ScopeTree.root)) =
          LexicalRendering.body (lexicals program) .root :=
  body_states (fun n (_ : n ∈ program) => n.rendering_refines) ScopeTree.root .initial (by decide)

/-- Compiling with the scope tree and compiling in plain environments give the same artifact or
the same error. -/
theorem compile_eq_compileLexically (program : Program) :
    program.compile = program.compileLexically := by
  obtain ⟨⟨added, grows⟩, same⟩ := program.emit_refines
  unfold compileLexically compile compilation
  rw [← same]
  cases result : program.emit with
  | error e state => rfl
  | ok output state =>
    rw [result] at grows
    have root : ScopeTree.root < state.scopes.next :=
      Nat.lt_of_lt_of_le (by decide) grows.next_le
    change Except.ok (Artifact.mk output (state.scopes.symbols ScopeTree.root)) =
      Except.ok (Artifact.mk output (state.scopes.frames ScopeTree.root).symbols)
    rw [ScopeTree.symbols_frames root]

/-- The scope tree refines plain environments: a session that runs the program, and a compilation
of it, give the text and bindings or the error that the reference translator gives. -/
theorem scopeTree_refines_environments (program : Program) (session : Session) :
    ((session.load program).run.outcome.map fun output =>
        Artifact.mk output (session.load program).run.session.bindings) =
      program.compileLexically ∧ program.compile = program.compileLexically := by
  refine ⟨?_, program.compile_eq_compileLexically⟩
  rw [← compile_eq_compileLexically, compile, compilation, Session.load, Session.run]
  dsimp only
  cases program.emit <;> rfl

end Program

end Arbor
