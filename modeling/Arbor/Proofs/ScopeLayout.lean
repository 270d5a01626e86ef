import Arbor.Compile.Artifact
import Arbor.Proofs.BodyNesting
import Arbor.Proofs.BodyTyping
import Arbor.Proofs.HostScoping

/-!
# The scopes at the end

When a program has gone through, the tree holds the scopes of its bodies and nothing else, each at
the number of its body. Numbers, parents and tables are settled at different moments: a scope gets
its number and parent when it is opened, in the middle of an expression perhaps, and its table while
its statements are visited. `ScopeTree.grow` has all of it at once: what a visit does to a tree is
to add names to the scope it stands in and to put the scopes of the bodies inside of it, finished,
behind the others. That is closed under steps in sequence (`grow_grow`) and under a body of one's
own (`grow_push`).
-/

namespace Arbor

namespace ScopeTree

/-- The tree with names declared in a scope and with the scopes of bodies behind the others. -/
def grow (tree : ScopeTree) (scope : Nat) (added : List (String × Ty)) (bodies : List Body) :
    ScopeTree :=
  ⟨tree.scopes.modify scope (fun s => s.extend added) ++ (bodies.map Body.scope).toArray⟩

/-- Where a node of a scope stands. -/
def place (tree : ScopeTree) (scope : Nat) : Place :=
  ⟨tree.frames scope, scope, tree.next⟩

variable {tree : ScopeTree} {scope : Nat}

@[simp] theorem next_grow (added : List (String × Ty)) (bodies : List Body) :
    (tree.grow scope added bodies).next = tree.next + bodies.length := by
  simp [grow, next]

@[simp] theorem grow_nil (tree : ScopeTree) (scope : Nat) : tree.grow scope [] [] = tree := by
  have same : tree.scopes.modify scope (fun s => s.extend []) = tree.scopes := by
    apply Array.ext_getElem?
    intro id
    rw [Array.getElem?_modify]
    split <;> simp
  rw [grow, same]
  simp

/-- A number before the next one is that of an old scope, one from there on that of a body. -/
theorem getElem?_grow (added : List (String × Ty)) (bodies : List Body) (id : Nat) :
    (tree.grow scope added bodies).scopes[id]? =
      if id < tree.next then
        if scope = id then tree.scopes[id]?.map fun s => s.extend added else tree.scopes[id]?
      else bodies[id - tree.next]?.map Body.scope := by
  rw [grow, Array.getElem?_append, Array.size_modify, Array.getElem?_modify]
  unfold next
  by_cases old : id < tree.scopes.size
  · rw [if_pos old, if_pos old]
  · rw [if_neg old, if_neg old, List.getElem?_toArray, List.getElem?_map]

/-- What is added in two steps is added in one. -/
theorem grow_grow (h : scope < tree.next) (added more : List (String × Ty))
    (bodies others : List Body) :
    (tree.grow scope added bodies).grow scope more others =
      tree.grow scope (added ++ more) (bodies ++ others) := by
  apply congrArg ScopeTree.mk
  apply Array.ext_getElem?
  intro id
  change ((tree.grow scope added bodies).grow scope more others).scopes[id]? =
    (tree.grow scope (added ++ more) (bodies ++ others)).scopes[id]?
  simp only [getElem?_grow, next_grow]
  by_cases old : id < tree.next
  · have still : id < tree.next + bodies.length := by omega
    simp only [old, still, ↓reduceIte]
    split
    · rw [Option.map_map]
      congr 1
      funext s
      simp
    · rfl
  · have other : scope ≠ id := by omega
    simp only [old, ↓reduceIte, if_neg other, List.getElem?_append]
    by_cases first : id < tree.next + bodies.length
    · have within : id - tree.next < bodies.length := by omega
      simp only [first, within, ↓reduceIte]
    · have within : ¬id - tree.next < bodies.length := by omega
      simp only [first, within, ↓reduceIte, Nat.sub_sub]

/-- What happens inside of a body puts its scope, finished, in front of those inside of it. -/
theorem grow_push (body : Body) (added : List (String × Ty))
    (bodies : List Body) (here : body.scope = ⟨added, some scope, body.kind.scopeKind⟩) :
    (tree.push scope body.kind.scopeKind).grow tree.next added bodies =
      tree.grow scope [] (body :: bodies) := by
  apply congrArg ScopeTree.mk
  apply Array.ext_getElem?
  intro id
  change ((tree.push scope body.kind.scopeKind).grow tree.next added bodies).scopes[id]? =
    (tree.grow scope [] (body :: bodies)).scopes[id]?
  simp only [getElem?_grow, next_push]
  by_cases old : id < tree.next
  · have still : id < tree.next + 1 := by omega
    have other : tree.next ≠ id := by omega
    simp only [old, still, ↓reduceIte, if_neg other, getElem?_push_old scope _ old]
    split <;> simp
  · by_cases own : id = tree.next
    · subst own
      simp [here, Scope.extend]
    · have fresh : ¬id < tree.next + 1 := by omega
      have behind : id - tree.next = (id - (tree.next + 1)) + 1 := by omega
      simp only [old, fresh, ↓reduceIte, behind, List.getElem?_cons_succ]

/-- Declaring a name adds just that name. -/
theorem grow_declare {name : String} {type : Ty} {after : ScopeTree}
    (declared : tree.declare scope name type = .ok after) :
    after = tree.grow scope [(name, type)] [] := by
  unfold ScopeTree.declare at declared
  split at declared
  · cases declared
  · cases declared
    simp [grow, Scope.declare, Scope.extend]

/-- Seen from the scope, only its own frame has grown. -/
theorem frames_grow (h : scope < tree.next) (added : List (String × Ty)) (bodies : List Body) :
    (tree.grow scope added bodies).frames scope = (tree.frames scope).extend added := by
  have path : (tree.grow scope added bodies).ancestors scope = tree.ancestors scope := by
    refine ancestors_congr (fun id old => ?_) h
    rw [getElem?_grow, if_pos old]
    split
    · rw [Option.map_map]
      rfl
    · rfl
  obtain ⟨outer, own, below⟩ := ancestors_eq_cons h
  obtain ⟨s, found⟩ := exists_scope h
  have grown : (tree.grow scope added bodies).scopes[scope]? = some (s.extend added) := by
    rw [getElem?_grow, if_pos h, if_pos rfl, found]
    rfl
  rw [frames, frames, path, own, List.map_cons, List.map_cons, Frames.extend]
  congr 1
  · simp [frame, symbols, isFunction, grown, found, Scope.extend]
  · apply List.map_congr_left
    intro id member
    have older := below id member
    have other : scope ≠ id := by omega
    apply frame_congr
    rw [getElem?_grow, if_pos (by omega), if_neg other]

theorem place_grow (h : scope < tree.next) (added : List (String × Ty)) (bodies : List Body) :
    (tree.grow scope added bodies).place scope = ((tree.place scope).past bodies).behind added := by
  rw [place, frames_grow h, next_grow]
  rfl

theorem place_push (kind : ScopeKind) (h : scope < tree.next) :
    (tree.push scope kind).place tree.next = (tree.place scope).inside ⟨[], kind == .function⟩ := by
  rw [place, frames_push kind h, next_push]
  rfl

end ScopeTree

open Emit

variable {α β : Type}

/-- Every run of the step that goes through declares these names in its scope, in the frames it
starts in, and puts the scopes of these bodies into the tree. -/
def Lays (step : Nat → Emit α) (adds : Frames → List (String × Ty)) (outline : Outline) : Prop :=
  ∀ scope before a after, scope < before.scopes.next → (step scope).run before = .ok a after →
    after.scopes = before.scopes.grow scope (adds (before.scopes.frames scope))
      (outline (before.scopes.place scope))

/-- The step declares nothing. -/
def Frames.nothing : Frames → List (String × Ty) := fun _ => []

namespace Lays

variable {x : Nat → Emit α} {f : α → Nat → Emit β} {adds more : Frames → List (String × Ty)}
  {first last : Outline}

theorem quiet (still : ∀ scope, Quiet (x scope)) : Lays x Frames.nothing .none := by
  intro scope before a after h run
  rw [still scope before a after run]
  exact (ScopeTree.grow_nil before.scopes scope).symm

theorem throw (e : CompileError) : Lays (fun _ => (MonadExcept.throw e : Emit α)) adds first := by
  rintro scope before _ after _ ⟨⟩

/-- Steps in sequence: the second stands behind what the first declares and opens. -/
theorem bind (lays : Lays x adds first) (next : ∀ a, Lays (f a) more last) :
    Lays (fun scope => x scope >>= fun a => f a scope)
      (fun frames => adds frames ++ more (frames.extend (adds frames)))
      (fun place => first place ++ last ((place.past (first place)).behind (adds place.frames))) := by
  intro scope before b after h run
  obtain ⟨a, middle, ran, run⟩ := bind_eq_ok.mp run
  have grown := lays scope before a middle h ran
  have h' : scope < middle.scopes.next := by
    rw [grown, ScopeTree.next_grow]
    omega
  have grownNext := next a scope middle b after h' run
  rw [grownNext, grown, ScopeTree.grow_grow h, ScopeTree.frames_grow h, ScopeTree.place_grow h]
  rfl

/-- Steps of an expression, which declare nothing. -/
theorem andThen (lays : Lays x Frames.nothing first)
    (next : ∀ a, Lays (f a) more last) :
    Lays (fun scope => x scope >>= fun a => f a scope) more (.andThen first last) := by
  have steps := lays.bind next
  simp only [Frames.nothing, Frames.extend_nil, Place.behind_nil, List.nil_append] at steps
  exact steps

/-- What is done with the value of a step opens and declares nothing. -/
theorem bind_quiet (lays : Lays x adds first) (still : ∀ a scope, Quiet (f a scope)) :
    Lays (fun scope => x scope >>= fun a => f a scope) adds first := by
  intro scope before b after h run
  obtain ⟨a, middle, ran, run⟩ := bind_eq_ok.mp run
  rw [still a scope middle b after run]
  exact lays scope before a middle h ran

theorem ofExcept {value : Except CompileError α}
    (next : ∀ a, value = .ok a → Lays (f a) adds first) :
    Lays (fun scope => Emit.ofExcept value >>= fun a => f a scope) adds first := by
  cases value with
  | ok a => exact next a rfl
  | error e => exact .throw e

theorem ite {p : Prop} [Decidable p] {y : Nat → Emit α} (yes : p → Lays x adds first)
    (no : ¬p → Lays y adds first) :
    Lays (fun scope => if p then x scope else y scope) adds first := by
  split
  · next holds => exact yes holds
  · next fails => exact no fails

/-- A check lets the step behind it run or not. -/
theorem expectType (expected found : Ty) (site : Site) (next : Lays x adds first) :
    Lays (fun scope => Emit.expectType expected found site >>= fun _ => x scope) adds first := by
  intro scope before b after h run
  obtain ⟨_, middle, ran, run⟩ := bind_eq_ok.mp run
  rw [expectType_run] at ran
  split at ran
  · cases ran
    exact next scope before b after h run
  · cases ran

theorem declare (name : String) (type : Ty) :
    Lays (fun scope => Emit.declare scope name type) (fun _ => [(name, type)]) .none := by
  intro scope before _ after h run
  dsimp only at run
  rw [declare_run] at run
  cases done : before.scopes.declare scope name type with
  | error e => simp [done] at run
  | ok scopes =>
    rw [done] at run
    cases run
    exact ScopeTree.grow_declare done

/-! ## Expressions -/

theorem resolve (name : String) :
    Lays (fun scope => Emit.resolve scope name) Frames.nothing .none := by
  intro scope before type after h run
  dsimp only at run
  rw [resolve_run] at run
  cases found : before.scopes.lookup? scope name with
  | none => simp [found] at run
  | some type =>
    rw [found] at run
    cases run
    exact (ScopeTree.grow_nil before.scopes scope).symm

theorem binary (op : BinaryOp) {left right : Nat → Emit Emitted}
    (lays : Lays left Frames.nothing first) (next : Lays right Frames.nothing last) :
    Lays (Emit.binary op left right) Frames.nothing (.andThen first last) :=
  lays.andThen fun _ => next.bind_quiet fun _ _ => (Quiet.expectType _ _ _).bind fun _ =>
    .ite ((Quiet.ofExcept _).bind fun _ => .pure _) (.throw _)

theorem unary (op : UnaryOp) {operand : Nat → Emit Emitted}
    (lays : Lays operand Frames.nothing first) :
    Lays (Emit.unary op operand) Frames.nothing first :=
  lays.bind_quiet fun _ _ => .ite ((Quiet.ofExcept _).bind fun _ => .pure _) (.throw _)

section Parts

variable {ι : Type} (emit : ι → Nat → Emit Emitted) (outline : ι → Outline)

theorem arguments {items : List ι} (parts : ∀ i ∈ items, Lays (emit i) Frames.nothing (outline i))
    {types : List Ty} (count : types.length = items.length) (position : Nat) :
    Lays (fun scope => Emit.arguments scope position (items.map emit) types) Frames.nothing
      (.sequence (items.map outline)) := by
  induction items generalizing types position with
  | nil => exact .quiet fun _ => by simpa [Emit.arguments] using .pure []
  | cons item items ih =>
    cases types with
    | nil => cases count
    | cons expected others =>
      have rest := ih (fun i hi => parts i (by simp [hi])) (Nat.succ.inj count) (position + 1)
      refine (parts item (by simp)).andThen fun argument => .expectType _ _ _ ?_
      exact rest.bind_quiet fun _ _ => .pure _

theorem call {callee : Nat → Emit Emitted} (lays : Lays callee Frames.nothing first)
    {items : List ι} (parts : ∀ i ∈ items, Lays (emit i) Frames.nothing (outline i)) :
    Lays (Emit.call callee (items.map emit)) Frames.nothing
      (.andThen first (.sequence (items.map outline))) := by
  refine lays.andThen fun callee => ?_
  cases callee.type with
  | fn types returns =>
    refine .ite (fun count => ?_) fun _ => .throw _
    rw [List.length_map] at count
    exact (arguments emit outline parts count 1).bind_quiet fun _ _ => .pure _
  | prim p => exact .throw _
  | obj fields => exact .throw _
  | list => exact .throw _

theorem entries {fields : List (String × ι)}
    (parts : ∀ f ∈ fields, Lays (emit f.2) Frames.nothing (outline f.2))
    (declared : List (String × Ty)) :
    Lays (fun scope => Emit.entries (fields.map fun f => (f.1, emit f.2)) scope declared)
      Frames.nothing (.sequence (declared.filterMap fun field =>
        (fields.map fun f => (f.1, outline f.2)).lookup field.1)) := by
  induction declared with
  | nil => exact .quiet fun _ => .pure ""
  | cons field rest ih =>
    obtain ⟨name, expected⟩ := field
    simp only [Emit.entries, List.filterMap_cons, Fields.lookup_map]
    cases found : fields.lookup name with
    | none => exact .throw _
    | some item =>
      simp only [Fields.lookup_map] at ih
      have part := parts _ (Fields.mem_of_lookup found)
      refine part.andThen fun value => .expectType _ _ _ ?_
      exact ih.bind_quiet fun _ _ => .pure _

/-- The fields of an object are visited in the order in which its type declares them. -/
theorem object {fields : List (String × ι)}
    (parts : ∀ f ∈ fields, Lays (emit f.2) Frames.nothing (outline f.2))
    (declared : List (String × Ty)) :
    Lays (Emit.object (fields.map fun f => (f.1, emit f.2)) declared) Frames.nothing
      (.sequence (declared.filterMap fun field =>
        (fields.map fun f => (f.1, outline f.2)).lookup field.1)) := by
  unfold Emit.object
  split
  · exact .throw _
  · exact (entries emit outline parts declared).bind_quiet fun _ _ => .pure _

end Parts

/-! ## Bodies -/

variable {emit : Nat → Emit String} {nodes : List Node}

/-- A body in a block of its own. -/
theorem block (lays : Lays emit (fun frames => bodySymbols frames nodes) (bodyOutline nodes)) :
    Lays (Emit.block emit) Frames.nothing (.body .block nodes (bodyOutline nodes)) := by
  intro scope before text after h run
  obtain ⟨inner, opened, ran, run⟩ := bind_eq_ok.mp run
  rw [openScope_run] at ran
  cases ran
  obtain ⟨statements, last, ran, run⟩ := bind_eq_ok.mp run
  cases run
  have grown := lays _ _ _ _ (by simp) ran
  dsimp only at grown
  rw [ScopeTree.place_push .block h, ScopeTree.frames_push .block h] at grown
  rw [grown]
  exact ScopeTree.grow_push ⟨.block, some scope, before.scopes.frames scope, nodes⟩ _ _ rfl

theorem declareParameters {names : List String} {types : List Ty}
    (count : names.length = types.length) :
    Lays (fun scope => Emit.declareParameters scope names types) (fun _ => names.zip types)
      .none := by
  induction names generalizing types with
  | nil => exact .quiet fun _ => .pure ()
  | cons name names ih =>
    cases types with
    | nil => cases count
    | cons type types =>
      refine .ite (fun _ => ?_) fun _ => .throw _
      exact (Lays.declare name type).bind fun _ => ih (Nat.succ.inj count)

/-- A function's body, in a scope that holds its parameters before it starts. -/
theorem function (parameters : List String) (types : List Ty) (result : Ty)
    (lays : Lays emit (fun frames => bodySymbols frames nodes) (bodyOutline nodes)) :
    Lays (Emit.function parameters types emit) Frames.nothing
      (.body (.function (parameters.zip types) result) nodes (bodyOutline nodes)) := by
  refine .ite (fun count => ?_) fun _ => .throw _
  intro scope before text after h run
  obtain ⟨inner, opened, ran, run⟩ := bind_eq_ok.mp run
  rw [openScope_run] at ran
  cases ran
  have steps := (declareParameters count).bind fun _ => lays
  obtain ⟨_, entered, ran, run⟩ := bind_eq_ok.mp run
  obtain ⟨statements, last, ran', run⟩ := bind_eq_ok.mp run
  cases run
  have grown := steps _ _ _ _ (by simp) (bind_eq_ok.mpr ⟨_, _, ran, ran'⟩)
  dsimp only at grown
  rw [ScopeTree.place_push .function h, ScopeTree.frames_push .function h] at grown
  rw [grown]
  exact ScopeTree.grow_push
    ⟨.function (parameters.zip types) result, some scope, before.scopes.frames scope, nodes⟩ _ _ rfl

/-- What a literal opens, type by type. -/
theorem literal {descriptor : Node} {value : Option Payload} {parameters : List String}
    {fields : List (String × (Nat → Emit Emitted))}
    (typed : ∀ type, descriptor.lower = .ok type →
      Lays (Emit.payload type.descriptorTag type value parameters emit fields) Frames.nothing first) :
    Lays (Emit.literal descriptor value parameters emit fields) Frames.nothing first := by
  refine .ofExcept fun tag tagged => .ofExcept fun type lowered => ?_
  rw [Node.descriptorTag_of_lower lowered] at tagged
  cases tagged
  exact (typed type lowered).bind_quiet fun _ _ => (Quiet.ofExcept _).bind fun _ => .pure _

/-! ## Statements -/

/-- A name is declared behind the scopes that its value opens. -/
theorem bindName (name : String) {value : Nat → Emit Emitted} {type? : Frames → Option Ty}
    (lays : Lays value Frames.nothing first)
    (typed : ∀ scope before emitted after, scope < before.scopes.next →
      (value scope).run before = .ok emitted after →
        type? (before.scopes.frames scope) = some emitted.type) :
    Lays (Emit.bind name value)
      (fun frames => (type? frames).toList.map fun type => (name, type)) first := by
  refine .ite (fun _ => ?_) fun _ => .throw _
  intro scope before text after h run
  obtain ⟨emitted, middle, ran, run⟩ := bind_eq_ok.mp run
  have grown := lays scope before emitted middle h ran
  have h' : scope < middle.scopes.next := by
    rw [grown, ScopeTree.next_grow]
    omega
  obtain ⟨_, last, ran', run⟩ := bind_eq_ok.mp run
  cases run
  have grownNext := Lays.declare name emitted.type scope middle () after h' ran'
  dsimp only
  rw [grownNext, grown, ScopeTree.grow_grow h, typed scope before emitted middle h ran]
  simp [Frames.nothing, Outline.none]

theorem assign (name : String) {value : Nat → Emit Emitted}
    (lays : Lays value Frames.nothing first) :
    Lays (Emit.assign (.ident name) value) Frames.nothing first :=
  (Lays.resolve name).andThen fun _ => lays.bind_quiet fun _ _ =>
    (Quiet.expectType _ _ _).bind fun _ => .pure _

theorem ret (value : Nat → Emit Emitted) (lays : Lays value Frames.nothing first) :
    Lays (Emit.ret (some value)) Frames.nothing (.inFunction first) := by
  intro scope before text after h run
  change (if before.scopes.inFunction scope then _ else _ : Emit (Option String)).run before = _
    at run
  rw [Outline.inFunction, ScopeTree.place, ← ScopeTree.inFunction_eq_frames]
  split at run
  · next within =>
    rw [if_pos within]
    exact lays.bind_quiet (fun value _ => .pure (some ("return " ++ value.text))) scope before text
      after h run
  · next without =>
    rw [if_neg without]
    cases run
    exact (ScopeTree.grow_nil before.scopes scope).symm

theorem ret_none : Lays (Emit.ret none) Frames.nothing .none := by
  intro scope before text after h run
  change (if before.scopes.inFunction scope then _ else _ : Emit (Option String)).run before = _
    at run
  split at run
  · cases run
    exact (ScopeTree.grow_nil before.scopes scope).symm
  · cases run
    exact (ScopeTree.grow_nil before.scopes scope).symm

theorem condition {test : Nat → Emit Emitted} (lays : Lays test Frames.nothing first)
    (site : Site) : Lays (Emit.condition test site) Frames.nothing first :=
  lays.bind_quiet fun _ _ => (Quiet.expectType _ _ _).bind fun _ => .pure _

end Lays

/-! ## Nodes -/

/-- The node opens the bodies of its outline, in each place. -/
structure Node.Lays (node : Node) : Prop where
  expression : Arbor.Lays node.rendering.expression Frames.nothing node.outline
  statement : Arbor.Lays node.rendering.statement (fun frames => node.symbols frames) node.outline

namespace Node.Lays

variable {node : Node}

theorem ofExpression {kind : String} {emit : Nat → Emit Emitted}
    (rendered : node.rendering = .ofExpression kind emit) (isExpression : node.isExpression)
    (lays : Arbor.Lays emit Frames.nothing node.outline) : node.Lays := by
  constructor
  · rw [rendered]
    exact lays
  · simp only [rendered, Node.symbols_expression isExpression]
    exact lays.bind_quiet fun _ _ => (Quiet.tell _).bind fun _ => .pure _

theorem ofStatement {kind : String} {emit : Nat → Emit String}
    (rendered : node.rendering = .ofStatement kind emit)
    (lays : Arbor.Lays emit (fun frames => node.symbols frames) node.outline) : node.Lays := by
  constructor
  · rw [rendered]
    exact .throw _
  · rw [rendered]
    exact lays.bind_quiet fun _ _ => (Quiet.tell _).bind fun _ => .pure _

theorem unhandled {kind : String} (rendered : node.rendering = .unhandled kind) : node.Lays := by
  constructor
  · rw [rendered]
    exact .throw _
  · rw [rendered]
    exact .throw _

end Node.Lays

/-- The type with which an expression is emitted is its derived one. -/
theorem Node.derived_of_run {node : Node} {scope : Nat} {before after : EmitState}
    {emitted : Emitted} (h : scope < before.scopes.next)
    (run : (node.rendering.expression scope).run before = .ok emitted after) :
    node.derived (before.scopes.frames scope) = some emitted.type := by
  obtain ⟨-, same⟩ := node.rendering_refines.expression before.scopes scope h before (.refl _ _)
  rw [run] at same
  exact (node.checked.expression.mp ⟨emitted.text, same.symm⟩).derived

theorem body_lays {nodes : List Node} (parts : ∀ n ∈ nodes, n.Lays) :
    Lays (Rendering.body (renderings nodes)) (fun frames => bodySymbols frames nodes)
      (bodyOutline nodes) := by
  rw [renderings_eq_map, Rendering.body, List.map_map]
  induction nodes with
  | nil => exact .quiet fun _ => .pure ""
  | cons node rest ih =>
    have others := ih fun n hn => parts n (by simp [hn])
    exact (parts node (by simp)).statement.bind fun _ => others.bind_quiet fun _ _ => .pure _

theorem literal_lays {descriptor : Node} {payload : Option Payload} {parameters : List String}
    {nodes : List Node} (fieldParts : ∀ f ∈ Payload.entries payload, f.2.Lays)
    (bodyParts : ∀ n ∈ nodes, n.Lays) :
    (Node.literal descriptor payload parameters nodes).Lays := by
  refine .ofExpression (Node.rendering_literal ..) rfl (.literal fun type lowered => ?_)
  cases payload with
  | none =>
    simp only [Node.outline, lowered]
    cases type with
    | prim p => exact .quiet (Quiet.payload_prim p _ _ _ _ _)
    | fn types result => exact .function parameters types result (body_lays bodyParts)
    | obj declared => exact .throw _
    | list => exact .throw _
  | some payload =>
    simp only [Node.outline, lowered]
    cases type with
    | prim p => exact .quiet (Quiet.payload_prim p _ _ _ _ _)
    | fn types result => exact .throw _
    | obj declared =>
      cases payload with
      | fields fields =>
        simp only [Payload.outlines, fieldOutlines_eq_map]
        exact .object (fun n : Node => n.rendering.expression) Node.outline
          (fun f hf => (fieldParts f hf).expression) declared
      | _ => exact .throw _
    | list => exact .throw _

/-- What a node does to the tree, kind by kind. -/
theorem Node.lays (node : Node) : node.Lays := by
  induction node with
  | bind name value ih =>
    refine .ofStatement rfl (.bindName name ih.expression ?_)
    intro scope before emitted after h run
    exact Node.derived_of_run h run
  | assign target value _ ih =>
    refine .ofStatement rfl ?_
    cases target with
    | ident name => exact .assign name ih.expression
    | _ => exact .throw _
  | ret value ih =>
    constructor
    · rw [Node.rendering_ret]
      exact .throw _
    · cases value with
      | none => exact .ret_none
      | some value => exact .ret _ (ih value rfl).expression
  | branch condition body otherwise conditionIH bodyIH otherwiseIH =>
    refine .ofStatement (Node.rendering_branch ..) ?_
    have tested := conditionIH.expression.condition .ifCondition
    have inside := (body_lays bodyIH).block
    cases otherwise with
    | none => exact tested.andThen fun _ => inside.bind_quiet fun _ _ => .pure _
    | some other =>
      have outside := (body_lays (otherwiseIH other rfl)).block
      exact tested.andThen fun _ => inside.andThen fun _ => outside.bind_quiet fun _ _ => .pure _
  | loop condition body conditionIH bodyIH =>
    refine .ofStatement rfl ?_
    have tested := conditionIH.expression.condition .whileCondition
    exact tested.andThen fun _ => (body_lays bodyIH).block.bind_quiet fun _ _ => .pure _
  | ident name =>
    exact .ofExpression rfl rfl ((Lays.resolve name).bind_quiet fun _ _ => .pure _)
  | literal type payload parameters body _ _ fieldsIH bodyIH =>
    exact literal_lays fieldsIH bodyIH
  | new target =>
    refine .ofExpression rfl rfl (.quiet fun _ => (Quiet.ofExcept _).bind fun _ => ?_)
    exact (Quiet.tell _).bind fun _ => (Quiet.ofExcept _).bind fun _ => .pure _
  | binary op left right leftIH rightIH =>
    exact .ofExpression rfl rfl (.binary op leftIH.expression rightIH.expression)
  | unary op operand ih => exact .ofExpression rfl rfl (.unary op ih.expression)
  | call callee arguments calleeIH argumentsIH =>
    refine .ofExpression (Node.rendering_call ..) rfl ?_
    simp only [Node.outline, outlines_eq_map]
    exact .call (fun n : Node => n.rendering.expression) Node.outline calleeIH.expression
      fun argument member => (argumentsIH argument member).expression
  | member object property => exact .unhandled rfl
  | element object index => exact .unhandled rfl
  | type tag name parameters returns fields => exact .unhandled rfl
  | unknown kind => exact .unhandled rfl

namespace Program

variable {program : Program} {output : String} {state : EmitState}

theorem scopes_eq_bodies (accepted : program.emit = .ok output state) :
    state.scopes.scopes.toList = program.bodies.map Body.scope := by
  have grown := body_lays (fun n (_ : n ∈ program) => n.lays) ScopeTree.root .initial output state
    (by decide) accepted
  have frames : EmitState.initial.scopes.frames ScopeTree.root = Frames.root := rfl
  have place : EmitState.initial.scopes.place ScopeTree.root = ⟨Frames.root, ScopeTree.root, 1⟩ := rfl
  rw [grown, frames, place, ScopeTree.grow, Array.toList_append, Array.toList_modify]
  rfl

/-- The names at the top of a program that goes through are what the root's scope holds. -/
theorem compile_of_emit (accepted : program.emit = .ok output state) :
    program.compile = .ok ⟨output, bodySymbols Frames.root program⟩ := by
  have symbols : state.scopes.symbols ScopeTree.root = bodySymbols Frames.root program := by
    have first : state.scopes.scopes[0]? = (program.bodies.map Body.scope)[0]? := by
      rw [← scopes_eq_bodies accepted, Array.getElem?_toList]
    rw [ScopeTree.symbols, ScopeTree.root, first]
    rfl
  rw [compile, compilation, accepted]
  dsimp only
  rw [symbols]

/-- The scopes at the end are those of the bodies of the program, in order, each with the number of
the body it stands directly in as parent. Each holds its parameters and then the `let`s of its own
statements, each name once and with the type that the rules give its value; the bindings of the
program are the `let`s at its top. -/
theorem final_scopes_are_bodies (accepted : program.emit = .ok output state) :
    state.scopes.scopes.toList = program.bodies.map Body.scope ∧
      (∀ {i : Nat} {body : Body}, program.bodies[i]? = some body →
        (i = 0 ∧ body.parent = none) ∨ body.StandsIn program.bodies ScopeTree.root i) ∧
      (∀ body ∈ program.bodies,
        Fields.names body.scope.symbols =
            Fields.names body.kind.frame.symbols ++ body.statements.flatMap Node.declared ∧
          (Fields.names body.scope.symbols).Nodup ∧ body.WellFormed) ∧
      ∃ bindings, program.compile = .ok ⟨output, bindings⟩ ∧
        BodyWellFormed Frames.root program [⟨bindings, false⟩] ∧
          Fields.names bindings = program.flatMap Node.declared := by
  have formed := bodies_wellFormed accepted
  refine ⟨scopes_eq_bodies accepted, body_standsIn, ?_, _, compile_of_emit accepted, ?_, ?_⟩
  · intro body member
    have keeps := formed body member
    refine ⟨?_, keeps.statements.nodup_symbols keeps.apart, keeps⟩
    rw [← keeps.statements.names_symbols]
    exact List.map_append
  · exact (formed _ List.mem_cons_self).statements
  · exact (formed _ List.mem_cons_self).statements.names_symbols

/-- Four bodies, two of them functions inside of expressions. -/
theorem final_scopes_of_nested : ∃ output state, nested.emit = .ok output state ∧
    state.scopes.scopes.toList = nested.bodies.map Body.scope ∧
      (∀ {i : Nat} {body : Body}, nested.bodies[i]? = some body →
        (i = 0 ∧ body.parent = none) ∨ body.StandsIn nested.bodies ScopeTree.root i) ∧
      (∀ body ∈ nested.bodies,
        Fields.names body.scope.symbols =
            Fields.names body.kind.frame.symbols ++ body.statements.flatMap Node.declared ∧
          (Fields.names body.scope.symbols).Nodup ∧ body.WellFormed) ∧
      ∃ bindings, nested.compile = .ok ⟨output, bindings⟩ ∧
        BodyWellFormed Frames.root nested [⟨bindings, false⟩] ∧
          Fields.names bindings = nested.flatMap Node.declared :=
  ⟨_, _, rfl, final_scopes_are_bodies rfl⟩

end Program

end Arbor
