import Arbor.Proofs.Refinement
import Arbor.Proofs.ScopeHistory

/-!
# What a visit does to the scopes

Function literals stand inside of expressions and bring whole bodies with them, so a visit of any
node may open scopes and declare names in them before it comes to its end or fails. All of that
happens in scopes of its own. `Opens scope before after` says that scopes inside of `scope` stand
behind those there were, and that nothing else is different. A visit of an expression does no more,
and of the statements only a `let` that goes through does: one name stands behind the others of the
scope that it is visited in.

Growth gives all this (`Grows`), which the walk is known to keep to on success and on failure.
-/

namespace Arbor

open Emit

namespace ScopeTree

variable {scope : Nat} {before middle after : ScopeTree} {added : List (String × Ty)}

/-- Scopes inside of `scope` have been opened, and nothing else has happened. -/
structure Opens (scope : Nat) (before after : ScopeTree) : Prop where
  /-- The scopes that were there have the names, the parent and the kind that they had. -/
  kept : before.scopes.toList <+: after.scopes.toList
  inside : ∀ id, before.next ≤ id → id < after.next → after.Within id scope

/-- A new scope lies inside of the visited one: its parent does or is the visited one, and parents
are older. -/
theorem Grows.within (grows : Grows scope added before after) {id : Nat} (fresh : before.next ≤ id)
    (known : id < after.next) : after.Within id scope := by
  induction id using Nat.strongRecOn with
  | ind id ih =>
    obtain ⟨s, found⟩ := exists_scope known
    obtain ⟨parent, around, older, own | opened⟩ := grows.opened id fresh s found
    · subst own
      exact .single (parent?_eq_some.mpr ⟨s, found, around⟩)
    · have outward := ih parent older opened (Nat.lt_trans older known)
      exact outward.head (parent?_eq_some.mpr ⟨s, found, around⟩)

/-- Where no name was declared, all old scopes are as they were. -/
theorem Grows.old_eq (grows : Grows scope [] before after) {id : Nat} (known : id < before.next) :
    after.scopes[id]? = before.scopes[id]? := by
  by_cases own : id = scope
  · subst own
    simp [grows.own]
  · exact grows.kept id known own

theorem Grows.opens (grows : Grows scope [] before after) : before.Opens scope after where
  kept := by
    rw [List.prefix_iff_getElem?]
    intro id known
    rw [Array.getElem?_toList, grows.old_eq known, ← Array.getElem?_toList]
    exact List.getElem?_eq_getElem known
  inside _ := grows.within

/-- Of two trees grown by the same names, the first without new scopes, the second is the first
grown by scopes. -/
theorem Grows.cancel (first : Grows scope added before middle)
    (whole : Grows scope added before after) (same : middle.next = before.next) :
    Grows scope [] middle after where
  next_le := same ▸ whole.next_le
  kept id known other := by
    rw [same] at known
    rw [whole.kept id known other, first.kept id known other]
  own := by
    rw [whole.own, first.own, Option.map_map]
    congr 1
    funext s
    simp
  opened id fresh s found := by
    rw [same] at fresh ⊢
    exact whole.opened id fresh s found

/-- A name that is declared behind a visit that declares nothing could as well have been declared
before it. -/
theorem Grows.declare_before {name : String} {type : Ty} (grows : Grows scope [] before middle)
    (known : scope < before.next) (declared : middle.declare scope name type = .ok after) :
    ∃ start, before.declare scope name type = .ok start ∧ start.Opens scope after := by
  have fresh := (declare_eq_ok.mp declared).1
  rw [grows.symbols_eq known, List.append_nil] at fresh
  have early := (@declare_eq_ok before _ scope name type).mpr ⟨fresh, rfl⟩
  have whole := grows.trans (.declare declared) known
  exact ⟨_, early, ((Grows.declare early).cancel whole (next_declare early)).opens⟩

end ScopeTree

variable {α : Type} {scope : Nat} {state : EmitState}

theorem Emit.Expresses.grows {emit : Nat → Emit α} {reference : Frames → Except CompileError α}
    (steps : Expresses emit reference) (known : scope < state.scopes.next) :
    state.scopes.Grows scope [] (after ((emit scope).run state)).scopes :=
  (steps state.scopes scope known state (.refl scope state.scopes)).1

/-- A statement that declares nothing leaves a note in the log. -/
theorem Emit.Expresses.noted {emit : Nat → Emit String}
    {reference : Frames → Except CompileError String} (steps : Expresses emit reference)
    (kind : String) :
    Expresses (Rendering.ofStatement kind emit).statement fun frames =>
      reference frames >>= fun text => .ok (some text) :=
  fun start scope known => (steps start scope known).bind fun _ => .tell_bind _ (.pure _)

theorem Emit.Expresses.alone {emit : Nat → Emit Emitted}
    {reference : Frames → Except CompileError Emitted} (steps : Expresses emit reference)
    (kind : String) :
    Expresses (Rendering.ofExpression kind emit).statement fun frames =>
      reference frames >>= fun value => .ok (some value.text) :=
  fun start scope known => (steps start scope known).bind fun _ => .tell_bind _ (.pure _)

theorem Emit.Expresses.unhandled (kind : String) :
    Expresses (Rendering.unhandled kind).statement fun _ => .error (.unhandledKind kind) :=
  fun _ _ _ => .throw _

namespace Node

/-- The node is a `let`. -/
def isBind : Node → Bool
  | .bind .. => true
  | _ => false

/-- No other statement than a `let` declares anything. -/
theorem statement_expresses {node : Node} (other : node.isBind = false) :
    ∃ reference, Expresses node.rendering.statement reference := by
  have body (nodes : List Node) := body_states fun n (_ : n ∈ nodes) => n.rendering_refines
  have expression := node.rendering_refines.expression
  cases node with
  | bind name value => cases other
  | assign target value =>
    exact ⟨_, (Expresses.assign target value.rendering_refines.expression).noted "assign"⟩
  | ret value =>
    rw [Node.rendering_ret, Rendering.ofReturn, Option.map_map]
    exact ⟨_, .ret value fun v _ => v.rendering_refines.expression⟩
  | branch test nodes otherwise =>
    rw [Node.rendering_branch]
    have steps := Expresses.branch test.rendering_refines.expression (body nodes) otherwise
      fun other _ => body other
    exact ⟨_, steps.noted "if"⟩
  | loop test nodes =>
    exact ⟨_, (Expresses.loop test.rendering_refines.expression (body nodes)).noted "while"⟩
  | ident name => exact ⟨_, expression.alone "identifier"⟩
  | literal type payload parameters nodes =>
    rw [Node.rendering_literal] at expression ⊢
    exact ⟨_, expression.alone "literal"⟩
  | new target => exact ⟨_, expression.alone "new"⟩
  | binary op left right => exact ⟨_, expression.alone "binary"⟩
  | unary op operand => exact ⟨_, expression.alone "unary"⟩
  | call callee arguments => exact ⟨_, expression.alone "call"⟩
  | member object property => exact ⟨_, .unhandled "objAccess"⟩
  | element object index => exact ⟨_, .unhandled "access"⟩
  | type tag name parameters returns fields => exact ⟨_, .unhandled "type"⟩
  | unknown kind => exact ⟨_, .unhandled kind⟩

/-- All that a `let` can do: it declares its name once its value has been visited, or it fails and
nothing but the visit of the value has happened. -/
theorem bind_cases (name : String) (value : Node) (scope : Nat) (state : EmitState) :
    (∃ text next emitted middle,
      ((Node.bind name value).rendering.statement scope).run state = .ok text next ∧
        (value.rendering.expression scope).run state = .ok emitted middle ∧
        middle.scopes.declare scope name emitted.type = .ok next.scopes) ∨
      ∃ e next, ((Node.bind name value).rendering.statement scope).run state = .error e next ∧
        (next = state ∨ next = after ((value.rendering.expression scope).run state)) := by
  have noted : ((Node.bind name value).rendering.statement scope).run state =
      (Emit.bind name value.rendering.expression scope >>= fun text =>
        tell (.emitted "let") >>= fun _ => pure (some text)).run state := rfl
  rw [noted, bind_run, Emit.bind]
  by_cases valid : Host.isBindable name
  · rw [if_pos valid, bind_run]
    cases (value.rendering.expression scope).run state with
    | error e middle => exact .inr ⟨e, middle, rfl, .inr rfl⟩
    | ok emitted middle =>
      dsimp only
      rw [bind_run, declare_run]
      cases made : middle.scopes.declare scope name emitted.type with
      | error e => exact .inr ⟨e, middle, rfl, .inr rfl⟩
      | ok scopes => exact .inl ⟨_, _, emitted, middle, rfl, rfl, made⟩
  · rw [if_neg valid]
    exact .inr ⟨_, state, rfl, .inl rfl⟩

end Node

/-- Visits touch their own scope only. A visit of an expression, whether it goes through or fails,
leaves every scope as it was and opens none but inside of the scope it is made in. The visit of a
statement does no more, unless it is a `let` and goes through: then it is as if the name, with the
type of the value, had been declared in the scope first. -/
theorem visits_touch_own_scope (node : Node) {scope : Nat} {state : EmitState}
    (known : scope < state.scopes.next) :
    state.scopes.Opens scope (after ((node.rendering.expression scope).run state)).scopes ∧
      match node, (node.rendering.statement scope).run state with
      | .bind name value, .ok _ next => ∃ emitted middle declared,
          (value.rendering.expression scope).run state = .ok emitted middle ∧
            state.scopes.declare scope name emitted.type = .ok declared ∧
            declared.Opens scope next.scopes
      | _, result => state.scopes.Opens scope (after result).scopes := by
  refine ⟨(node.rendering_refines.expression.grows known).opens, ?_⟩
  cases other : node.isBind with
  | false =>
    obtain ⟨reference, steps⟩ := Node.statement_expresses other
    have opens := (steps.grows known).opens
    split
    · cases other
    · exact opens
  | true =>
    cases node with
    | bind name value =>
      have visited := value.rendering_refines.expression.grows known
      obtain ⟨text, next, emitted, middle, ran, valued, declared⟩ | ⟨e, next, ran, untouched⟩ :=
        Node.bind_cases name value scope state
      · rw [ran]
        rw [valued] at visited
        obtain ⟨start, early, opens⟩ := visited.declare_before known declared
        exact ⟨emitted, middle, start, valued, early, opens⟩
      · rw [ran]
        rcases untouched with rfl | rfl
        · exact (ScopeTree.Grows.refl scope next.scopes).opens
        · exact visited.opens
    | _ => cases other

/-- A function literal whose body declares a name and then goes on with `rest`. -/
def Node.declaring (rest : List Node) : Node :=
  let int : Node := .type (.prim .int) none [] none []
  .literal (.type .fn none [int] (some int) []) none ["p"] (.bind "q" (.ident "p") :: rest)

/-- In a block, a `let` of a function whose body declares names, and the same where the body fails
once it has declared them: the scope of the body stays behind both times, the name only if the `let`
goes through. -/
theorem visits_touch_own_scope_in_block :
    let state : EmitState := ⟨ScopeTree.empty.push ScopeTree.root .block, []⟩
    1 < state.scopes.next ∧
      (∃ text next declared,
        ((Node.bind "f" (.declaring [])).rendering.statement 1).run state = .ok text next ∧
          state.scopes.declare 1 "f" (.fn [.prim .int] (.prim .int)) = .ok declared ∧
          declared.Opens 1 next.scopes ∧ next.scopes.next = 3) ∧
      ∃ next, ((Node.bind "f" (.declaring [.ident "r"])).rendering.statement 1).run state =
          .error (.undefinedVariable "r") next ∧
        state.scopes.Opens 1 next.scopes ∧ next.scopes.next = 3 := by
  intro state
  have known : 1 < state.scopes.next := by decide
  obtain ⟨last, failed, size⟩ : ∃ last,
      ((Node.bind "f" (.declaring [.ident "r"])).rendering.statement 1).run state =
        .error (.undefinedVariable "r") last ∧ last.scopes.next = 3 := ⟨_, rfl, rfl⟩
  refine ⟨known, ?_, last, failed, ?_, size⟩
  · obtain ⟨_, _, declared, ⟨⟩, early, opens⟩ :=
      (visits_touch_own_scope (.bind "f" (.declaring [])) known).2
    exact ⟨_, _, declared, rfl, early, opens, rfl⟩
  · have touched := (visits_touch_own_scope (.bind "f" (.declaring [.ident "r"])) known).2
    rw [failed] at touched
    exact touched

end Arbor
