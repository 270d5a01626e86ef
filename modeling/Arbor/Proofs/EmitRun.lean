import Arbor.Emit.Rendering

/-!
# Runs of emission steps

Each step of an emission as an equation on states: what it gives and the state it leaves, on
success and on failure. Later modules take runs apart with these and never unfold a step.
Computations without a state come first.
-/

namespace Arbor

section Except

variable {ε α β : Type}

/-- A computation of two steps that succeeds is two steps that do. -/
theorem Except.bind_eq_ok {x : Except ε α} {f : α → Except ε β} {b : β} :
    (x >>= f) = .ok b ↔ ∃ a, x = .ok a ∧ f a = .ok b := by
  cases x with
  | ok a =>
    constructor
    · intro rest
      exact ⟨a, rfl, rest⟩
    · rintro ⟨_, ⟨⟩, rest⟩
      exact rest
  | error e =>
    constructor
    · intro failed
      cases failed
    · rintro ⟨_, ⟨⟩, _⟩

/-- A guarded computation succeeds when the guard holds and it does. -/
theorem Except.guard_eq_ok {p : Prop} [Decidable p] {x : Except ε α} {e : ε} {a : α} :
    (if p then x else .error e) = .ok a ↔ p ∧ x = .ok a := by
  split
  · next holds => simp [holds]
  · next fails => simp [fails]

end Except

namespace Emit

variable {α β : Type}

/-- What a run came to, without its state. -/
def outcome : EStateM.Result CompileError EmitState α → Except CompileError α
  | .ok a _ => .ok a
  | .error e _ => .error e

/-- The state a run ended in. -/
def after : EStateM.Result CompileError EmitState α → EmitState
  | .ok _ state => state
  | .error _ state => state

@[simp] theorem pure_run (a : α) (state : EmitState) :
    (Pure.pure a : Emit α).run state = .ok a state := rfl

@[simp] theorem throw_run (e : CompileError) (state : EmitState) :
    (MonadExcept.throw e : Emit α).run state = .error e state := rfl

theorem bind_run (x : Emit α) (f : α → Emit β) (state : EmitState) :
    (x >>= f).run state = match x.run state with
      | .ok a next => (f a).run next
      | .error e next => .error e next := by
  change EStateM.bind x f state = _
  unfold EStateM.bind EStateM.run
  cases x state <;> rfl

/-- A run of two steps that goes through is two runs that do. -/
theorem bind_eq_ok {x : Emit α} {f : α → Emit β} {b : β} {state last : EmitState} :
    (x >>= f).run state = .ok b last ↔
      ∃ a next, x.run state = .ok a next ∧ (f a).run next = .ok b last := by
  rw [bind_run]
  cases x.run state with
  | ok a next =>
    constructor
    · intro rest
      exact ⟨a, next, rfl, rest⟩
    · rintro ⟨_, _, ⟨⟩, rest⟩
      exact rest
  | error e next => simp

@[simp] theorem tell_run (event : Event) (state : EmitState) :
    (tell event).run state = .ok () { state with log := event :: state.log } := rfl

@[simp] theorem ofExcept_ok (a : α) : ofExcept (.ok a) = (Pure.pure a : Emit α) := rfl

@[simp] theorem ofExcept_error (e : CompileError) :
    ofExcept (.error e) = (MonadExcept.throw e : Emit α) := rfl

/-- Opening a scope never fails. -/
theorem openScope_run (parent : Nat) (kind : ScopeKind) (state : EmitState) :
    (openScope parent kind).run state = .ok state.scopes.next
      ⟨state.scopes.push parent kind, .openedScope state.scopes.next parent kind :: state.log⟩ :=
  rfl

theorem declare_run (scope : Nat) (name : String) (type : Ty) (state : EmitState) :
    (declare scope name type).run state = match state.scopes.declare scope name type with
      | .ok scopes => .ok () { state with scopes }
      | .error e => .error e state := by
  change (ofExcept (state.scopes.declare scope name type) >>= fun scopes =>
    set { state with scopes }).run state = _
  rw [bind_run]
  cases state.scopes.declare scope name type <;> rfl

theorem resolve_run (scope : Nat) (name : String) (state : EmitState) :
    (resolve scope name).run state = match state.scopes.lookup? scope name with
      | some type => .ok type state
      | none => .error (.undefinedVariable name) state := by
  change (if state.scopes.has scope name then ofExcept (state.scopes.get scope name)
    else MonadExcept.throw (.undefinedVariable name) : Emit Ty).run state = _
  unfold ScopeTree.has ScopeTree.get
  cases state.scopes.lookup? scope name <;> rfl

theorem expectType_run (expected found : Ty) (site : Site) (state : EmitState) :
    (expectType expected found site).run state =
      if expected.equiv found then .ok () state
      else .error (.typeMismatch expected found site) state := by
  unfold expectType
  split <;> rfl

end Emit

end Arbor
