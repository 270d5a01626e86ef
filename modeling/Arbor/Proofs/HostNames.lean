import Arbor.Proofs.HostScoping
import Arbor.Proofs.ScopeChanges

/-!
# Names that the host takes

Only a `let` and a parameter are held against the host's rules for names. Every other name is
written as it stands in the tree, and so are the names of a dump. They are safe because a name is
written only once it has been found in a scope, and at every moment of a compilation all names of
all scopes follow the rules: each change of the scopes keeps this, and the scopes in which names are
looked up are reached by such changes.
-/

namespace Arbor

namespace Host

/-- A letter of the basic alphabet, or one of two signs. -/
def NameStart (c : Char) : Prop :=
  ('A' ≤ c ∧ c ≤ 'Z') ∨ ('a' ≤ c ∧ c ≤ 'z') ∨ c = '_' ∨ c = '$'

def NamePart (c : Char) : Prop :=
  NameStart c ∨ ('0' ≤ c ∧ c ≤ '9')

/-- The name of a binding of the host, and not the runtime's. -/
structure Identifier (name : String) : Prop where
  spelled : ∃ first rest, name.toList = first :: rest ∧ NameStart first ∧ ∀ c ∈ rest, NamePart c
  unreserved : name ∉ reservedWords
  ne_runtime : name ≠ runtimeName

theorem isNameStart_iff {c : Char} : isNameStart c ↔ NameStart c := by
  delta isNameStart NameStart Char.isAlpha Char.isUpper Char.isLower
  simp only [Bool.or_eq_true, Bool.and_eq_true, decide_eq_true_eq, beq_iff_eq, ge_iff_le,
    Char.le_def]
  tauto

theorem isNamePart_iff {c : Char} : isNamePart c ↔ NamePart c := by
  simp only [isNamePart, NamePart, ← isNameStart_iff, isNameStart, Char.isAlphanum, Char.isDigit,
    Bool.or_eq_true, Bool.and_eq_true, decide_eq_true_eq, beq_iff_eq, ge_iff_le, Char.le_def]
  tauto

theorem isBindable_iff {name : String} : isBindable name ↔ Identifier name := by
  have runtime : name ∉ reservedWords → name ≠ runtimeName := by
    rintro absent rfl
    exact absent (by decide)
  constructor
  · intro bindable
    unfold isBindable at bindable
    split at bindable
    · cases bindable
    · next first rest spelled =>
      simp only [Bool.and_eq_true, List.all_eq_true, Bool.not_eq_eq_eq_not, Bool.not_true,
        List.contains_eq_mem, decide_eq_false_iff_not] at bindable
      obtain ⟨⟨start, parts⟩, absent⟩ := bindable
      refine ⟨⟨first, rest, spelled, isNameStart_iff.mp start, ?_⟩, absent, runtime absent⟩
      exact fun c member => isNamePart_iff.mp (parts c member)
  · rintro ⟨⟨first, rest, spelled, start, parts⟩, absent, -⟩
    have all : rest.all isNamePart := List.all_eq_true.mpr fun c member =>
      isNamePart_iff.mpr (parts c member)
    simp [isBindable, spelled, isNameStart_iff.mpr start, all, absent]

end Host

/-! ## Names in scopes -/

namespace ScopeTree

variable {tree last : ScopeTree} {changes : List ScopeChange}

/-- All names of all scopes can be written as they are. -/
def Bindable (tree : ScopeTree) : Prop :=
  ∀ id, ∀ name ∈ Fields.names (tree.symbols id), Host.isBindable name

theorem Bindable.empty : ScopeTree.empty.Bindable := by
  intro id name member
  rcases id with _ | id <;> cases member

theorem Bindable.apply {change : ScopeChange} (allowed : change.Allowed tree)
    (bindable : tree.Bindable) : (change.apply tree).Bindable := by
  intro id other member
  cases change with
  | opened parent kind =>
    rw [ScopeChange.apply, symbols_push] at member
    exact bindable id other member
  | declared scope name type =>
    obtain ⟨known, valid, fresh⟩ := allowed
    have made := (@declare_eq_ok tree _ scope name type).mpr ⟨fresh, rfl⟩
    rw [ScopeChange.apply, made] at member
    rcases (mem_names_declare made known).mp member with member | ⟨-, rfl⟩
    · exact bindable id other member
    · exact valid

/-- The names stay such that the host takes them, change by change. -/
theorem Leads.bindable (leads : tree.Leads changes last) (bindable : tree.Bindable) :
    last.Bindable :=
  leads.keep Bindable.apply bindable

/-- A name that is found in some scope is among its names. -/
theorem Bindable.of_nearest? {scope found : Nat} {name : String} (bindable : tree.Bindable)
    (nearest : tree.nearest? scope name = some found) : Host.isBindable name := by
  have declared := List.find?_some nearest
  exact bindable found name (List.contains_iff_mem.mp declared)

end ScopeTree

/-! ## Names that are looked up -/

open Emit

/-- The trees in which a step looks names up are reached from where it starts. -/
def Trace.Reached (trace : Trace) : Prop :=
  ∀ (scope : Nat) (state : EmitState), scope < state.scopes.next →
    ∀ lookup ∈ trace scope state, ∃ changes, state.scopes.Leads changes lookup.tree

namespace Trace.Reached

variable {α : Type} {first second body : Trace} {step : Nat → Emit α} {changes : Changes}

theorem none : Trace.none.Reached := by
  rintro scope state _ lookup ⟨⟩

theorem name (name : String) : (Trace.name name).Reached := by
  intro scope state _ lookup member
  cases List.mem_singleton.mp member
  exact ⟨[], .nil⟩

theorem andThen (reached : first.Reached) (performs : Performs step changes)
    (next : second.Reached) : (Trace.andThen first step second).Reached := by
  intro scope state h lookup member
  rcases List.mem_append.mp member with member | member
  · exact reached scope state h lookup member
  · have leads := performs scope state h
    have later := Nat.lt_of_lt_of_le h leads.next_le
    obtain ⟨more, reaches⟩ := next scope _ later lookup member
    exact ⟨_, leads.append reaches⟩

theorem sequence {parts : List (Trace × (Nat → Emit α))}
    (reached : ∀ part ∈ parts, part.1.Reached ∧ ∃ changes, Performs part.2 changes) :
    (Trace.sequence parts).Reached := by
  induction parts with
  | nil => exact none
  | cons part rest ih =>
    obtain ⟨here, changes, performs⟩ := reached part (by simp)
    exact here.andThen performs (ih fun part member => reached part (by simp [member]))

/-- What a body looks up in a scope of its own. -/
theorem inside (kind : ScopeKind) (reached : body.Reached) {scope : Nat} {state : EmitState}
    (h : scope < state.scopes.next) {lookup : Lookup}
    (member : lookup ∈ body state.scopes.next (after ((openScope scope kind).run state))) :
    ∃ changes, state.scopes.Leads changes lookup.tree := by
  obtain ⟨more, reaches⟩ := reached _ _ (by simp [openScope_run, after]) lookup member
  exact ⟨.opened scope kind :: more, .cons h reaches⟩

theorem block (reached : body.Reached) : (Trace.block body).Reached :=
  fun _ _ h _ member => reached.inside .block h member

theorem function (names : List String) (types : List Ty) (reached : body.Reached) :
    (Trace.function names types body).Reached := by
  have entered := none.andThen (Performs.declareParameters names types) reached
  exact fun _ _ h _ member => entered.inside .function h member

theorem inFunction (reached : body.Reached) : (Trace.inFunction body).Reached := by
  intro scope state h lookup member
  unfold Trace.inFunction at member
  split at member
  · exact reached scope state h lookup member
  · cases member

end Trace.Reached

theorem bodyTrace_reached {nodes : List Node} (parts : ∀ n ∈ nodes, n.trace.Reached) :
    (bodyTrace nodes).Reached := by
  induction nodes with
  | nil => exact .none
  | cons node rest ih =>
    have others := ih fun n member => parts n (by simp [member])
    exact (parts node (by simp)).andThen node.performed.statement others

theorem literal_reached {descriptor : Node} {payload : Option Payload} {parameters : List String}
    {body : List Node} (fields : ∀ f ∈ Payload.entries payload, f.2.trace.Reached)
    (within : ∀ n ∈ body, n.trace.Reached) :
    (Node.literal descriptor payload parameters body).trace.Reached := by
  cases payload with
  | none =>
    unfold Node.trace
    split
    · exact (bodyTrace_reached within).function parameters _
    · exact .none
  | some payload =>
    unfold Node.trace
    split
    · next declared _ =>
      refine .sequence fun part member => ?_
      obtain ⟨field, -, found⟩ := List.mem_filterMap.mp member
      have listed := Fields.mem_of_lookup found
      cases payload with
      | fields table =>
        rw [Payload.traces, fieldTraces_eq_map] at listed
        obtain ⟨entry, inTable, same⟩ := List.mem_map.mp listed
        obtain ⟨-, rfl⟩ := Prod.mk.inj same
        exact ⟨fields entry inTable, _, entry.2.performed.expression⟩
      | _ => cases listed
    · exact .none

/-- Every name is looked up in a tree that the walk has led to. -/
theorem Node.trace_reached (node : Node) : node.trace.Reached := by
  induction node with
  | bind name value ih => exact ih
  | assign target value _ ih =>
    cases target with
    | ident name => exact (Trace.Reached.name name).andThen (.still fun _ => .resolve _ _) ih
    | _ => exact .none
  | ret value ih =>
    cases value with
    | none => exact .none
    | some value => exact (ih value rfl).inFunction
  | branch condition body otherwise conditionIH bodyIH otherwiseIH =>
    have tested := Performs.condition condition.performed.sound .ifCondition
    have inside := bodyTrace_reached bodyIH
    cases otherwise with
    | none => exact conditionIH.andThen tested inside.block
    | some other =>
      have performs := (body_performs fun n (_ : n ∈ body) => n.performed).block
      have outside := bodyTrace_reached (otherwiseIH other rfl)
      exact conditionIH.andThen tested (inside.block.andThen performs outside.block)
  | loop condition body conditionIH bodyIH =>
    have tested := Performs.condition condition.performed.sound .whileCondition
    exact conditionIH.andThen tested (bodyTrace_reached bodyIH).block
  | ident name => exact .name name
  | literal type payload parameters body _ _ fieldsIH bodyIH =>
    exact literal_reached fieldsIH bodyIH
  | binary op left right leftIH rightIH => exact leftIH.andThen left.performed.expression rightIH
  | unary op operand ih => exact ih
  | call callee arguments calleeIH argumentsIH =>
    refine calleeIH.andThen callee.performed.expression (.sequence ?_)
    rw [argumentTraces_eq_map]
    simp only [List.forall_mem_map]
    exact fun n member => ⟨argumentsIH n member, _, n.performed.expression⟩
  | new target => exact .none
  | member object property => exact .none
  | element object index => exact .none
  | type tag name parameters returns fields => exact .none
  | unknown kind => exact .none

namespace Program

theorem lookups_reached (program : Program) :
    ∀ lookup ∈ program.lookups, ∃ changes, ScopeTree.empty.Leads changes lookup.tree :=
  bodyTrace_reached (fun n (_ : n ∈ program) => n.trace_reached) ScopeTree.root .initial (by decide)

/-- All names that an accepted program looks up are found. -/
theorem lookups_found {program : Program} {artifact : Artifact}
    (compiled : program.compile = .ok artifact) :
    ∀ lookup ∈ program.lookups, lookup.found?.isSome := by
  unfold compile compilation at compiled
  split at compiled
  · next output state accepted =>
    exact (body_traced (fun n (_ : n ∈ program) => n.traces) ScopeTree.root .initial output state
      (by decide) accepted).found
  · cases compiled

/-- The names at the top of an accepted program can be written as they are. -/
theorem bindings_bindable {program : Program} {artifact : Artifact}
    (compiled : program.compile = .ok artifact) :
    ∀ name ∈ Fields.names artifact.bindings, Host.isBindable name := by
  have leads := program.performed
  unfold compile compilation at compiled
  split at compiled
  · next output state accepted =>
    cases compiled
    rw [accepted] at leads
    exact leads.bindable .empty ScopeTree.root
  · cases compiled

/-- At every moment of a compilation, whether it ends in an artifact or in an error, all names of all
scopes can be written as they are. So the names that an accepted program looks up, and those that a
dump writes, are names of the host. -/
theorem written_names_identify (program : Program) :
    ScopeTree.empty.Leads program.changes (after program.emit).scopes ∧
      (∀ front, front <+: program.changes → ∀ id,
        ∀ name ∈ Fields.names ((ScopeTree.empty.replay front).symbols id), Host.isBindable name) ∧
      ∀ artifact, program.compile = .ok artifact →
        (∀ lookup ∈ program.lookups, Host.Identifier lookup.name) ∧
          ∀ name ∈ Fields.names artifact.bindings, Host.Identifier name := by
  have leads := program.performed
  refine ⟨leads, ?_, ?_⟩
  · rintro front ⟨back, whole⟩
    rw [← whole] at leads
    exact leads.moment.bindable .empty
  · intro artifact compiled
    constructor
    · intro lookup member
      obtain ⟨changes, reaches⟩ := program.lookups_reached lookup member
      obtain ⟨scope, found⟩ := Option.isSome_iff_exists.mp (lookups_found compiled lookup member)
      exact Host.isBindable_iff.mp ((reaches.bindable .empty).of_nearest? found)
    · intro name member
      exact Host.isBindable_iff.mp (bindings_bindable compiled name member)

/-- A body that hides a name with its own value. -/
theorem written_names_identify_in_hiding : ∃ artifact,
    (shadowing "$a" (.ident "$a") []).compile = .ok artifact ∧
      (shadowing "$a" (.ident "$a") []).lookups.map Lookup.name = ["$a", "$a"] ∧
      (∀ lookup ∈ (shadowing "$a" (.ident "$a") []).lookups, Host.Identifier lookup.name) ∧
      ∀ name ∈ Fields.names artifact.bindings, Host.Identifier name :=
  ⟨_, rfl, rfl, (written_names_identify _).2.2 _ rfl⟩

end Program

end Arbor
