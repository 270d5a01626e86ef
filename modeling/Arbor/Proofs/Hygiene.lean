import Arbor.Proofs.MarkedScopes
import Arbor.Proofs.ScopeLayout

/-!
# Names of the host and names of the program

The compiler writes the names of four globals of the host, and a program may declare every name
that is not reserved. The name of the runtime is reserved, so no reference to the runtime is ever
captured. The names of the other three are not: `Program.Hygienic` says what a program must leave
alone for no reference at all to be captured.
-/

namespace Arbor

namespace Markup

variable {markup : Markup}

theorem Tidy.binders (tidy : markup.Tidy) : ∀ name ∈ markup.binders, Host.isBindable name := by
  induction markup with
  | binder name =>
    intro other member
    rw [List.mem_singleton.mp member]
    exact tidy
  | append first last firstIH lastIH =>
    intro name member
    rcases List.mem_append.mp member with member | member
    · exact firstIH tidy.1 name member
    · exact lastIH tidy.2 name member
  | _ =>
    intro name member
    cases member

/-- In a tidy text a reference is to the runtime or to the mathematics of the host, and the scopes
around it declare nothing that is reserved. -/
theorem Tidy.references (tidy : markup.Tidy) : ∀ reference ∈ markup.references,
    (reference.global = .runtime ∨ reference.global = .math) ∧
      ∀ name ∈ reference.around, Host.isBindable name := by
  induction markup with
  | global g =>
    intro reference member
    rw [List.mem_singleton.mp member]
    exact ⟨tidy, by simp⟩
  | append first last firstIH lastIH =>
    intro reference member
    rcases List.mem_append.mp member with member | member
    · exact firstIH tidy.1 reference member
    · exact lastIH tidy.2 reference member
  | scope inside ih =>
    have tidy : inside.Tidy := tidy
    intro reference member
    obtain ⟨inner, named, rfl⟩ := List.mem_map.mp member
    obtain ⟨known, around⟩ := ih tidy inner named
    refine ⟨known, ?_⟩
    intro name declared
    rcases List.mem_append.mp declared with declared | declared
    · exact tidy.binders name declared
    · exact around name declared
  | _ =>
    intro reference member
    cases member

end Markup

namespace Program

/-- What a program leaves alone: at its top, the names with which the runtime is loaded and values
are logged, and around every division of whole numbers the name of the host's mathematics. -/
def Hygienic (program : Program) : Prop :=
  "require" ∉ program.topNames ∧ "console" ∉ program.topNames ∧
    ∀ reference ∈ (bodyMarkup Frames.root program).references, reference.global = .math →
      "Math" ∉ program.topNames ∧ "Math" ∉ reference.around

instance (program : Program) : Decidable program.Hygienic :=
  inferInstanceAs (Decidable (_ ∧ _ ∧ ∀ reference ∈ (bodyMarkup Frames.root program).references,
    reference.global = .math → "Math" ∉ program.topNames ∧ "Math" ∉ reference.around))

/-- A reference in what is written for a program, seen from the scope of the whole. -/
inductive Written (program : Program) : Reference → Prop where
  | runtime : Written program ⟨.runtime, []⟩
  | loader : Written program ⟨.require, []⟩
  | inside {reference : Reference} :
      reference ∈ (bodyMarkup Frames.root program).references → Written program reference
  | log : program.topNames ≠ [] → Written program ⟨.console, []⟩

variable {program : Program} {output : String} {state : EmitState} {after : Frames}

theorem mem_references (formed : BodyWellFormed Frames.root program after) (runtime : String)
    {reference : Reference} :
    reference ∈ (program.markup runtime).references ↔
      ∃ inner, program.Written inner ∧ inner.within program.topNames = reference := by
  have loaded : (Markup.bindRuntime runtime).references = [⟨.runtime, []⟩, ⟨.require, []⟩] := rfl
  have parts : (program.written runtime).references = (Markup.bindRuntime runtime).references ++
      (bodyMarkup Frames.root program).references ++ (Markup.dump program.topNames).references := rfl
  have dumped : (Markup.dump program.topNames).references =
      program.topNames.flatMap fun _ => [⟨.console, []⟩, ⟨.console, []⟩] :=
    Markup.Gathers.references.dump program.topNames
  rw [markup, Markup.references, binders_written formed, parts, loaded, dumped, List.mem_map]
  refine exists_congr fun inner => and_congr_left fun _ => ?_
  constructor
  · intro member
    rcases List.mem_append.mp member with member | logged
    · rcases List.mem_append.mp member with loads | inside
      · simp only [List.mem_cons, List.not_mem_nil, or_false] at loads
        rcases loads with rfl | rfl
        · exact .runtime
        · exact .loader
      · exact .inside inside
    · obtain ⟨name, declared, logs⟩ := List.mem_flatMap.mp logged
      simp only [List.mem_cons, List.not_mem_nil, or_false, or_self] at logs
      rw [logs]
      exact .log (List.ne_nil_of_mem declared)
  · intro written
    cases written with
    | runtime => simp
    | loader => simp
    | inside inside => simp [inside]
    | log some =>
      obtain ⟨name, declared⟩ := List.exists_mem_of_ne_nil _ some
      apply List.mem_append_right
      exact List.mem_flatMap.mpr ⟨name, declared, by simp⟩

theorem captured_within {names : List String} {reference : Reference} :
    (reference.within names).Captured ↔
      reference.global.name ∈ names ∨ reference.global.name ∈ reference.around :=
  List.mem_append

theorem runtime_not_captured (formed : BodyWellFormed Frames.root program after)
    {runtime : String} {reference : Reference}
    (member : reference ∈ (program.markup runtime).references)
    (named : reference.global = .runtime) : ¬reference.Captured := by
  obtain ⟨text, shown⟩ := formed.shows
  have reserved : ¬Host.isBindable Host.runtimeName := by decide
  have top : ∀ name ∈ program.topNames, Host.isBindable name := by
    rw [topNames, ← shown.binders]
    exact shown.tidy.binders
  obtain ⟨inner, written, rfl⟩ := (mem_references formed runtime).mp member
  have around : ∀ name ∈ inner.around, Host.isBindable name := by
    cases written with
    | inside inside => exact (shown.tidy.references inner inside).2
    | _ => simp
  have known : inner.global = .runtime := named
  rw [captured_within, known]
  intro captured
  rcases captured with captured | captured
  · exact reserved (top _ captured)
  · exact reserved (around _ captured)

theorem uncaptured_iff_hygienic (formed : BodyWellFormed Frames.root program after)
    (runtime : String) :
    (∀ reference ∈ (program.markup runtime).references, ¬reference.Captured) ↔
      program.Hygienic := by
  constructor
  · intro free
    have apart (inner : Reference) (written : program.Written inner) :
        inner.global.name ∉ program.topNames ∧ inner.global.name ∉ inner.around := by
      have here := free _ ((mem_references formed runtime).mpr ⟨inner, written, rfl⟩)
      rwa [captured_within, not_or] at here
    refine ⟨(apart _ .loader).1, ?_, ?_⟩
    · intro declared
      have some : program.topNames ≠ [] := List.ne_nil_of_mem declared
      exact (apart _ (.log some)).1 declared
    · intro reference inside math
      have here := apart reference (.inside inside)
      rwa [math] at here
  · intro ⟨require, console, math⟩ reference member
    by_cases named : reference.global = .runtime
    · exact runtime_not_captured formed member named
    · obtain ⟨text, shown⟩ := formed.shows
      obtain ⟨inner, written, rfl⟩ := (mem_references formed runtime).mp member
      rw [captured_within, not_or]
      cases written with
      | runtime => exact absurd rfl named
      | loader => exact ⟨require, by simp⟩
      | inside inside =>
        have known := (shown.tidy.references inner inside).1.resolve_left named
        rw [known]
        exact math inner inside known
      | log some => exact ⟨console, by simp⟩

/-- No reference to the runtime is captured, and no reference at all is just when the program leaves
the other names alone. The text meant is the whole of what is written, and the scopes marked in it
are those of the program. -/
theorem references_uncaptured_iff (accepted : program.emit = .ok output state) (runtime : String) :
    (∃ artifact, program.compile = .ok artifact ∧
      (program.markup runtime).render = artifact.withRuntime runtime ++ artifact.bindings.dump) ∧
    (program.markup runtime).scopes =
      state.scopes.scopes.toList.map (fun scope => Fields.names scope.symbols) ∧
    (∀ reference ∈ (program.markup runtime).references,
      reference.global = .runtime → ¬reference.Captured) ∧
    ((∀ reference ∈ (program.markup runtime).references, ¬reference.Captured) ↔
      program.Hygienic) := by
  obtain ⟨after, formed⟩ := wellFormed_of_emit accepted
  have compiled := compile_of_emit accepted
  refine ⟨⟨_, compiled, render_markup compiled runtime⟩, ?_, ?_, uncaptured_iff_hygienic formed runtime⟩
  · rw [scopes_markup formed, scopes_eq_bodies accepted, List.map_map]
    rfl
  · intro reference member named
    exact runtime_not_captured formed member named

/-- A function that divides its whole numbers and keeps the quotient under a name. -/
def dividing (name : String) : Program :=
  let int : Node := .type (.prim .int) none [] none []
  let quotient : Node := .binary .div (.ident "n") (.ident "n")
  let body : List Node := [.bind name quotient, .ret (some (.ident name))]
  [.bind "half" (.literal (.type .fn none [int] (some int) []) none ["n"] body)]

theorem references_uncaptured_in_dividing : ∃ output state,
    (dividing "q").emit = .ok output state ∧
      ∀ reference ∈ ((dividing "q").markup "./runtime").references, ¬reference.Captured :=
  ⟨_, _, rfl, (references_uncaptured_iff rfl _).2.2.2.mpr (by decide)⟩

/-- The quotient may be called what the host calls its mathematics, and then it is asked to divide. -/
theorem references_captured_in_dividing :
    ¬∀ (program : Program) (output : String) (state : EmitState) (runtime : String),
      program.emit = .ok output state →
        ∀ reference ∈ (program.markup runtime).references, ¬reference.Captured := by
  intro all
  have free := all (dividing "Math") _ _ "./runtime" rfl
  revert free
  decide

/-- A program may also declare what loads the runtime or logs its values. -/
example : ∀ name ∈ ["require", "console"],
    (∃ output state, Program.emit [.bind name (.new (.type (.prim .int) none [] none []))] =
      .ok output state) ∧ ¬Hygienic [.bind name (.new (.type (.prim .int) none [] none []))] := by
  intro name member
  simp only [List.mem_cons, List.not_mem_nil, or_false] at member
  rcases member with rfl | rfl
  · exact ⟨⟨_, _, rfl⟩, by decide⟩
  · exact ⟨⟨_, _, rfl⟩, by decide⟩

end Program

end Arbor
