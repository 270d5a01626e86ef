import Arbor.Proofs.Bodies
import Arbor.Proofs.Checking

/-!
# Well-formed bodies

The typing rules seen from the bodies of a program. An expression that has a type has its derived
one, so the names that statements add to their frame are those of `bodySymbols`; and in a program
that the rules accept, every body is well formed in the frame it starts in.
-/

namespace Arbor

/-! ## Derived types -/

theorem Node.HasType.derived {node : Node} {frames : Frames} {type : Ty}
    (typed : node.HasType frames type) : node.derived frames = some type := by
  induction node generalizing type with
  | ident name =>
    cases typed with
    | ident nearest => exact Frames.type?_eq_some.mpr nearest
  | literal descriptor payload parameters body =>
    have lowered : descriptor.lower = .ok type := by
      cases typed with
      | scalar lowered _ => exact lowered
      | function lowered _ _ _ _ => exact lowered
      | object lowered _ _ => exact lowered
    rw [Node.derived, lowered]
    rfl
  | new target =>
    cases typed with
    | new lowered =>
      rw [Node.derived, lowered]
      rfl
  | binary op left right leftIH rightIH =>
    cases typed with
    | binary first second same takes =>
      obtain ⟨-, rfl⟩ := BinaryOp.takes_iff.mp takes
      rw [Node.derived, leftIH first, Option.map_some]
  | unary op operand ih =>
    cases typed with
    | unary typed takes =>
      rw [Node.derived]
      exact ih typed
  | call callee arguments calleeIH argumentsIH =>
    cases typed with
    | call typed typedArguments => rw [Node.derived, calleeIH typed]
  | _ => cases typed

/-- An expression has one type at most. -/
theorem Node.HasType.unique {node : Node} {frames : Frames} {type other : Ty}
    (typed : node.HasType frames type) (again : node.HasType frames other) : type = other :=
  Option.some.inj (typed.derived.symm.trans again.derived)

/-! ## What statements declare -/

theorem Node.symbols_bind {name : String} {value : Node} {frames : Frames} {type : Ty}
    (derived : value.derived frames = some type) :
    (Node.bind name value).symbols frames = [(name, type)] := by
  rw [Node.symbols, derived]
  rfl

theorem Node.symbols_expression {node : Node} (kind : node.isExpression) (frames : Frames) :
    node.symbols frames = [] := by
  cases node with
  | bind name value => cases kind
  | _ => rfl

namespace Node.WellFormed

variable {node : Node} {frames after : Frames}

/-- A statement adds its symbols to the innermost frame. -/
theorem after_eq (formed : node.WellFormed frames after) :
    after = frames.extend (node.symbols frames) := by
  cases formed with
  | bind bindable typed fresh => rw [Node.symbols_bind typed.derived]
  | expression typed => rw [Node.symbols_expression typed.isExpression, Frames.extend_nil]
  | _ => exact (Frames.extend_nil frames).symm

theorem names_symbols (formed : node.WellFormed frames after) :
    Fields.names (node.symbols frames) = node.declared := by
  cases formed with
  | bind bindable typed fresh =>
    rw [Node.symbols_bind typed.derived]
    rfl
  | expression typed =>
    rw [Node.symbols_expression typed.isExpression]
    cases typed <;> rfl
  | _ => rfl

/-- A statement declares no name that its frame has. -/
theorem fresh_symbols (formed : node.WellFormed frames after) :
    ∀ name ∈ Fields.names (node.symbols frames), name ∉ Fields.names frames.symbols := by
  have names := formed.names_symbols
  cases formed with
  | bind bindable typed fresh =>
    intro name member
    rw [names] at member
    rw [List.mem_singleton.mp member]
    exact fresh
  | expression typed => simp [Node.symbols_expression typed.isExpression, Fields.names]
  | _ => simp [Node.symbols, Fields.names]

end Node.WellFormed

theorem Frames.symbols_extend {frame : Frame} {outer : Frames} (added : List (String × Ty)) :
    (Frames.extend added (frame :: outer)).symbols = frame.symbols ++ added := rfl

namespace BodyWellFormed

variable {nodes : List Node} {frames after : Frames}

theorem after_eq (formed : BodyWellFormed frames nodes after) :
    after = frames.extend (bodySymbols frames nodes) := by
  induction nodes generalizing frames with
  | nil =>
    cases formed
    exact (Frames.extend_nil _).symm
  | cons node rest ih =>
    cases formed with
    | cons first others =>
      rw [first.after_eq] at others
      rw [ih others, Frames.extend_extend, bodySymbols]

/-- The names that the statements of a body declare are those of its `let`s, in order. -/
theorem names_symbols (formed : BodyWellFormed frames nodes after) :
    Fields.names (bodySymbols frames nodes) = nodes.flatMap Node.declared := by
  induction nodes generalizing frames with
  | nil => rfl
  | cons node rest ih =>
    cases formed with
    | cons first others =>
      have names := first.names_symbols
      rw [first.after_eq] at others
      have namesRest := ih others
      unfold Fields.names at names namesRest ⊢
      rw [bodySymbols, List.map_append, names, namesRest, List.flatMap_cons]

/-- No name is declared twice in the frame behind a body, if none is in the one before it. -/
theorem nodup_symbols (formed : BodyWellFormed frames nodes after)
    (apart : (Fields.names frames.symbols).Nodup) : (Fields.names after.symbols).Nodup := by
  induction nodes generalizing frames with
  | nil =>
    cases formed
    exact apart
  | cons node rest ih =>
    cases formed with
    | cons first others =>
      apply ih others
      rw [first.after_eq]
      cases frames with
      | nil => exact apart
      | cons frame outer =>
        have names := first.names_symbols
        have fresh := first.fresh_symbols
        have once : (Fields.names (node.symbols (frame :: outer))).Nodup := by
          rw [names]
          cases node <;> simp [Node.declared]
        unfold Fields.names at apart fresh once ⊢
        rw [Frames.symbols_extend, List.map_append, List.nodup_append]
        refine ⟨apart, once, ?_⟩
        intro name old other new same
        subst same
        exact fresh name new old

end BodyWellFormed

/-! ## Parts in lists -/

theorem ArgumentsHaveTypes.exists_type {frames : Frames} {nodes : List Node} {types : List Ty}
    (typed : ArgumentsHaveTypes frames nodes types) :
    ∀ node ∈ nodes, ∃ type, node.HasType frames type := by
  induction nodes generalizing types with
  | nil => simp
  | cons node rest ih =>
    cases typed with
    | cons typed same typedRest =>
      intro other member
      rcases List.mem_cons.mp member with rfl | member
      · exact ⟨_, typed⟩
      · exact ih typedRest other member

/-- Which values the declared fields are given does not depend on an order. -/
theorem fieldsHaveTypes_iff {frames : Frames} {fields : List (String × Node)}
    {declared : List (String × Ty)} :
    FieldsHaveTypes frames fields declared ↔
      ∀ field ∈ declared, ∃ value found, fields.lookup field.1 = some value ∧
        value.HasType frames found ∧ field.2.equiv found := by
  induction declared with
  | nil =>
    constructor
    · simp
    · intro _
      exact .nil
  | cons field rest ih =>
    rw [List.forall_mem_cons, ← ih]
    constructor
    · intro typed
      cases typed with
      | cons given typed same typedRest => exact ⟨⟨_, _, given, typed, same⟩, typedRest⟩
    · intro ⟨⟨value, found, given, typed, same⟩, typedRest⟩
      exact .cons given typed same typedRest

/-! ## Bodies -/

/-- The body keeps the rules: no two of its parameters share a name, and its statements lead from
the frame it starts in to the one that its scope shows. -/
structure Body.WellFormed (body : Body) : Prop where
  apart : (Fields.names body.kind.frame.symbols).Nodup
  statements :
    BodyWellFormed body.inner body.statements (body.inner.extend (bodySymbols body.inner body.statements))

/-- All bodies keep the rules, wherever in these frames the part stands. -/
def Outline.Keeps (outline : Outline) (frames : Frames) : Prop :=
  ∀ place, place.frames = frames → ∀ body ∈ outline place, body.WellFormed

namespace Outline.Keeps

variable {frames : Frames} {first last : Outline}

theorem none : Outline.none.Keeps frames := by
  intro place here body member
  cases member

theorem andThen (keeps : first.Keeps frames) (next : last.Keeps frames) :
    (Outline.andThen first last).Keeps frames := by
  intro place here body member
  rcases List.mem_append.mp member with member | member
  · exact keeps place here body member
  · exact next (place.past (first place)) here body member

theorem sequence {outlines : List Outline} (parts : ∀ outline ∈ outlines, outline.Keeps frames) :
    (Outline.sequence outlines).Keeps frames := by
  induction outlines with
  | nil => exact .none
  | cons outline rest ih =>
    have others := ih fun other member => parts other (by simp [member])
    exact .andThen (parts outline (by simp)) others

/-- A body that opens here, and those inside of it. -/
theorem body {kind : BodyKind} {nodes : List Node} {inside : Outline} {after : Frames}
    (apart : (Fields.names kind.frame.symbols).Nodup)
    (formed : BodyWellFormed (kind.frame :: frames) nodes after)
    (keeps : inside.Keeps (kind.frame :: frames)) :
    (Outline.body kind nodes inside).Keeps frames := by
  intro place here body member
  subst here
  rcases List.mem_cons.mp member with rfl | member
  · exact ⟨apart, formed.after_eq ▸ formed⟩
  · exact keeps _ rfl body member

theorem inFunction (keeps : frames.inFunction → first.Keeps frames) :
    (Outline.inFunction first).Keeps frames := by
  intro place here body member
  subst here
  rw [Outline.inFunction] at member
  split at member
  · next within => exact keeps within place rfl body member
  · cases member

end Outline.Keeps

/-- The bodies inside of the node keep the rules, in each place in which the node does. -/
structure Node.Outlined (node : Node) : Prop where
  expression : ∀ {frames : Frames} {type : Ty}, node.HasType frames type → node.outline.Keeps frames
  statement : ∀ {frames after : Frames}, node.WellFormed frames after → node.outline.Keeps frames

namespace Node.Outlined

variable {node : Node}

theorem ofStatement (kind : ¬node.isExpression) (statement : ∀ {frames after : Frames},
    node.WellFormed frames after → node.outline.Keeps frames) : node.Outlined :=
  ⟨fun typed => absurd typed.isExpression kind, statement⟩

theorem ofExpression (kind : node.isExpression) (expression : ∀ {frames : Frames} {type : Ty},
    node.HasType frames type → node.outline.Keeps frames) : node.Outlined := by
  refine ⟨expression, ?_⟩
  intro frames after formed
  obtain ⟨type, typed, -⟩ := formed.hasType kind
  exact expression typed

end Node.Outlined

theorem body_outlined {nodes : List Node} (parts : ∀ n ∈ nodes, n.Outlined) {frames after : Frames}
    (formed : BodyWellFormed frames nodes after) : (bodyOutline nodes).Keeps frames := by
  induction nodes generalizing frames with
  | nil => exact .none
  | cons node rest ih =>
    cases formed with
    | cons first others =>
      rw [first.after_eq] at others
      have keeps := (parts node (by simp)).statement first
      have keepsRest := ih (fun n hn => parts n (by simp [hn])) others
      intro place here body member
      subst here
      rw [bodyOutline, List.mem_append] at member
      rcases member with member | member
      · exact keeps place rfl body member
      · exact keepsRest _ rfl body member

theorem block_outlined {nodes : List Node} (parts : ∀ n ∈ nodes, n.Outlined) {frames after : Frames}
    (formed : BodyWellFormed (⟨[], false⟩ :: frames) nodes after) :
    (Outline.body .block nodes (bodyOutline nodes)).Keeps frames :=
  .body .nil formed (body_outlined parts formed)

theorem literal_outlined {descriptor : Node} {payload : Option Payload} {parameters : List String}
    {nodes : List Node} (fieldParts : ∀ f ∈ Payload.entries payload, f.2.Outlined)
    (bodyParts : ∀ n ∈ nodes, n.Outlined) :
    (Node.literal descriptor payload parameters nodes).Outlined := by
  apply Node.Outlined.ofExpression rfl
  intro frames type typed
  cases typed with
  | scalar lowered fits =>
    cases payload with
    | none =>
      simp only [Node.outline, lowered]
      exact .none
    | some payload =>
      simp only [Node.outline, lowered]
      exact .none
  | function lowered count valid apart formed =>
    simp only [Node.outline, lowered]
    have names := List.map_fst_zip (Nat.le_of_eq count)
    refine .body ?_ formed (body_outlined bodyParts formed)
    rwa [BodyKind.frame, Fields.names, names]
  | object lowered known typed =>
    simp only [Node.outline, lowered, Payload.outlines, fieldOutlines_eq_map, Fields.lookup_map]
    apply Outline.Keeps.sequence
    intro outline chosen
    obtain ⟨field, declared, found⟩ := List.mem_filterMap.mp chosen
    obtain ⟨value, type, given, typed, -⟩ := fieldsHaveTypes_iff.mp typed field declared
    rw [given, Option.map_some, Option.some.injEq] at found
    subst found
    exact (fieldParts _ (Fields.mem_of_lookup given)).expression typed

/-- In what the rules accept, all bodies keep the rules. -/
theorem Node.outlined (node : Node) : node.Outlined := by
  induction node with
  | bind name value ih =>
    apply Node.Outlined.ofStatement (by simp [isExpression])
    intro frames after formed
    cases formed with
    | bind bindable typed fresh => exact ih.expression typed
    | expression typed => cases typed
  | assign target value _ ih =>
    apply Node.Outlined.ofStatement (by simp [isExpression])
    intro frames after formed
    cases formed with
    | assign nearest typed same => exact ih.expression typed
    | expression typed => cases typed
  | ret value ih =>
    apply Node.Outlined.ofStatement (by simp [isExpression])
    intro frames after formed
    cases value with
    | none => exact .none
    | some value =>
      apply Outline.Keeps.inFunction
      intro inside
      cases formed with
      | dropped outside =>
        obtain ⟨frame, around, function⟩ := Frames.inFunction_iff.mp inside
        exact absurd function (outside frame around)
      | ret _ _ typed => exact (ih value rfl).expression typed
      | expression typed => cases typed
  | branch condition nodes otherwise conditionIH bodyIH otherwiseIH =>
    apply Node.Outlined.ofStatement (by simp [isExpression])
    intro frames after formed
    cases formed with
    | branch typed formed =>
      exact .andThen (conditionIH.expression typed) (block_outlined bodyIH formed)
    | alternatives typed formed formedOther =>
      have inside := block_outlined bodyIH formed
      have outside := block_outlined (otherwiseIH _ rfl) formedOther
      exact .andThen (conditionIH.expression typed) (.andThen inside outside)
    | expression typed => cases typed
  | loop condition nodes conditionIH bodyIH =>
    apply Node.Outlined.ofStatement (by simp [isExpression])
    intro frames after formed
    cases formed with
    | loop typed formed =>
      exact .andThen (conditionIH.expression typed) (block_outlined bodyIH formed)
    | expression typed => cases typed
  | literal descriptor payload parameters nodes _ _ fieldsIH bodyIH =>
    exact literal_outlined fieldsIH bodyIH
  | binary op left right leftIH rightIH =>
    apply Node.Outlined.ofExpression rfl
    intro frames type typed
    cases typed with
    | binary first second same takes =>
      exact .andThen (leftIH.expression first) (rightIH.expression second)
  | unary op operand ih =>
    apply Node.Outlined.ofExpression rfl
    intro frames type typed
    cases typed with
    | unary typed takes => exact ih.expression typed
  | call callee arguments calleeIH argumentsIH =>
    apply Node.Outlined.ofExpression rfl
    intro frames type typed
    cases typed with
    | call typed typedArguments =>
      refine .andThen (calleeIH.expression typed) (.sequence ?_)
      intro outline chosen
      rw [outlines_eq_map] at chosen
      obtain ⟨argument, given, rfl⟩ := List.mem_map.mp chosen
      obtain ⟨type, typed⟩ := typedArguments.exists_type argument given
      exact (argumentsIH argument given).expression typed
  | _ => exact ⟨fun _ => .none, fun _ => .none⟩

namespace Program

variable {program : Program} {output : String} {state : EmitState}

/-- A program that goes through is well formed from the frame of the root on. -/
theorem wellFormed_of_emit (accepted : program.emit = .ok output state) :
    ∃ after, BodyWellFormed Frames.root program after := by
  obtain ⟨-, same⟩ := program.emit_refines
  rw [accepted] at same
  exact ⟨_, (body_checked fun n _ => n.checked).mp ⟨output, same.symm⟩⟩

theorem wellFormed_of_compile {artifact : Artifact} (compiled : program.compile = .ok artifact) :
    ∃ after, BodyWellFormed Frames.root program after ∧ artifact.bindings = after.symbols := by
  rw [compile_eq_compileLexically] at compiled
  obtain ⟨⟨output, after⟩, done, same⟩ := Except.bind_eq_ok.mp compiled
  rw [← Except.ok.inj same]
  exact ⟨after, (body_checked fun n _ => n.checked).mp ⟨output, done⟩, rfl⟩

theorem exists_compile {after : Frames} (formed : BodyWellFormed Frames.root program after) :
    ∃ output, program.compile = .ok ⟨output, after.symbols⟩ := by
  obtain ⟨output, done⟩ := (body_checked fun n _ => n.checked).mpr formed
  rw [compile_eq_compileLexically]
  exact ⟨output, Except.bind_eq_ok.mpr ⟨_, done, rfl⟩⟩

/-- In a program that goes through, every body keeps the rules. -/
theorem bodies_wellFormed (accepted : program.emit = .ok output state) :
    ∀ body ∈ program.bodies, body.WellFormed := by
  obtain ⟨after, formed⟩ := wellFormed_of_emit accepted
  intro body member
  rcases List.mem_cons.mp member with rfl | member
  · exact ⟨.nil, formed.after_eq ▸ formed⟩
  · exact body_outlined (fun n _ => n.outlined) formed _ rfl body member

end Program

end Arbor
