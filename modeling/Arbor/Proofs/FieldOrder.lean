import Arbor.Compile.Source
import Arbor.Proofs.DistinctNames
import Arbor.Proofs.MarkedOutput
import Arbor.Proofs.ReorderedTyping

/-!
# The order of fields

Whether a program compiles, which names it declares at its top and, up to structural equality, with
which types, does not depend on the order in which object literals give their fields and type
descriptors declare them. What is emitted does depend on the latter, since an object is built in the
order of its type, but not on the former.
-/

namespace Arbor

/-! ## Descriptors in one order -/

namespace Node.Reordered

variable {node node' : Node}

/-- Descriptors whose own order is kept describe the same type, or fail alike. -/
theorem lower_eq (reordered : node.Reordered false node') : node'.lower = node.lower := by
  induction node generalizing node' with
  | type tag name parameters returns fields parametersIH returnsIH fieldsIH =>
    cases reordered with
    | type inside result pairs perm order =>
      obtain rfl := order rfl
      have inner := lowerAll_congr (forall₂_refine inside fun n member _ => parametersIH n member)
      have entries := lowerFields_congr
        (Fields.entries_refine pairs fun f member _ => fieldsIH f member)
      cases name with
      | some name => rw [Node.lower, Node.lower]
      | none =>
        cases tag with
        | fn =>
          rw [Node.lower, Node.lower, inner]
          cases result with
          | none => rfl
          | some result =>
            have same := returnsIH _ rfl result
            simp only [same]
        | obj => rw [Node.lower, Node.lower, entries]
        | _ => rw [Node.lower, Node.lower]
  | _ =>
    cases reordered
    rfl

theorem derived_eq (reordered : node.Reordered false node') (frames : Frames) :
    node'.derived frames = node.derived frames := by
  induction node generalizing node' with
  | literal descriptor =>
    cases reordered with
    | literal described => rw [Node.derived, Node.derived, described.lower_eq]
  | new target =>
    cases reordered with
    | new inner => rw [Node.derived, Node.derived, inner.lower_eq]
  | binary op left right leftIH rightIH =>
    cases reordered with
    | binary first second => rw [Node.derived, Node.derived, leftIH first]
  | unary op operand ih =>
    cases reordered with
    | unary inner => rw [Node.derived, Node.derived, ih inner]
  | call callee arguments calleeIH _ =>
    cases reordered with
    | call called given => rw [Node.derived, Node.derived, calleeIH called]
  | _ =>
    cases reordered
    rfl

theorem symbols_eq (reordered : node.Reordered false node') (frames : Frames) :
    node'.symbols frames = node.symbols frames := by
  cases reordered with
  | bind inner => rw [Node.symbols, Node.symbols, inner.derived_eq]
  | _ => rfl

theorem isReturn_eq (reordered : node.Reordered false node') : node'.isReturn = node.isReturn := by
  cases reordered <;> rfl

end Node.Reordered

/-! ## The text -/

/-- The nodes are written alike, whatever frames they stand in. -/
def Node.SameText (node node' : Node) : Prop :=
  ∀ frames, node'.markup frames = node.markup frames

section Parts

variable {frames : Frames}

theorem bodyMarkup_eq {nodes nodes' : List Node}
    (reordered : List.Forall₂ (Node.Reordered false) nodes nodes')
    (parts : ∀ n ∈ nodes, ∀ n', n.Reordered false n' → n.SameText n') :
    bodyMarkup frames nodes' = bodyMarkup frames nodes := by
  induction reordered generalizing frames with
  | nil => rfl
  | cons first rest ih =>
    rw [bodyMarkup, bodyMarkup, first.isReturn_eq, first.symbols_eq, parts _ (by simp) _ first]
    rw [ih fun n member => parts n (by simp [member])]

theorem markups_eq {nodes nodes' : List Node} (parts : List.Forall₂ Node.SameText nodes nodes') :
    markups frames nodes' = markups frames nodes := by
  induction parts with
  | nil => rfl
  | cons first rest ih => rw [markups, markups, first frames, ih]

/-- An object is written in the order of its type, whatever the order of the fields. -/
theorem entries_eq {fields fields' : List (String × Node)}
    (parts : Fields.Match Node.SameText fields fields') (declared : List (String × Ty)) :
    Markup.entries (fieldMarkups frames fields') declared =
      Markup.entries (fieldMarkups frames fields) declared := by
  have values : Fields.Match (fun n n' => n'.markup frames = n.markup frames) fields fields' :=
    ⟨parts.mem_names, fun found found' => parts.values found found' frames⟩
  induction declared with
  | nil => rfl
  | cons field rest ih =>
    obtain ⟨name, type⟩ := field
    have same := values.lookup_map_eq name
    rw [← Fields.lookup_map, ← Fields.lookup_map, ← fieldMarkups_eq_map,
      ← fieldMarkups_eq_map] at same
    rw [Markup.entries, Markup.entries, same, ih]

end Parts

/-- The parts of the payloads are written alike. -/
inductive Payload.SameText : Payload → Payload → Prop where
  | bool (value : Bool) : SameText (.bool value) (.bool value)
  | int (value : Int64) : SameText (.int value) (.int value)
  | float (value : Binary64) : SameText (.float value) (.float value)
  | str (text : String) : SameText (.str text) (.str text)
  | node {node node' : Node} : node'.lower = node.lower → SameText (.node node) (.node node')
  | fields {fields fields' : List (String × Node)} : Fields.Match Node.SameText fields fields' →
      SameText (.fields fields) (.fields fields')

theorem scalar_eq {payload payload' : Payload} (same : payload.SameText payload') (type : Ty) :
    Payload.scalar type (some payload') = Payload.scalar type (some payload) := by
  cases same with
  | node same => rw [Payload.scalar, Payload.scalar, same]
  | _ => rfl

theorem payload_entries_eq {payload payload' : Payload} (same : payload.SameText payload')
    (frames : Frames) (declared : List (String × Ty)) :
    Markup.entries (payload'.markups frames) declared =
      Markup.entries (payload.markups frames) declared := by
  cases same with
  | fields parts => exact entries_eq parts declared
  | _ => rfl

theorem literal_sameText {descriptor descriptor' : Node} {payload payload' : Option Payload}
    {parameters : List String} {body body' : List Node}
    (described : descriptor'.lower = descriptor.lower)
    (filled : Option.Rel Payload.SameText payload payload')
    (inside : ∀ frames, bodyMarkup frames body' = bodyMarkup frames body) :
    (Node.literal descriptor payload parameters body).SameText
      (.literal descriptor' payload' parameters body') := by
  intro frames
  cases filled with
  | none => simp only [Node.markup, described, inside]
  | some same => simp only [Node.markup, described, scalar_eq same, payload_entries_eq same]

/-- Where only the fields of object literals are in another order, the text is the same. -/
theorem Node.Reordered.sameText {node node' : Node} (reordered : node.Reordered false node')
    (distinct : node.Distinct) : node.SameText node' := by
  induction node generalizing node' with
  | bind name value ih =>
    cases reordered with
    | bind inner =>
      cases distinct with
      | bind apart =>
        intro frames
        rw [Node.markup, Node.markup, ih inner apart]
  | assign target value _ ih =>
    cases reordered with
    | assign first second =>
      cases distinct with
      | assign _ apart =>
        intro frames
        cases first with
        | ident name => rw [Node.markup, Node.markup, ih second apart]
        | _ => rfl
  | ret value ih =>
    cases reordered with
    | ret inner =>
      cases distinct with
      | ret apart =>
        intro frames
        cases inner with
        | none => rfl
        | some inner => rw [Node.markup, Node.markup, ih _ rfl inner (apart _ rfl)]
  | branch condition body otherwise conditionIH bodyIH otherwiseIH =>
    cases reordered with
    | branch tested inside other =>
      cases distinct with
      | branch apart apartBody apartOther =>
        intro frames
        have test := conditionIH tested apart frames
        have same := @bodyMarkup_eq (BodyKind.block.frame :: frames) _ _ inside
          fun n member _ here => bodyIH n member here (apartBody n member)
        cases other with
        | none => rw [Node.markup, Node.markup, test, same]
        | some other =>
          rw [Node.markup, Node.markup, test, same]
          rw [bodyMarkup_eq other fun n member _ here =>
            otherwiseIH _ rfl n member here (apartOther _ rfl n member)]
  | loop condition body conditionIH bodyIH =>
    cases reordered with
    | loop tested inside =>
      cases distinct with
      | loop apart apartBody =>
        intro frames
        rw [Node.markup, Node.markup, conditionIH tested apart]
        rw [bodyMarkup_eq inside fun n member _ here => bodyIH n member here (apartBody n member)]
  | literal descriptor payload parameters body _ nodeIH fieldsIH bodyIH =>
    cases reordered with
    | literal described filled inside =>
      cases distinct with
      | literal apart apartNode apartNames apartFields apartBody =>
        refine literal_sameText described.lower_eq ?_ fun frames => bodyMarkup_eq inside
          fun n member _ here => bodyIH n member here (apartBody n member)
        cases filled with
        | none => exact .none
        | some filled =>
          apply Option.Rel.some
          cases filled with
          | bool b => exact .bool b
          | int n => exact .int n
          | float x => exact .float x
          | str text => exact .str text
          | node inner => exact .node inner.lower_eq
          | fields pairs perm =>
            have values : List.Forall₂ (Fields.Entry Node.SameText) _ _ := Fields.entries_refine pairs
              fun f member _ here => fieldsIH f member here (apartFields f member)
            exact .fields (Fields.match_of_reordered apartNames values perm)
  | new target _ =>
    intro frames
    have derived := reordered.derived_eq frames
    cases reordered with
    | new inner => rw [Node.markup, Node.markup, Node.typeMarkup, Node.typeMarkup, derived]
  | binary op left right leftIH rightIH =>
    intro frames
    have derived := reordered.derived_eq frames
    cases reordered with
    | binary first second =>
      cases distinct with
      | binary apart apart' =>
        rw [Node.markup, Node.markup, leftIH first apart, rightIH second apart', first.derived_eq,
          Node.typeMarkup, Node.typeMarkup, derived]
  | unary op operand ih =>
    cases reordered with
    | unary inner =>
      cases distinct with
      | unary apart =>
        intro frames
        rw [Node.markup, Node.markup, ih inner apart, Node.typeMarkup, Node.typeMarkup,
          inner.derived_eq]
  | call callee arguments calleeIH argumentsIH =>
    cases reordered with
    | call called given =>
      cases distinct with
      | call apart apartGiven =>
        intro frames
        have parts : List.Forall₂ Node.SameText _ _ := forall₂_refine given
          fun n member _ here => argumentsIH n member here (apartGiven n member)
        rw [Node.markup, Node.markup, calleeIH called apart, markups_eq parts]
  | _ =>
    intro frames
    cases reordered
    rfl

/-! ## Programs -/

namespace Program

variable {types : Bool} {program other : Program}

namespace Reordered

/-- If the one compiles, so does the other, with bindings that are alike one by one. -/
theorem compile (reordered : program.Reordered types other) (distinct : program.Distinct)
    {artifact : Artifact} (compiled : program.compile = .ok artifact) :
    ∃ artifact', other.compile = .ok artifact' ∧
      List.Forall₂ (Fields.Entry Ty.Alike) artifact.bindings artifact'.bindings := by
  obtain ⟨after, formed, bindings⟩ := wellFormed_of_compile compiled
  have parts : List.Forall₂ Node.Follows program other := forall₂_refine reordered
    fun n member _ here => here.follows (distinct n member)
  have root : Frames.root.Alike Frames.root := .cons ⟨.nil, rfl⟩ .nil
  obtain ⟨after', formed', alike⟩ := body_follows parts root formed
  obtain ⟨output, compiled'⟩ := exists_compile formed'
  refine ⟨_, compiled', ?_⟩
  rw [bindings]
  exact alike.symbols

theorem output_eq (reordered : program.Reordered false other) (distinct : program.Distinct)
    {artifact artifact' : Artifact} (compiled : program.compile = .ok artifact)
    (compiled' : other.compile = .ok artifact') : artifact.output = artifact'.output := by
  have same : bodyMarkup Frames.root other = bodyMarkup Frames.root program :=
    bodyMarkup_eq reordered fun n member _ here => here.sameText (distinct n member)
  rw [← (body_shows_output compiled).render, ← (body_shows_output compiled').render, same]

theorem compiles_iff (reordered : program.Reordered types other) (distinct : program.Distinct) :
    (∃ artifact, program.compile = .ok artifact) ↔ ∃ artifact', other.compile = .ok artifact' := by
  constructor
  · intro ⟨artifact, compiled⟩
    obtain ⟨artifact', compiled', -⟩ := reordered.compile distinct compiled
    exact ⟨artifact', compiled'⟩
  · intro ⟨artifact', compiled'⟩
    obtain ⟨artifact, compiled, -⟩ := reordered.symm.compile (reordered.distinct distinct) compiled'
    exact ⟨artifact, compiled⟩

theorem artifacts_agree (reordered : program.Reordered types other) (distinct : program.Distinct)
    {artifact artifact' : Artifact} (compiled : program.compile = .ok artifact)
    (compiled' : other.compile = .ok artifact') :
    List.Forall₂ (Fields.Entry fun type type' => type.equiv type') artifact.bindings
      artifact'.bindings ∧ (types = false → artifact.output = artifact'.output) := by
  obtain ⟨again, compiled'', alike⟩ := reordered.compile distinct compiled
  rw [compiled', Except.ok.injEq] at compiled''
  subst compiled''
  refine ⟨Fields.entries_refine alike fun _ _ _ here => here.equiv, ?_⟩
  intro kept
  subst kept
  exact reordered.output_eq distinct compiled compiled'

end Reordered

/-- The order of fields decides neither whether a program compiles nor what it declares. Where it is
the order in object literals alone, it does not show in the output either. A program that was read
is distinct (`distinct_of_read`). -/
theorem field_order_irrelevant (distinct : program.Distinct)
    (reordered : program.Reordered types other) :
    ((∃ artifact, program.compile = .ok artifact) ↔ ∃ artifact', other.compile = .ok artifact') ∧
    ∀ {artifact artifact' : Artifact}, program.compile = .ok artifact →
      other.compile = .ok artifact' →
        List.Forall₂ (Fields.Entry fun type type' => type.equiv type') artifact.bindings
          artifact'.bindings ∧ (types = false → artifact.output = artifact'.output) := by
  refine ⟨reordered.compiles_iff distinct, ?_⟩
  intro artifact artifact' compiled compiled'
  exact reordered.artifacts_agree distinct compiled compiled'

/-- Of two sources whose programs differ in the order of fields both compile or neither does, and
what they are compiled to agrees. No more is asked of them, since no table of a program that was
read has a name twice. -/
theorem compileSource_reordered {source source' : String} (done : read source = .ok program)
    (done' : read source' = .ok other) (reordered : program.Reordered types other) :
    ((∃ artifact, compileSource source = .ok artifact) ↔
      ∃ artifact', compileSource source' = .ok artifact') ∧
    ∀ {artifact artifact' : Artifact}, compileSource source = .ok artifact →
      compileSource source' = .ok artifact' →
        List.Forall₂ (Fields.Entry fun type type' => type.equiv type') artifact.bindings
          artifact'.bindings ∧ (types = false → artifact.output = artifact'.output) := by
  have distinct := distinct_of_read done
  simp only [compileSource_of_read done, compileSource_of_read done', Except.mapError_eq_ok]
  exact ⟨reordered.compiles_iff distinct, reordered.artifacts_agree distinct⟩

/-- A function that takes an object, and a call of it with a literal, each with a table in an order
of its own: what the function declares, what the type of the literal declares, what the literal
gives. -/
def passing (expected declared given : List (String × Node)) : Program :=
  let int : Node := .type (.prim .int) none [] none []
  let object : Node := .literal (.type .obj none [] none declared) (some (.fields given)) [] []
  let takes : Node := .type .fn none [.type .obj none [] none expected] (some int) []
  [.bind "f" (.literal takes none ["o"] [.ret none]), .bind "r" (.call (.ident "f") [object])]

theorem passing_reordered {types : Bool}
    {expected declared declared' given given' : List (String × Node)}
    (perm : declared.Perm declared') (order : types = false → declared = declared')
    (permGiven : given.Perm given') :
    (passing expected declared given).Reordered types (passing expected declared' given') := by
  have same (fields : List (String × Node)) :
      List.Forall₂ (Fields.Entry (Node.Reordered types)) fields fields :=
    List.forall₂_same.mpr fun f _ => .mk (.refl f.2)
  have object : Node.Reordered types (.type .obj none [] none declared)
      (.type .obj none [] none declared') :=
    .type .nil .none (same declared) perm order
  have literal : Node.Reordered types
      (.literal (.type .obj none [] none declared) (some (.fields given)) [] [])
      (.literal (.type .obj none [] none declared') (some (.fields given')) [] []) :=
    .literal object (.some (.fields (same given) permGiven)) .nil
  exact .cons (.refl _) (.cons (.bind (.call (.refl _) (.cons literal .nil))) .nil)

/-- Two fields and their types. -/
def pairTypes : List (String × Node) :=
  [("x", .type (.prim .int) none [] none []), ("y", .type (.prim .str) none [] none [])]

/-- Their values. -/
def pairValues : List (String × Node) :=
  pairTypes.map fun field => (field.1, .new field.2)

theorem passing_distinct : (passing pairTypes pairTypes pairValues).Distinct := by
  have prim (p : Primitive) : (Node.type (.prim p) none [] none []).Distinct :=
    .type nofun nofun .nil nofun
  have types : ∀ f ∈ pairTypes, f.2.Distinct := by simp [pairTypes, prim]
  have object : (Node.type .obj none [] none pairTypes).Distinct :=
    .type nofun nofun (by decide) types
  have given : ∀ f ∈ pairValues, f.2.Distinct := by
    intro field member
    obtain ⟨origin, declared, rfl⟩ := List.mem_map.mp member
    exact .new (types origin declared)
  intro node member
  simp only [passing, List.mem_cons, List.not_mem_nil, or_false] at member
  rcases member with rfl | rfl
  · refine .bind (.literal (.type ?_ ?_ .nil nofun) nofun .nil nofun ?_)
    · simpa using object
    · simpa using prim .int
    · rw [List.forall_mem_singleton]
      exact .ret nofun
  · refine .bind (.call (.ident "f") ?_)
    rw [List.forall_mem_singleton]
    exact .literal object nofun (by decide) given nofun

/-- The function and the literal need not agree on an order, and the text keeps to that of the
literal's type. -/
theorem field_order_irrelevant_in_passing :
    (∃ artifact, (passing pairTypes pairTypes.reverse pairValues).compile = .ok artifact) ∧
    ∃ artifact artifact', (passing pairTypes pairTypes pairValues).compile = .ok artifact ∧
      (passing pairTypes pairTypes pairValues.reverse).compile = .ok artifact' ∧
        artifact.output = artifact'.output := by
  have types : (passing pairTypes pairTypes pairValues).Reordered true
      (passing pairTypes pairTypes.reverse pairValues) :=
    passing_reordered (List.reverse_perm _).symm nofun (.refl _)
  have fields : (passing pairTypes pairTypes pairValues).Reordered false
      (passing pairTypes pairTypes pairValues.reverse) :=
    passing_reordered (.refl _) (fun _ => rfl) (List.reverse_perm _).symm
  refine ⟨(field_order_irrelevant passing_distinct types).1.mp ⟨_, rfl⟩, _, _, rfl, rfl, ?_⟩
  exact ((field_order_irrelevant passing_distinct fields).2 rfl rfl).2 rfl

/-- The order in which a type declares its fields is that of the text. -/
example : ∃ artifact artifact', (passing pairTypes pairTypes pairValues).compile = .ok artifact ∧
    (passing pairTypes pairTypes.reverse pairValues).compile = .ok artifact' ∧
      artifact.output ≠ artifact'.output :=
  ⟨_, _, rfl, rfl, by decide +kernel⟩

end Program

end Arbor
