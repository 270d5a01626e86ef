import Arbor.Proofs.MarkedOutput

/-!
# The scopes of the marked text

The scopes marked in the text of a program are the scopes of its bodies: there are as many, they
open in the same order, and they declare the same names. So what holds of the scopes around a place
in the text holds of the scopes of the program around it.
-/

namespace Arbor

/-- The names that the scope of the body declares. -/
def Body.names (body : Body) : List String :=
  Fields.names body.scope.symbols

/-! ## What is collected from a text -/

namespace Markup

/-- What is collected from a text is what is collected from its parts, one behind the other, and
nothing is from the fixed text of the compiler. -/
structure Gathers {α : Type} (collect : Markup → List α) : Prop where
  empty : collect empty = []
  append (first last : Markup) : collect (first ++ last) = collect first ++ collect last
  own (text : String) (names : Host.NamesNone text) : collect (own text names) = []

namespace Gathers

variable {α : Type} {collect : Markup → List α}

theorem scopes : Gathers Markup.scopes :=
  ⟨rfl, fun _ _ => rfl, fun _ _ => rfl⟩

theorem binders : Gathers Markup.binders :=
  ⟨rfl, fun _ _ => rfl, fun _ _ => rfl⟩

theorem references : Gathers Markup.references :=
  ⟨rfl, fun _ _ => rfl, fun _ _ => rfl⟩

theorem separated (gathers : Gathers collect) {separator : String}
    {names : Host.NamesNone separator} (parts : List Markup) :
    collect (Markup.separated (Markup.own separator names) parts) = parts.flatMap collect := by
  induction parts with
  | nil => exact gathers.empty
  | cons part rest ih =>
    cases rest with
    | nil => simp [Markup.separated]
    | cons second others =>
      simp only [Markup.separated, gathers.append, gathers.own, ih, List.append_nil,
        List.flatMap_cons]

theorem sequence (gathers : Gathers collect) (parts : List Markup) :
    collect (Markup.sequence parts) = parts.flatMap collect := by
  induction parts with
  | nil => exact gathers.empty
  | cons part rest ih => rw [Markup.sequence, gathers.append, ih, List.flatMap_cons]

theorem dump (gathers : Gathers collect) (names : List String) :
    collect (Markup.dump names) = names.flatMap fun name => collect (logged name) := by
  rw [Markup.dump, gathers.sequence, List.flatMap_map]

/-- Where the statements that log a name have nothing to collect, all of them have not. -/
theorem dump_eq_nil (gathers : Gathers collect) (nothing : ∀ name, collect (logged name) = [])
    (names : List String) : collect (Markup.dump names) = [] := by
  rw [gathers.dump]
  exact List.flatMap_eq_nil_iff.mpr fun name _ => nothing name

end Gathers

/-! ## Scopes and binders by construct -/

variable {first last inside : Markup}

@[simp] theorem scopes_append : (first ++ last).scopes = first.scopes ++ last.scopes := rfl

@[simp] theorem binders_append : (first ++ last).binders = first.binders ++ last.binders := rfl

@[simp] theorem scopes_own {text : String} {names : Host.NamesNone text} :
    (own text names).scopes = [] := rfl

@[simp] theorem binders_own {text : String} {names : Host.NamesNone text} :
    (own text names).binders = [] := rfl

@[simp] theorem scopes_value {payload type : Markup} :
    (value payload type).scopes = payload.scopes ++ type.scopes := by
  simp [value, scopes]

@[simp] theorem scopes_block : (block inside).scopes = inside.binders :: inside.scopes := by
  rw [block, scopes]
  simp

@[simp] theorem scopes_entry {name : String} :
    (entry name first last).scopes = first.scopes ++ last.scopes := by
  simp [entry, scopes]

@[simp] theorem scopes_object : (object inside).scopes = inside.scopes := by
  simp [object]

@[simp] theorem scopes_objectType : (objectType inside).scopes = inside.scopes := by
  simp [objectType, scopes]

@[simp] theorem scopes_made : (made inside).scopes = inside.scopes := by
  simp [made]

@[simp] theorem scopes_computed {op : BinaryOp} :
    (computed op first last).scopes = first.scopes ++ last.scopes := by
  simp [computed]

@[simp] theorem scopes_applied {op : UnaryOp} : (applied op inside).scopes = inside.scopes := by
  simp [applied]

@[simp] theorem scopes_ret : (ret inside).scopes = inside.scopes := by
  simp [ret]

@[simp] theorem scopes_branch :
    (branch first last).scopes = first.scopes ++ (block last).scopes := by
  simp [branch]

@[simp] theorem scopes_alternatives :
    (alternatives first last inside).scopes =
      first.scopes ++ ((block last).scopes ++ (block inside).scopes) := by
  simp [alternatives]

@[simp] theorem scopes_loop : (loop first last).scopes = first.scopes ++ (block last).scopes := by
  simp [loop]

@[simp] theorem scopes_call {arguments : List Markup} :
    (call first arguments).scopes = first.scopes ++ arguments.flatMap scopes := by
  simp [call, Gathers.scopes.separated]

@[simp] theorem scopes_functionType {parameters : List Markup} :
    (functionType parameters last).scopes = parameters.flatMap scopes ++ last.scopes := by
  simp [functionType, Gathers.scopes.separated, scopes]

theorem scopes_function (parameters : List String) :
    (function parameters inside).scopes = (parameters ++ inside.binders) :: inside.scopes := by
  have named : (parameters.map binder).flatMap binders = parameters := by
    rw [List.flatMap_map]
    exact List.flatMap_singleton' parameters
  have closed : (parameters.map binder).flatMap scopes = [] := by
    rw [List.flatMap_map]
    exact List.flatMap_eq_nil_iff.mpr fun _ _ => rfl
  rw [function, scopes]
  simp [Gathers.binders.separated, Gathers.scopes.separated, named, closed]

theorem scopes_operation (op : BinaryOp) (type : Ty) :
    (operation op type first last).scopes = first.scopes ++ last.scopes := by
  rw [operation]
  split
  · simp [scopes]
  · exact scopes_computed

end Markup

/-! ## Types -/

theorem Ty.scopes_markup (type : Ty) : type.markup.scopes = [] := by
  induction type with
  | prim p => rfl
  | fn parameters returns parametersIH returnsIH =>
    have inside : (typeMarkups parameters).flatMap Markup.scopes = [] := by
      induction parameters with
      | nil => rfl
      | cons type rest ih =>
        have others := ih fun t ht => parametersIH t (by simp [ht])
        rw [typeMarkups, List.flatMap_cons, others, parametersIH type (by simp)]
        rfl
    rw [Ty.markup, Markup.scopes_functionType, inside, returnsIH]
    rfl
  | obj fields ih =>
    have inside : (typeEntries fields).scopes = [] := by
      induction fields with
      | nil => rfl
      | cons field rest more =>
        obtain ⟨name, type⟩ := field
        have others := more fun f hf => ih f (by simp [hf])
        have here : type.markup.scopes = [] := ih (name, type) (by simp)
        rw [typeEntries, Markup.scopes_entry, here, others]
        rfl
    rw [Ty.markup, Markup.scopes_objectType, inside]
  | list => rfl

theorem Node.scopes_typeMarkup (frames : Frames) (node : Node) :
    (node.typeMarkup frames).scopes = [] := by
  rw [Node.typeMarkup]
  cases node.derived frames with
  | none => rfl
  | some type => exact type.scopes_markup

theorem Payload.scopes_scalar (type : Ty) (payload : Option Payload) :
    (Payload.scalar type payload).scopes = [] := by
  cases payload with
  | none => rfl
  | some payload =>
    cases payload with
    | bool b => cases b <;> rfl
    | int n =>
      rw [Payload.scalar]
      split <;> rfl
    | node descriptor =>
      rw [Payload.scalar]
      cases descriptor.lower with
      | ok type => exact type.scopes_markup
      | error error => rfl
    | _ => rfl

/-! ## Outlines -/

/-- The bodies of the outline have scopes that declare these names, wherever in these frames they
are met. -/
def Outline.Declares (outline : Outline) (frames : Frames) (scopes : List (List String)) : Prop :=
  ∀ place, place.frames = frames → (outline place).map Body.names = scopes

namespace Outline.Declares

variable {frames : Frames} {first last : Outline} {scopes others : List (List String)}

theorem none : Outline.none.Declares frames [] := by
  intro place here
  rfl

theorem andThen (declares : first.Declares frames scopes) (next : last.Declares frames others) :
    (Outline.andThen first last).Declares frames (scopes ++ others) := by
  intro place here
  rw [Outline.andThen, List.map_append, declares place here, next (place.past (first place)) here]

/-- A body whose parameters have these names, and the bodies inside of it. -/
theorem body {kind : BodyKind} {nodes : List Node} {after : Frames} {parameters : List String}
    (named : Fields.names kind.frame.symbols = parameters)
    (formed : BodyWellFormed (kind.frame :: frames) nodes after)
    (declares : (bodyOutline nodes).Declares (kind.frame :: frames) scopes) :
    (Outline.body kind nodes (bodyOutline nodes)).Declares frames
      ((parameters ++ nodes.flatMap Node.declared) :: scopes) := by
  intro place here
  subst here
  have names := formed.names_symbols
  rw [Outline.body, List.map_cons, declares _ rfl, Body.names, Body.scope]
  unfold Fields.names at named names ⊢
  rw [List.map_append, named]
  unfold Body.inner
  rw [names]

theorem inFunction (declares : frames.inFunction → first.Declares frames scopes) :
    (Outline.inFunction first).Declares frames (if frames.inFunction then scopes else []) := by
  intro place here
  rw [Outline.inFunction, here]
  split
  · next inside => exact declares inside place here
  · rfl

end Outline.Declares

/-! ## Nodes -/

/-- The scopes in the marked text of the node are those of its bodies. -/
structure Node.Scoped (node : Node) : Prop where
  expression : ∀ {frames : Frames} {type : Ty}, node.HasType frames type →
    node.outline.Declares frames (node.markup frames).scopes
  statement : ∀ {frames after : Frames}, node.WellFormed frames after →
    node.outline.Declares frames (node.statementMarkup frames).scopes

namespace Node.Scoped

variable {node : Node}

theorem scopes_statementMarkup (other : node.isReturn = false) (frames : Frames) :
    (node.statementMarkup frames).scopes = (node.markup frames).scopes := by
  rw [Node.statementMarkup, other]
  exact List.append_nil _

theorem ofExpression (kind : node.isExpression) (expression : ∀ {frames : Frames} {type : Ty},
    node.HasType frames type → node.outline.Declares frames (node.markup frames).scopes) :
    node.Scoped := by
  have other : node.isReturn = false := by
    cases node <;> first | rfl | cases kind
  refine ⟨expression, ?_⟩
  intro frames after formed
  obtain ⟨type, typed, -⟩ := formed.hasType kind
  rw [scopes_statementMarkup other]
  exact expression typed

theorem ofStatement (kind : ¬node.isExpression) (other : node.isReturn = false)
    (statement : ∀ {frames after : Frames}, node.WellFormed frames after →
      node.outline.Declares frames (node.markup frames).scopes) : node.Scoped := by
  refine ⟨fun typed => absurd typed.isExpression kind, ?_⟩
  intro frames after formed
  rw [scopes_statementMarkup other]
  exact statement formed

end Node.Scoped

theorem BodyWellFormed.shows {nodes : List Node} {frames after : Frames}
    (formed : BodyWellFormed frames nodes after) :
    ∃ text, (bodyMarkup frames nodes).Shows text (nodes.flatMap Node.declared) := by
  obtain ⟨text, done⟩ := (body_checked fun n _ => n.checked).mpr formed
  exact ⟨text, body_shows (fun n _ => n.marked) done⟩

theorem bodyMarkup_binders {nodes : List Node} {frames after : Frames}
    (formed : BodyWellFormed frames nodes after) :
    (bodyMarkup frames nodes).binders = nodes.flatMap Node.declared := by
  obtain ⟨text, shown⟩ := formed.shows
  exact shown.binders

theorem body_scoped {nodes : List Node} (parts : ∀ n ∈ nodes, n.Scoped) {frames after : Frames}
    (formed : BodyWellFormed frames nodes after) :
    (bodyOutline nodes).Declares frames (bodyMarkup frames nodes).scopes := by
  induction nodes generalizing frames with
  | nil => exact .none
  | cons node rest ih =>
    cases formed with
    | cons first others =>
      rw [first.after_eq] at others
      have here := (parts node (by simp)).statement first
      have behind := ih (fun n hn => parts n (by simp [hn])) others
      intro place there
      subst there
      rw [bodyOutline, List.map_append, here place rfl, behind _ rfl, bodyMarkup]
      rfl

theorem block_scoped {nodes : List Node} (parts : ∀ n ∈ nodes, n.Scoped) {frames after : Frames}
    (formed : BodyWellFormed (BodyKind.block.frame :: frames) nodes after) :
    (Outline.body .block nodes (bodyOutline nodes)).Declares frames
      (Markup.block (bodyMarkup (BodyKind.block.frame :: frames) nodes)).scopes := by
  rw [Markup.scopes_block, bodyMarkup_binders formed, ← List.nil_append (nodes.flatMap _)]
  exact .body rfl formed (body_scoped parts formed)

theorem function_scoped {nodes : List Node} (parts : ∀ n ∈ nodes, n.Scoped)
    {frames after : Frames} {parameters : List String} {types : List Ty} {result : Ty}
    (count : parameters.length = types.length)
    (formed : BodyWellFormed (⟨parameters.zip types, true⟩ :: frames) nodes after) :
    (Outline.body (.function (parameters.zip types) result) nodes (bodyOutline nodes)).Declares
      frames (Markup.function parameters
        (bodyMarkup (⟨parameters.zip types, true⟩ :: frames) nodes)).scopes := by
  have named : Fields.names (parameters.zip types) = parameters :=
    List.map_fst_zip (Nat.le_of_eq count)
  rw [Markup.scopes_function, bodyMarkup_binders formed]
  exact .body named formed (body_scoped parts formed)

theorem arguments_scoped {frames : Frames} {arguments : List Node}
    (parts : ∀ n ∈ arguments, n.Scoped) (typed : ∀ n ∈ arguments, ∃ type, n.HasType frames type) :
    (Outline.sequence (outlines arguments)).Declares frames
      ((markups frames arguments).flatMap Markup.scopes) := by
  induction arguments with
  | nil => exact .none
  | cons argument rest ih =>
    obtain ⟨type, here⟩ := typed argument (by simp)
    have first := (parts argument (by simp)).expression here
    have others := ih (fun n hn => parts n (by simp [hn])) fun n hn => typed n (by simp [hn])
    rw [outlines, markups, List.flatMap_cons]
    exact first.andThen others

theorem entries_scoped {frames : Frames} {fields : List (String × Node)}
    (parts : ∀ f ∈ fields, f.2.Scoped) {declared : List (String × Ty)}
    (typed : FieldsHaveTypes frames fields declared) :
    (Outline.sequence
      (declared.filterMap fun field => (fieldOutlines fields).lookup field.1)).Declares frames
        (Markup.entries (fieldMarkups frames fields) declared).scopes := by
  induction declared with
  | nil => exact .none
  | cons field rest ih =>
    cases typed with
    | @cons _ _ name _ _ _ _ found typed same typedRest =>
      have first := (parts _ (Fields.mem_of_lookup found)).expression typed
      have others := ih typedRest
      have outlined := Fields.lookup_map (fun node : Node => node.outline) name fields
      have marked := Fields.lookup_map (fun node : Node => node.markup frames) name fields
      rw [fieldOutlines_eq_map] at others ⊢
      rw [fieldMarkups_eq_map] at others ⊢
      rw [List.filterMap_cons_some (by rw [outlined, found]; rfl), Markup.entries, marked, found]
      simpa [Outline.sequence] using first.andThen others

theorem literal_scoped {descriptor : Node} {payload : Option Payload} {parameters : List String}
    {nodes : List Node} (fieldParts : ∀ f ∈ Payload.entries payload, f.2.Scoped)
    (bodyParts : ∀ n ∈ nodes, n.Scoped) :
    (Node.literal descriptor payload parameters nodes).Scoped := by
  apply Node.Scoped.ofExpression rfl
  intro frames type typed
  cases typed with
  | scalar lowered fits =>
    cases payload with
    | none =>
      simp only [Node.outline, Node.markup, lowered, Markup.scopes_value, Payload.scopes_scalar,
        Ty.scopes_markup]
      exact .none
    | some payload =>
      simp only [Node.outline, Node.markup, lowered, Markup.scopes_value, Payload.scopes_scalar,
        Ty.scopes_markup]
      exact .none
  | function lowered count valid apart formed =>
    simp only [Node.outline, Node.markup, lowered, Markup.scopes_value, Ty.scopes_markup,
      List.append_nil]
    exact function_scoped bodyParts count formed
  | object lowered known typed =>
    simp only [Node.outline, Node.markup, lowered, Markup.scopes_value, Ty.scopes_markup,
      List.append_nil, Payload.outlines, Payload.markups, Markup.scopes_object]
    exact entries_scoped fieldParts typed

/-- The scopes in the marked text of every node are those of its bodies. -/
theorem Node.scoped (node : Node) : node.Scoped := by
  induction node with
  | bind name value ih =>
    apply Node.Scoped.ofStatement (by simp [isExpression]) rfl
    intro frames after formed
    cases formed with
    | bind bindable typed fresh => exact ih.expression typed
    | expression typed => cases typed
  | assign target value _ ih =>
    apply Node.Scoped.ofStatement (by simp [isExpression]) rfl
    intro frames after formed
    cases formed with
    | assign nearest typed same => exact ih.expression typed
    | expression typed => cases typed
  | ret value ih =>
    refine ⟨fun typed => absurd typed.isExpression (by simp [isExpression]), ?_⟩
    intro frames after formed
    cases value with
    | none =>
      rw [Node.statementMarkup]
      split <;> exact .none
    | some value =>
      have scopes : ((Node.ret (some value)).statementMarkup frames).scopes =
          if frames.inFunction then (value.markup frames).scopes else [] := by
        cases inside : frames.inFunction with
        | true => simp [Node.statementMarkup, Node.isReturn, inside, Node.markup, Markup.terminated]
        | false => simp [Node.statementMarkup, Node.isReturn, inside, Markup.scopes]
      rw [scopes]
      apply Outline.Declares.inFunction
      intro inside
      cases formed with
      | dropped outside =>
        obtain ⟨frame, around, function⟩ := Frames.inFunction_iff.mp inside
        exact absurd function (outside frame around)
      | ret _ _ typed => exact (ih value rfl).expression typed
      | expression typed => cases typed
  | branch condition nodes otherwise conditionIH bodyIH otherwiseIH =>
    apply Node.Scoped.ofStatement (by simp [isExpression]) rfl
    intro frames after formed
    cases formed with
    | branch typed formed =>
      have tested := conditionIH.expression typed
      simpa [Node.outline, Node.markup] using tested.andThen (block_scoped bodyIH formed)
    | alternatives typed formed formedOther =>
      have tested := conditionIH.expression typed
      have inside := block_scoped bodyIH formed
      have outside := block_scoped (otherwiseIH _ rfl) formedOther
      simpa [Node.outline, Node.markup] using tested.andThen (inside.andThen outside)
    | expression typed => cases typed
  | loop condition nodes conditionIH bodyIH =>
    apply Node.Scoped.ofStatement (by simp [isExpression]) rfl
    intro frames after formed
    cases formed with
    | loop typed formed =>
      have tested := conditionIH.expression typed
      simpa [Node.outline, Node.markup] using tested.andThen (block_scoped bodyIH formed)
    | expression typed => cases typed
  | literal descriptor payload parameters nodes _ _ fieldsIH bodyIH =>
    exact literal_scoped fieldsIH bodyIH
  | new target =>
    apply Node.Scoped.ofExpression rfl
    intro frames type typed
    rw [Node.markup, Markup.scopes_made, Node.scopes_typeMarkup]
    exact .none
  | binary op left right leftIH rightIH =>
    apply Node.Scoped.ofExpression rfl
    intro frames type typed
    cases typed with
    | binary first second same takes =>
      rw [Node.markup, Markup.scopes_value, Node.scopes_typeMarkup, List.append_nil,
        Markup.scopes_operation]
      exact (leftIH.expression first).andThen (rightIH.expression second)
  | unary op operand ih =>
    apply Node.Scoped.ofExpression rfl
    intro frames type typed
    cases typed with
    | unary typed takes =>
      have inside := ih.expression typed
      simpa [Node.outline, Node.markup, Node.scopes_typeMarkup] using inside
  | call callee arguments calleeIH argumentsIH =>
    apply Node.Scoped.ofExpression rfl
    intro frames type typed
    cases typed with
    | call typed typedArguments =>
      have given := arguments_scoped argumentsIH typedArguments.exists_type
      simpa [Node.outline, Node.markup] using (calleeIH.expression typed).andThen given
  | _ => exact ⟨fun _ => .none, fun _ => .none⟩

/-! ## Programs -/

namespace Program

variable {program : Program} {after : Frames}

/-- At its top, what is written for a program declares what the program declares there. -/
theorem binders_written (formed : BodyWellFormed Frames.root program after) (runtime : String) :
    (program.written runtime).binders = program.topNames := by
  rw [written, Markup.binders_append, Markup.binders_append,
    Markup.Gathers.binders.dump_eq_nil fun _ => rfl, bodyMarkup_binders formed, List.append_nil]
  rfl

/-- The scopes marked in all that is written for a program are those of its bodies. -/
theorem scopes_markup (formed : BodyWellFormed Frames.root program after) (runtime : String) :
    (program.markup runtime).scopes = program.bodies.map Body.names := by
  have inside := body_scoped (fun n _ => n.scoped) formed
  have names : Body.names ⟨.root, none, [], program⟩ = program.topNames := formed.names_symbols
  rw [markup, Markup.scopes, binders_written formed, bodies, List.map_cons, names]
  rw [inside _ rfl, written, Markup.scopes_append, Markup.scopes_append,
    Markup.Gathers.scopes.dump_eq_nil fun _ => rfl, List.append_nil]
  rfl

end Program

end Arbor
