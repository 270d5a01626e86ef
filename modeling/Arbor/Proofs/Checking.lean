import Arbor.Proofs.Constructible
import Arbor.Proofs.LexicalRun
import Arbor.Proofs.Refinement
import Arbor.Proofs.Typing

/-!
# The compiler checks exactly the typing rules

Compilation succeeds on the programs that the rules of `Typing` accept and on no others, and gives
every expression the type and every scope the names that the rules give. The compiler interleaves
its checks with emission, so each construct is compared with its rule in the plain environments
that compilation is known to be the same as; the induction is over nodes, and each case needs that
the compiler makes the checks the rule asks for and no further one.
-/

namespace Arbor

/-! ## Names and types -/

theorem Frames.type?_eq_some {frames : Frames} {name : String} {type : Ty} :
    frames.type? name = some type ↔ frames.Nearest name type := by
  induction frames with
  | nil =>
    constructor
    · intro none
      cases none
    · intro nearest
      cases nearest
  | cons frame outer ih =>
    unfold type? at ih ⊢
    rw [List.findSome?_cons]
    cases found : frame.symbols.lookup name with
    | some first =>
      constructor
      · rintro ⟨⟩
        exact .here found
      · intro nearest
        cases nearest with
        | here found' => exact found.symm.trans found'
        | outward absent _ => exact absurd (Fields.lookup_isSome.mp (by simp [found])) absent
    | none =>
      have absent : name ∉ Fields.names frame.symbols := by
        rw [← Fields.lookup_isSome, found]
        simp
      constructor
      · intro further
        exact .outward absent (ih.mp further)
      · intro nearest
        cases nearest with
        | here found' => simp [found] at found'
        | outward _ nearest => exact ih.mpr nearest

theorem Frames.declare_eq_ok {frames after : Frames} {name : String} {type : Ty} :
    frames.declare name type = .ok after ↔
      name ∉ Fields.names frames.symbols ∧ after = frames.extend [(name, type)] := by
  cases frames with
  | nil => simp [declare, symbols, Fields.names, extend, eq_comm]
  | cons frame outer =>
    have taken : (frame.symbols.any fun entry => entry.1 == name) ↔
        name ∈ Fields.names frame.symbols := by
      simp [Fields.names]
    rw [declare, symbols, ← taken]
    split
    · next again =>
      constructor
      · intro failed
        cases failed
      · rintro ⟨fresh, -⟩
        exact absurd again fresh
    · next fresh =>
      constructor
      · rintro ⟨⟩
        exact ⟨fresh, rfl⟩
      · rintro ⟨-, rfl⟩
        rfl

theorem Frames.inFunction_iff {frames : Frames} :
    frames.inFunction ↔ ∃ frame ∈ frames, frame.isFunction := by
  simp [inFunction]

namespace Ty

theorem bool_equiv {type : Ty} : Ty.bool.equiv type ↔ type = .bool := by
  cases type with
  | prim p => cases p <;> simp [equiv]
  | fn parameters returns => simp [equiv]
  | obj fields => simp [equiv]
  | list => simp [equiv]

theorem equiv_bool {type : Ty} : type.equiv .bool ↔ type = .bool := by
  cases type with
  | prim p => cases p <;> simp [equiv]
  | fn parameters returns => simp [equiv]
  | obj fields => simp [equiv]
  | list => simp [equiv]

theorem primitive?_eq_some {type : Ty} {p : Primitive} :
    type.primitive? = some p ↔ type = .prim p := by
  cases type <;> simp [primitive?]

theorem isNumeric_iff {type : Ty} :
    type.isNumeric ↔ ∃ p ∈ [Primitive.int, .float], type = .prim p := by
  cases type with
  | prim p => cases p <;> simp [isNumeric, primitive?, Primitive.isNumeric]
  | fn parameters returns => simp [isNumeric, primitive?]
  | obj fields => simp [isNumeric, primitive?]
  | list => simp [isNumeric, primitive?]

end Ty

/-- The table of operators is the one the compiler checks. -/
theorem BinaryOp.takes_iff {op : BinaryOp} {type result : Ty} :
    op.Takes type result ↔ Emit.accepts op type ∧ result = Emit.resultType op type := by
  constructor
  · intro takes
    cases takes with
    | arithmetic known numeric =>
      simp only [List.mem_cons, List.not_mem_nil, or_false] at known numeric
      rcases known with rfl | rfl | rfl | rfl | rfl <;> rcases numeric with rfl | rfl <;>
        exact ⟨rfl, rfl⟩
    | concatenation => exact ⟨rfl, rfl⟩
    | equality known =>
      simp only [List.mem_cons, List.not_mem_nil, or_false] at known
      rcases known with rfl | rfl <;> exact ⟨rfl, rfl⟩
    | comparison known numeric =>
      simp only [List.mem_cons, List.not_mem_nil, or_false] at known numeric
      rcases known with rfl | rfl | rfl | rfl <;> rcases numeric with rfl | rfl <;>
        exact ⟨rfl, rfl⟩
    | logic known =>
      simp only [List.mem_cons, List.not_mem_nil, or_false] at known
      rcases known with rfl | rfl <;> exact ⟨rfl, rfl⟩
  · rintro ⟨accepted, rfl⟩
    cases op with
    | add =>
      simp only [Emit.accepts, Bool.or_eq_true, Ty.isNumeric_iff, beq_iff_eq,
        Ty.primitive?_eq_some] at accepted
      rcases accepted with ⟨p, numeric, rfl⟩ | rfl
      · exact .arithmetic (by simp) numeric
      · exact .concatenation
    | sub | mul | div | rem =>
      obtain ⟨p, numeric, rfl⟩ := Ty.isNumeric_iff.mp accepted
      exact .arithmetic (by simp) numeric
    | eq | ne => exact .equality (by simp)
    | lt | le | gt | ge =>
      obtain ⟨p, numeric, rfl⟩ := Ty.isNumeric_iff.mp accepted
      exact .comparison (by simp) numeric
    | and | or =>
      simp only [Emit.accepts, beq_iff_eq, Ty.primitive?_eq_some] at accepted
      subst accepted
      exact .logic (by simp)

/-- The result of an operator is of a primitive type. -/
theorem BinaryOp.Takes.exists_constructor {op : BinaryOp} {type result : Ty}
    (takes : op.Takes type result) : ∃ text, result.constructor = .ok text := by
  cases takes <;> exact ⟨_, rfl⟩

theorem UnaryOp.takes_iff {op : UnaryOp} {type : Ty} :
    op.Takes type ↔ (match op with
      | .neg => type.isNumeric
      | .not => type.equiv .bool) = true := by
  cases op with
  | neg =>
    rw [Ty.isNumeric_iff]
    constructor
    · rintro ⟨numeric⟩
      exact ⟨_, numeric, rfl⟩
    · rintro ⟨p, numeric, rfl⟩
      exact .negation numeric
  | not =>
    rw [Ty.equiv_bool]
    constructor
    · rintro ⟨⟩
      rfl
    · rintro rfl
      exact .complement

theorem UnaryOp.Takes.exists_constructor {op : UnaryOp} {type : Ty} (takes : op.Takes type) :
    ∃ text, type.constructor = .ok text := by
  cases takes <;> exact ⟨_, rfl⟩

namespace Lexical

variable {frames after : Frames} {type : Ty}

/-- The expression is emitted with this type. -/
def Gives (emit : Expression) (frames : Frames) (type : Ty) : Prop :=
  ∃ text, emit frames = .ok ⟨text, type⟩

/-- The statements are emitted and lead to these frames. -/
def Leads {α : Type} (emit : Frames → Except CompileError (α × Frames)) (frames after : Frames) :
    Prop :=
  ∃ text, emit frames = .ok (text, after)

theorem gives_identifier {name : String} :
    Gives (identifier name) frames type ↔ frames.Nearest name type := by
  simp only [Gives, identifier_eq_ok, Frames.type?_eq_some, Emitted.mk.injEq]
  constructor
  · rintro ⟨_, _, nearest, rfl, rfl⟩
    exact nearest
  · intro nearest
    exact ⟨name, type, nearest, rfl, rfl⟩

theorem gives_newValue {target : Node} :
    Gives (fun _ => newValue target) frames type ↔ target.lower = .ok type := by
  simp only [Gives, newValue_eq_ok, Emitted.mk.injEq]
  constructor
  · rintro ⟨_, _, lowered, _, _, _, rfl⟩
    exact lowered
  · intro lowered
    obtain ⟨text, built⟩ := Node.exists_constructor_of_lower lowered
    exact ⟨_, type, lowered, text, built, rfl, rfl⟩

theorem gives_binary {op : BinaryOp} {left right : Expression} {result : Ty} :
    Gives (binary op left right) frames result ↔ ∃ type other, Gives left frames type ∧
      Gives right frames other ∧ type.equiv other ∧ op.Takes type result := by
  simp only [Gives, binary_eq_ok, Emitted.mk.injEq]
  constructor
  · rintro ⟨_, ⟨l, type⟩, first, ⟨r, other⟩, second, same, accepted, _, _, _, rfl⟩
    exact ⟨type, other, ⟨l, first⟩, ⟨r, second⟩, same, BinaryOp.takes_iff.mpr ⟨accepted, rfl⟩⟩
  · rintro ⟨type, other, ⟨l, first⟩, ⟨r, second⟩, same, takes⟩
    obtain ⟨text, built⟩ := takes.exists_constructor
    obtain ⟨accepted, rfl⟩ := BinaryOp.takes_iff.mp takes
    exact ⟨_, _, first, _, second, same, accepted, text, built, rfl, rfl⟩

theorem gives_unary {op : UnaryOp} {operand : Expression} :
    Gives (unary op operand) frames type ↔ Gives operand frames type ∧ op.Takes type := by
  simp only [Gives, unary_eq_ok, Emitted.mk.injEq]
  constructor
  · rintro ⟨_, ⟨o, _⟩, first, accepted, _, _, _, rfl⟩
    exact ⟨⟨o, first⟩, UnaryOp.takes_iff.mpr accepted⟩
  · rintro ⟨⟨o, first⟩, takes⟩
    obtain ⟨text, built⟩ := takes.exists_constructor
    exact ⟨_, _, first, UnaryOp.takes_iff.mp takes, text, built, rfl, rfl⟩

theorem gives_call {callee : Expression} {args : List Expression} :
    Gives (call callee args) frames type ↔ ∃ types, Gives callee frames (.fn types type) ∧
      types.length = args.length ∧ ∃ texts, arguments frames 1 args types = .ok texts := by
  simp only [Gives, call_eq_ok, Emitted.mk.injEq]
  constructor
  · rintro ⟨_, c, types, _, first, count, texts, second, _, rfl⟩
    exact ⟨types, ⟨c, first⟩, count, texts, second⟩
  · rintro ⟨types, ⟨c, first⟩, count, texts, second⟩
    exact ⟨_, c, types, type, first, count, texts, second, rfl, rfl⟩

end Lexical

/-- The compiler and the rules agree on a node, in each place. -/
structure Node.Checked (node : Node) : Prop where
  expression {frames : Frames} {type : Ty} :
    Lexical.Gives node.lexical.expression frames type ↔ node.HasType frames type
  statement {frames after : Frames} :
    Lexical.Leads node.lexical.statement frames after ↔ node.WellFormed frames after

/-! ## Parts in lists -/

section Parts

variable {frames : Frames}

theorem arguments_checked {nodes : List Node} (parts : ∀ n ∈ nodes, n.Checked) {types : List Ty}
    {position : Nat} :
    (types.length = nodes.length ∧ ∃ texts, Lexical.arguments frames position
      (nodes.map fun n => n.lexical.expression) types = .ok texts) ↔
        ArgumentsHaveTypes frames nodes types := by
  induction nodes generalizing types position with
  | nil =>
    constructor
    · rintro ⟨count, -⟩
      rw [List.eq_nil_of_length_eq_zero count]
      exact .nil
    · rintro ⟨⟩
      exact ⟨rfl, [], rfl⟩
  | cons node rest ih =>
    cases types with
    | nil =>
      constructor
      · rintro ⟨count, -⟩
        cases count
      · rintro ⟨⟩
    | cons expected others =>
      rw [List.map_cons]
      simp only [Lexical.arguments_cons_eq_ok]
      have checked := parts node (by simp)
      have ih := @ih (fun n hn => parts n (by simp [hn])) others (position + 1)
      constructor
      · rintro ⟨count, _, ⟨text, found⟩, first, same, more, second, -⟩
        exact .cons (checked.expression.mp ⟨text, first⟩) same
          (ih.mp ⟨Nat.succ.inj count, more, second⟩)
      · intro typed
        cases typed with
        | cons typed same typedRest =>
          obtain ⟨text, first⟩ := checked.expression.mpr typed
          obtain ⟨count, more, second⟩ := ih.mpr typedRest
          exact ⟨congrArg Nat.succ count, _, _, first, same, more, second, rfl⟩

theorem entries_checked {fields : List (String × Node)} (parts : ∀ f ∈ fields, f.2.Checked)
    {declared : List (String × Ty)} :
    (∃ text, Lexical.entries (fields.map fun f => (f.1, f.2.lexical.expression)) frames declared =
      .ok text) ↔ FieldsHaveTypes frames fields declared := by
  induction declared with
  | nil =>
    constructor
    · intro _
      exact .nil
    · intro _
      exact ⟨"", rfl⟩
  | cons field rest ih =>
    obtain ⟨name, expected⟩ := field
    simp only [Lexical.entries_cons_eq_ok]
    rw [Fields.lookup_map fun n : Node => n.lexical.expression]
    constructor
    · rintro ⟨_, emit, given, ⟨text, type⟩, first, same, others, second, -⟩
      obtain ⟨node, found, rfl⟩ := Option.map_eq_some_iff.mp given
      have checked := parts _ (Fields.mem_of_lookup found)
      exact .cons found (checked.expression.mp ⟨text, first⟩) same (ih.mp ⟨others, second⟩)
    · intro typed
      cases typed with
      | cons found typed same typedRest =>
        have checked := parts _ (Fields.mem_of_lookup found)
        obtain ⟨text, first⟩ := checked.expression.mpr typed
        obtain ⟨others, second⟩ := ih.mpr typedRest
        exact ⟨_, _, by rw [found]; rfl, _, first, same, others, second, rfl⟩

theorem body_checked {nodes : List Node} (parts : ∀ n ∈ nodes, n.Checked) {after : Frames} :
    Lexical.Leads (LexicalRendering.body (lexicals nodes)) frames after ↔
      BodyWellFormed frames nodes after := by
  rw [lexicals_eq_map, LexicalRendering.body, List.map_map]
  induction nodes generalizing frames with
  | nil =>
    constructor
    · rintro ⟨_, ⟨⟩⟩
      exact .nil
    · rintro ⟨⟩
      exact ⟨"", rfl⟩
  | cons node rest ih =>
    simp only [List.map_cons, Lexical.Leads, Lexical.statements_cons_eq_ok]
    have checked := parts node (by simp)
    have ih {middle : Frames} := @ih middle fun n hn => parts n (by simp [hn])
    constructor
    · rintro ⟨_, first, middle, done, others, more, -⟩
      exact .cons (checked.statement.mp ⟨first, done⟩) (ih.mp ⟨others, more⟩)
    · intro formed
      cases formed with
      | cons formed formedRest =>
        obtain ⟨first, done⟩ := checked.statement.mpr formed
        obtain ⟨others, more⟩ := ih.mpr formedRest
        exact ⟨_, first, _, done, others, more, rfl⟩

/-- Parameters are declared exactly when they are valid names, distinct from each other and from
what the frame declares before. -/
theorem declareParameters_eq_ok {parameters : List String} {types : List Ty}
    {symbols : List (String × Ty)} {inner : Frames} (count : parameters.length = types.length) :
    Lexical.declareParameters parameters types (⟨symbols, true⟩ :: frames) = .ok inner ↔
      (∀ name ∈ parameters, Host.isBindable name) ∧ parameters.Nodup ∧
        (∀ name ∈ parameters, name ∉ Fields.names symbols) ∧
          inner = ⟨symbols ++ parameters.zip types, true⟩ :: frames := by
  induction parameters generalizing types symbols with
  | nil =>
    rw [Lexical.declareParameters, List.zip_nil_left, List.append_nil]
    · constructor
      · rintro ⟨⟩
        exact ⟨by simp, .nil, by simp, rfl⟩
      · rintro ⟨-, -, -, rfl⟩
        rfl
    · simp
  | cons name names ih =>
    cases types with
    | nil => cases count
    | cons type types =>
      simp only [Lexical.declareParameters_cons_eq_ok, Frames.declare_eq_ok]
      have ih := @ih types (symbols ++ [(name, type)]) (Nat.succ.inj count)
      have fresh (other : String) : other ∉ Fields.names (symbols ++ [(name, type)]) ↔
          other ∉ Fields.names symbols ∧ other ≠ name := by
        simp [Fields.names]
      constructor
      · rintro ⟨bindable, _, ⟨absent, rfl⟩, rest⟩
        obtain ⟨others, apart, new, rfl⟩ := ih.mp rest
        simp only [fresh] at new
        refine ⟨by simpa using ⟨bindable, others⟩, ?_, ?_, by simp⟩
        · exact List.nodup_cons.mpr ⟨fun member => (new name member).2 rfl, apart⟩
        · simpa using ⟨absent, fun other member => (new other member).1⟩
      · rintro ⟨valid, apart, new, rfl⟩
        obtain ⟨missing, apart⟩ := List.nodup_cons.mp apart
        refine ⟨valid name (by simp), _, ⟨new name (by simp), rfl⟩, ih.mpr ⟨?_, apart, ?_, by simp⟩⟩
        · exact fun other member => valid other (by simp [member])
        · intro other member
          rw [fresh]
          exact ⟨new other (by simp [member]), fun same => missing (same ▸ member)⟩

end Parts

/-! ## Literals -/

namespace Lexical

variable {frames : Frames} {type : Ty} {parameters : List String} {body : Body}
  {fields : List (String × Expression)}

/-- The table of payloads that fit a primitive type is the one the compiler checks. -/
theorem payload_prim {p : Primitive} {value : Option Payload} :
    (∃ text, payload (.prim p) type value parameters body fields frames = .ok text) ↔
      Payload.Fits p value := by
  constructor
  · rintro ⟨text, done⟩
    unfold payload at done
    split at done
    · next tag => cases tag; exact .int _
    · next tag => cases tag; exact .float _
    · next tag => cases tag; exact .wholeFloat _
    · next tag => cases tag; exact .bool _
    · next tag => cases tag; exact .str _
    · next tag => cases tag; exact .null
    · next tag =>
      cases tag
      obtain ⟨described, lowered, -⟩ := Except.bind_eq_ok.mp done
      exact .type lowered
    · next tag => cases tag
    · next tag => cases tag
    · cases done
    · cases done
  · intro fits
    cases fits with
    | type lowered =>
      obtain ⟨text, built⟩ := Node.exists_constructor_of_lower lowered
      exact ⟨text, Except.bind_eq_ok.mpr ⟨_, lowered, built⟩⟩
    | _ => exact ⟨_, rfl⟩

theorem payload_fn {types : List Ty} {returns : Ty} {value : Option Payload} {text : String} :
    payload .fn (.fn types returns) value parameters body fields frames = .ok text ↔
      value = none ∧ function parameters types body frames = .ok text := by
  cases value with
  | none =>
    rw [payload]
    simp
  | some value =>
    constructor
    · intro failed
      cases failed
    · rintro ⟨⟨⟩, _⟩

theorem payload_obj {declared : List (String × Ty)} {value : Option Payload} {text : String} :
    payload .obj (.obj declared) value parameters body fields frames = .ok text ↔
      (∃ given, value = some (.fields given)) ∧ object fields declared frames = .ok text := by
  cases value with
  | none =>
    constructor
    · intro failed
      cases failed
    · rintro ⟨⟨_, ⟨⟩⟩, _⟩
  | some value =>
    cases value with
    | fields given =>
      rw [payload]
      simp
    | _ =>
      constructor
      · intro failed
        cases failed
      · rintro ⟨⟨_, ⟨⟩⟩, _⟩

theorem gives_literal {descriptor : Node} {value : Option Payload} :
    Gives (literal descriptor value parameters body fields) frames type ↔
      descriptor.lower = .ok type ∧ ∃ text,
        payload type.descriptorTag type value parameters body fields frames = .ok text := by
  simp only [Gives, literal_eq_ok, Emitted.mk.injEq]
  constructor
  · rintro ⟨_, tag, tagged, _, lowered, text, done, _, _, _, rfl⟩
    rw [Node.descriptorTag_of_lower lowered] at tagged
    cases tagged
    exact ⟨lowered, text, done⟩
  · rintro ⟨lowered, text, done⟩
    obtain ⟨constructor, built⟩ := Node.exists_constructor_of_lower lowered
    exact ⟨_, _, Node.descriptorTag_of_lower lowered, type, lowered, text, done, constructor,
      built, rfl, rfl⟩

end Lexical

/-- A function literal has the type it declares when its parameters are valid names and its body is
well formed in a frame of its own that holds them. -/
theorem function_checked {frames : Frames} {parameters : List String} {types : List Ty}
    {body : List Node} (parts : ∀ n ∈ body, n.Checked) :
    (∃ text, Lexical.function parameters types (LexicalRendering.body (lexicals body)) frames =
      .ok text) ↔
        parameters.length = types.length ∧ (∀ name ∈ parameters, Host.isBindable name) ∧
          parameters.Nodup ∧
            ∃ after, BodyWellFormed (⟨parameters.zip types, true⟩ :: frames) body after := by
  simp only [Lexical.function_eq_ok]
  constructor
  · rintro ⟨_, count, inner, declared, text, after, done, -⟩
    obtain ⟨valid, apart, -, rfl⟩ := (declareParameters_eq_ok count).mp declared
    exact ⟨count, valid, apart, after, (body_checked parts).mp ⟨text, done⟩⟩
  · rintro ⟨count, valid, apart, after, formed⟩
    obtain ⟨text, done⟩ := (body_checked parts).mpr formed
    have declared := (@declareParameters_eq_ok frames parameters types [] _ count).mpr
      ⟨valid, apart, by simp [Fields.names], rfl⟩
    exact ⟨_, count, _, declared, text, after, done, rfl⟩

theorem object_checked {frames : Frames} {fields : List (String × Node)}
    (parts : ∀ f ∈ fields, f.2.Checked) {declared : List (String × Ty)} :
    (∃ text, Lexical.object (fields.map fun f => (f.1, f.2.lexical.expression)) declared frames =
      .ok text) ↔
        (∀ name ∈ Fields.names fields, name ∈ Fields.names declared) ∧
          FieldsHaveTypes frames fields declared := by
  simp only [Lexical.object_eq_ok, Fields.names, List.map_map, Function.comp_def]
  rw [← entries_checked parts]
  constructor
  · rintro ⟨_, known, text, done, -⟩
    exact ⟨known, text, done⟩
  · rintro ⟨known, text, done⟩
    exact ⟨_, known, text, done, rfl⟩

theorem literal_checked {frames : Frames} {descriptor : Node} {payload : Option Payload}
    {parameters : List String} {body : List Node} {type : Ty}
    (fieldParts : ∀ f ∈ Payload.entries payload, f.2.Checked)
    (bodyParts : ∀ n ∈ body, n.Checked) :
    Lexical.Gives (Node.literal descriptor payload parameters body).lexical.expression frames type ↔
      (Node.literal descriptor payload parameters body).HasType frames type := by
  rw [Node.lexical_literal, LexicalRendering.ofExpression, Lexical.gives_literal]
  constructor
  · rintro ⟨lowered, done⟩
    cases type with
    | prim p => exact .scalar lowered (Lexical.payload_prim.mp done)
    | fn types returns =>
      obtain ⟨text, done⟩ := done
      obtain ⟨rfl, done⟩ := Lexical.payload_fn.mp done
      obtain ⟨count, valid, apart, after, formed⟩ := (function_checked bodyParts).mp ⟨text, done⟩
      exact .function lowered count valid apart formed
    | obj declared =>
      obtain ⟨text, done⟩ := done
      obtain ⟨⟨given, rfl⟩, done⟩ := Lexical.payload_obj.mp done
      obtain ⟨known, typed⟩ := (object_checked fieldParts).mp ⟨text, done⟩
      exact .object lowered known typed
    | list => cases Node.lower_listFree descriptor lowered
  · intro typed
    cases typed with
    | scalar lowered fits => exact ⟨lowered, Lexical.payload_prim.mpr fits⟩
    | function lowered count valid apart formed =>
      obtain ⟨text, done⟩ := (function_checked bodyParts).mpr ⟨count, valid, apart, _, formed⟩
      exact ⟨lowered, text, Lexical.payload_fn.mpr ⟨rfl, done⟩⟩
    | object lowered known typed =>
      obtain ⟨text, done⟩ := (object_checked fieldParts).mpr ⟨known, typed⟩
      exact ⟨lowered, text, Lexical.payload_obj.mpr ⟨⟨_, rfl⟩, done⟩⟩

/-! ## Nodes -/

/-- The node is of a kind that can have a type. -/
def Node.isExpression : Node → Bool
  | .ident _ => true
  | .literal .. => true
  | .new _ => true
  | .binary .. => true
  | .unary .. => true
  | .call .. => true
  | _ => false

theorem Node.HasType.isExpression {node : Node} {frames : Frames} {type : Ty}
    (typed : node.HasType frames type) : node.isExpression := by
  cases typed <;> rfl

/-- An expression is well formed as a statement when it has a type, and it declares nothing. -/
theorem Node.WellFormed.hasType {node : Node} {frames after : Frames} (kind : node.isExpression)
    (formed : node.WellFormed frames after) :
    ∃ type, node.HasType frames type ∧ after = frames := by
  cases formed with
  | expression typed => exact ⟨_, typed, rfl⟩
  | _ => cases kind

namespace Node.Checked

variable {node : Node}

theorem ofExpression {emit : Lexical.Expression} (rendered : node.lexical = .ofExpression emit)
    (kind : node.isExpression)
    (expression : ∀ {frames type}, Lexical.Gives emit frames type ↔ node.HasType frames type) :
    node.Checked := by
  refine ⟨by rw [rendered]; exact expression, ?_⟩
  intro frames after
  rw [rendered]
  constructor
  · rintro ⟨_, done⟩
    obtain ⟨⟨text, type⟩, first, ⟨⟩⟩ := Except.bind_eq_ok.mp done
    exact .expression (expression.mp ⟨text, first⟩)
  · intro formed
    obtain ⟨type, typed, rfl⟩ := formed.hasType kind
    obtain ⟨text, first⟩ := expression.mpr typed
    exact ⟨some text, Except.bind_eq_ok.mpr ⟨_, first, rfl⟩⟩

theorem ofStatement {kind : String} {emit : Lexical.Statement}
    (rendered : node.lexical = .ofStatement kind emit) (untyped : ¬node.isExpression)
    (statement : ∀ {frames after}, Lexical.Leads emit frames after ↔ node.WellFormed frames after) :
    node.Checked := by
  constructor
  · intro frames type
    rw [rendered]
    constructor
    · rintro ⟨_, ⟨⟩⟩
    · intro typed
      exact absurd typed.isExpression untyped
  · intro frames after
    rw [rendered, ← statement]
    constructor
    · rintro ⟨_, done⟩
      obtain ⟨⟨text, _⟩, first, ⟨⟩⟩ := Except.bind_eq_ok.mp done
      exact ⟨text, first⟩
    · rintro ⟨text, first⟩
      exact ⟨some text, Except.bind_eq_ok.mpr ⟨_, first, rfl⟩⟩

/-- A node of a kind that means nothing anywhere. -/
theorem unhandled {kind : String} (rendered : node.lexical = .unhandled kind)
    (untyped : ¬node.isExpression) (malformed : ∀ {frames after}, ¬node.WellFormed frames after) : node.Checked := by
  constructor
  · intro frames type
    rw [rendered]
    constructor
    · rintro ⟨_, ⟨⟩⟩
    · intro typed
      exact absurd typed.isExpression untyped
  · intro frames after
    rw [rendered]
    constructor
    · rintro ⟨_, ⟨⟩⟩
    · intro formed
      exact absurd formed malformed

end Node.Checked

section Statements

variable {frames after : Frames}

theorem leads_keepFrames {emit : Frames → Except CompileError String} :
    Lexical.Leads (Lexical.keepFrames emit) frames after ↔
      (∃ text, emit frames = .ok text) ∧ frames = after := by
  simp only [Lexical.Leads, Lexical.keepFrames_eq_ok]
  constructor
  · rintro ⟨text, done, same⟩
    exact ⟨⟨text, done⟩, same⟩
  · rintro ⟨⟨text, done⟩, same⟩
    exact ⟨text, done, same⟩

theorem bind_checked {name : String} {value : Node} (checked : value.Checked) :
    Lexical.Leads (Lexical.bind name value.lexical.expression) frames after ↔
      (Node.bind name value).WellFormed frames after := by
  simp only [Lexical.Leads, Lexical.bind_eq_ok, Frames.declare_eq_ok]
  constructor
  · rintro ⟨_, bindable, ⟨text, type⟩, first, ⟨fresh, rfl⟩, -⟩
    exact .bind bindable (checked.expression.mp ⟨text, first⟩) fresh
  · intro formed
    cases formed with
    | bind bindable typed fresh =>
      obtain ⟨text, first⟩ := checked.expression.mpr typed
      exact ⟨_, bindable, _, first, ⟨fresh, rfl⟩, rfl⟩
    | expression typed => cases typed

theorem assign_checked {target value : Node} (checked : value.Checked) :
    Lexical.Leads (Lexical.keepFrames (Lexical.assign target value.lexical.expression)) frames after ↔
      (Node.assign target value).WellFormed frames after := by
  simp only [leads_keepFrames, Lexical.assign_eq_ok, Frames.type?_eq_some]
  constructor
  · rintro ⟨⟨_, name, rfl, declared, nearest, ⟨text, found⟩, first, same, -⟩, rfl⟩
    exact .assign nearest (checked.expression.mp ⟨text, first⟩) same
  · intro formed
    cases formed with
    | assign nearest typed same =>
      obtain ⟨text, first⟩ := checked.expression.mpr typed
      exact ⟨⟨_, _, rfl, _, nearest, _, first, same, rfl⟩, rfl⟩
    | expression typed => cases typed

theorem ret_checked {value : Option Node} (parts : ∀ v ∈ value, v.Checked) :
    Lexical.Leads (Node.ret value).lexical.statement frames after ↔
      (Node.ret value).WellFormed frames after := by
  rw [Node.lexical_ret]
  simp only [Lexical.Leads, LexicalRendering.ofReturn, Except.bind_eq_ok, Lexical.ret_eq_ok,
    Frames.inFunction_iff]
  constructor
  · rintro ⟨_, _, ⟨outside, -⟩ | ⟨⟨frame, member, inside⟩, left⟩, ⟨⟩⟩
    · exact .dropped fun frame member inside => outside ⟨frame, member, inside⟩
    · cases value with
      | none => exact .leave member inside
      | some value =>
        obtain ⟨⟨text, type⟩, first, -⟩ := left
        exact .ret member inside ((parts value rfl).expression.mp ⟨text, first⟩)
  · intro formed
    cases formed with
    | dropped outside =>
      refine ⟨none, none, .inl ⟨?_, rfl⟩, rfl⟩
      rintro ⟨frame, member, inside⟩
      exact outside frame member inside
    | leave member inside => exact ⟨_, _, .inr ⟨⟨_, member, inside⟩, rfl⟩, rfl⟩
    | ret member inside typed =>
      obtain ⟨text, first⟩ := (parts _ rfl).expression.mpr typed
      exact ⟨_, _, .inr ⟨⟨_, member, inside⟩, _, first, rfl⟩, rfl⟩
    | expression typed => cases typed

theorem condition_checked {condition : Node} (checked : condition.Checked) {site : Site} :
    (∃ text, Lexical.condition condition.lexical.expression site frames = .ok text) ↔
      condition.HasType frames .bool := by
  simp only [Lexical.condition_eq_ok, Ty.bool_equiv]
  rw [← checked.expression]
  constructor
  · rintro ⟨_, ⟨text, _⟩, first, rfl, -⟩
    exact ⟨text, first⟩
  · rintro ⟨text, first⟩
    exact ⟨_, _, first, rfl, rfl⟩

theorem block_checked {body : List Node} (parts : ∀ n ∈ body, n.Checked) :
    (∃ text, Lexical.block (LexicalRendering.body (lexicals body)) frames = .ok text) ↔
      ∃ after, BodyWellFormed (⟨[], false⟩ :: frames) body after := by
  simp only [Lexical.block_eq_ok]
  constructor
  · rintro ⟨_, text, after, done, -⟩
    exact ⟨after, (body_checked parts).mp ⟨text, done⟩⟩
  · rintro ⟨after, formed⟩
    obtain ⟨text, done⟩ := (body_checked parts).mpr formed
    exact ⟨_, text, after, done, rfl⟩

theorem branch_checked {condition : Node} {body : List Node} {otherwise : Option (List Node)}
    (checked : condition.Checked) (bodyParts : ∀ n ∈ body, n.Checked)
    (otherParts : ∀ other ∈ otherwise, ∀ n ∈ other, n.Checked) :
    Lexical.Leads (Lexical.keepFrames (Lexical.branch condition.lexical.expression
      (LexicalRendering.body (lexicals body))
        (otherwise.map fun other => LexicalRendering.body (lexicals other)))) frames after ↔
      (Node.branch condition body otherwise).WellFormed frames after := by
  rw [leads_keepFrames]
  simp only [Lexical.branch_eq_ok]
  constructor
  · rintro ⟨⟨_, t, tested, b, inside, rest⟩, rfl⟩
    have typed := (condition_checked checked).mp ⟨t, tested⟩
    obtain ⟨_, formed⟩ := (block_checked bodyParts).mp ⟨b, inside⟩
    cases otherwise with
    | none => exact .branch typed formed
    | some other =>
      obtain ⟨o, outside, -⟩ := rest
      obtain ⟨_, formedOther⟩ := (block_checked (otherParts other rfl)).mp ⟨o, outside⟩
      exact .alternatives typed formed formedOther
  · intro formed
    cases formed with
    | branch typed formed =>
      obtain ⟨t, tested⟩ := (condition_checked checked).mpr typed
      obtain ⟨b, inside⟩ := (block_checked bodyParts).mpr ⟨_, formed⟩
      exact ⟨⟨_, t, tested, b, inside, rfl⟩, rfl⟩
    | alternatives typed formed formedOther =>
      obtain ⟨t, tested⟩ := (condition_checked checked).mpr typed
      obtain ⟨b, inside⟩ := (block_checked bodyParts).mpr ⟨_, formed⟩
      obtain ⟨o, outside⟩ := (block_checked (otherParts _ rfl)).mpr ⟨_, formedOther⟩
      exact ⟨⟨_, t, tested, b, inside, o, outside, rfl⟩, rfl⟩
    | expression typed => cases typed

theorem loop_checked {condition : Node} {body : List Node} (checked : condition.Checked)
    (bodyParts : ∀ n ∈ body, n.Checked) :
    Lexical.Leads (Lexical.keepFrames (Lexical.loop condition.lexical.expression
      (LexicalRendering.body (lexicals body)))) frames after ↔
      (Node.loop condition body).WellFormed frames after := by
  rw [leads_keepFrames]
  simp only [Lexical.loop_eq_ok]
  constructor
  · rintro ⟨⟨_, t, tested, b, inside, -⟩, rfl⟩
    have typed := (condition_checked checked).mp ⟨t, tested⟩
    obtain ⟨_, formed⟩ := (block_checked bodyParts).mp ⟨b, inside⟩
    exact .loop typed formed
  · intro formed
    cases formed with
    | loop typed formed =>
      obtain ⟨t, tested⟩ := (condition_checked checked).mpr typed
      obtain ⟨b, inside⟩ := (block_checked bodyParts).mpr ⟨_, formed⟩
      exact ⟨⟨_, t, tested, b, inside, rfl⟩, rfl⟩
    | expression typed => cases typed

end Statements

/-- The compiler checks the rules, kind by kind. -/
theorem Node.checked (node : Node) : node.Checked := by
  induction node with
  | bind name value ih => exact .ofStatement rfl (by simp [isExpression]) (bind_checked ih)
  | assign target value _ ih => exact .ofStatement rfl (by simp [isExpression]) (assign_checked ih)
  | ret value ih =>
    refine ⟨?_, ret_checked ih⟩
    intro frames type
    rw [Node.lexical_ret]
    constructor
    · rintro ⟨_, ⟨⟩⟩
    · intro typed
      cases typed
  | branch condition body otherwise conditionIH bodyIH otherwiseIH =>
    exact .ofStatement (Node.lexical_branch condition body otherwise) (by simp [isExpression])
      (branch_checked conditionIH bodyIH otherwiseIH)
  | loop condition body conditionIH bodyIH =>
    exact .ofStatement rfl (by simp [isExpression]) (loop_checked conditionIH bodyIH)
  | ident name =>
    refine .ofExpression rfl rfl ?_
    intro frames type
    rw [Lexical.gives_identifier]
    constructor
    · intro nearest
      exact .ident nearest
    · intro typed
      cases typed with
      | ident nearest => exact nearest
  | literal type payload parameters body _ _ fieldsIH bodyIH =>
    refine .ofExpression (Node.lexical_literal type payload parameters body) rfl ?_
    intro frames type
    rw [← literal_checked fieldsIH bodyIH, Node.lexical_literal]
    rfl
  | new target =>
    refine .ofExpression rfl rfl ?_
    intro frames type
    rw [Lexical.gives_newValue]
    constructor
    · intro lowered
      exact .new lowered
    · intro typed
      cases typed with
      | new lowered => exact lowered
  | binary op left right leftIH rightIH =>
    refine .ofExpression rfl rfl ?_
    intro frames type
    simp only [Lexical.gives_binary, leftIH.expression, rightIH.expression]
    constructor
    · rintro ⟨_, _, first, second, same, takes⟩
      exact .binary first second same takes
    · intro typed
      cases typed with
      | binary first second same takes => exact ⟨_, _, first, second, same, takes⟩
  | unary op operand ih =>
    refine .ofExpression rfl rfl ?_
    intro frames type
    rw [Lexical.gives_unary, ih.expression]
    constructor
    · rintro ⟨typed, takes⟩
      exact .unary typed takes
    · intro typed
      cases typed with
      | unary typed takes => exact ⟨typed, takes⟩
  | call callee arguments calleeIH argumentsIH =>
    refine .ofExpression (Node.lexical_call callee arguments) rfl ?_
    intro frames type
    rw [Lexical.gives_call]
    simp only [calleeIH.expression, List.length_map, arguments_checked argumentsIH]
    constructor
    · rintro ⟨_, typed, typedArguments⟩
      exact .call typed typedArguments
    · intro typed
      cases typed with
      | call typed typedArguments => exact ⟨_, typed, typedArguments⟩
  | _ =>
    refine .unhandled rfl (by simp [isExpression]) ?_
    intro frames after formed
    cases formed with
    | expression typed => cases typed

/-! ## Programs -/

/-- A statement adds to the innermost frame and leaves the others alone. -/
theorem Node.WellFormed.extends {node : Node} {frame : Frame} {outer after : Frames}
    (formed : node.WellFormed (frame :: outer) after) :
    ∃ added, after = Frames.extend added (frame :: outer) := by
  cases formed with
  | bind _ _ _ => exact ⟨_, rfl⟩
  | _ => exact ⟨[], by simp [Frames.extend]⟩

theorem BodyWellFormed.extends {nodes : List Node} {frame : Frame} {outer after : Frames}
    (formed : BodyWellFormed (frame :: outer) nodes after) :
    ∃ added, after = Frames.extend added (frame :: outer) := by
  induction nodes generalizing frame with
  | nil =>
    cases formed
    exact ⟨[], by simp [Frames.extend]⟩
  | cons node rest ih =>
    cases formed with
    | cons first others =>
      obtain ⟨added, rfl⟩ := first.extends
      obtain ⟨more, rfl⟩ := ih others
      exact ⟨added ++ more, by simp [Frames.extend]⟩

namespace Program

/-- A program compiles exactly when it is well formed in one frame without names, and its bindings
are then what that frame holds behind it. -/
theorem compile_iff_wellFormed (program : Program) (bindings : Bindings) :
    (∃ output, program.compile = .ok ⟨output, bindings⟩) ↔
      BodyWellFormed Frames.root program [⟨bindings, false⟩] := by
  rw [← body_checked fun n _ => n.checked]
  simp only [compile_eq_compileLexically, compileLexically, Except.bind_eq_ok, Except.ok.injEq,
    Artifact.mk.injEq]
  constructor
  · rintro ⟨output, ⟨_, frames⟩, done, rfl, rfl⟩
    have formed := (body_checked fun n _ => n.checked).mp ⟨_, done⟩
    obtain ⟨added, rfl⟩ := formed.extends
    exact ⟨_, done⟩
  · rintro ⟨output, done⟩
    exact ⟨output, _, done, rfl, rfl⟩

end Program

end Arbor
