import Arbor.Proofs.Checking
import Arbor.Proofs.StatementReading

/-!
# Emission loses nothing

The text of a program that compiles is read back as its normal form, so programs with the same text
have the same normal form. The induction is over nodes. It needs of the frames around a node that
every name in them can be told from the words of the host, which declarations preserve.
-/

namespace Arbor

/-! ## Names in frames -/

/-- All names declared in the frames are names of the host. -/
def Frames.Bindable (frames : Frames) : Prop :=
  ∀ frame ∈ frames, ∀ name ∈ Fields.names frame.symbols, Host.isBindable name

namespace Frames

variable {frames after : Frames}

theorem Bindable.of_type? (bindable : frames.Bindable) {name : String} {type : Ty}
    (found : frames.type? name = some type) : Host.isBindable name := by
  obtain ⟨frame, member, declared⟩ := List.exists_of_findSome?_eq_some found
  exact bindable frame member name (Fields.lookup_isSome.mp (by rw [declared]; rfl))

theorem Bindable.push (bindable : frames.Bindable) (isFunction : Bool) :
    Bindable (⟨[], isFunction⟩ :: frames) := by
  intro frame member name declared
  rcases List.mem_cons.mp member with rfl | member
  · cases declared
  · exact bindable frame member name declared

theorem Bindable.extend (bindable : frames.Bindable) {added : List (String × Ty)}
    (names : ∀ name ∈ Fields.names added, Host.isBindable name) : (frames.extend added).Bindable := by
  cases frames with
  | nil => exact bindable
  | cons first outer =>
    intro frame member name declared
    rcases List.mem_cons.mp member with rfl | member
    · rw [Fields.names, List.map_append, List.mem_append] at declared
      rcases declared with declared | declared
      · exact bindable first (by simp) name declared
      · exact names name declared
    · exact bindable frame (by simp [member]) name declared

end Frames

/-! ## Nodes read back -/

open Reading

/-- What becomes of a statement: it is left out, or its text is read back as its normal form. -/
inductive Node.StatementReads (node : Node) (inFunction : Bool) : Option String → Prop where
  | dropped : node.isReturn → inFunction = false → StatementReads node inFunction none
  | kept {text : String} {statement : Normal} : (node.isReturn && !inFunction) = false →
      node.normal inFunction = some statement → ReadsStatement text statement →
      StatementReads node inFunction (some text)

/-- The node is read back in both places it can stand in. -/
structure Node.ReadsBack (node : Node) : Prop where
  expression : ∀ {frames : Frames} {emitted : Emitted}, frames.Bindable →
    node.lexical.expression frames = .ok emitted →
      ∃ n, node.normal frames.inFunction = some n ∧ Reads emitted.text n
  statement : ∀ {frames after : Frames} {text : Option String}, frames.Bindable →
    node.lexical.statement frames = .ok (text, after) →
      after.Bindable ∧ after.inFunction = frames.inFunction ∧
        node.StatementReads frames.inFunction text

section Parts

variable {frames after : Frames} {text : String} (bindable : frames.Bindable)
include bindable

theorem arguments_readBack {arguments : List Node} (parts : ∀ n ∈ arguments, n.ReadsBack)
    {types : List Ty} (count : types.length = arguments.length) {position : Nat}
    {texts : List String}
    (done : Lexical.arguments frames position (arguments.map fun n => n.lexical.expression) types =
      .ok texts) :
    ∃ ns, normals frames.inFunction arguments = some ns ∧ List.Forall₂ Reads texts ns := by
  induction arguments generalizing types position texts with
  | nil =>
    cases done
    exact ⟨[], rfl, .nil⟩
  | cons argument rest ih =>
    cases types with
    | nil => cases count
    | cons expected others =>
      obtain ⟨a, first, -, more, next, rfl⟩ := Lexical.arguments_cons_eq_ok.mp done
      obtain ⟨n, normal, reads⟩ := (parts argument (by simp)).expression bindable first
      obtain ⟨ns, normalRest, readsRest⟩ :=
        ih (fun n hn => parts n (by simp [hn])) (Nat.succ.inj count) next
      exact ⟨n :: ns, by rw [normals, normal, normalRest]; rfl, .cons reads readsRest⟩

theorem entries_readBack {fields : List (String × Node)} (parts : ∀ f ∈ fields, f.2.ReadsBack)
    {declared : List (String × Ty)}
    (done : Lexical.entries (fields.map fun f => (f.1, f.2.lexical.expression)) frames declared =
      .ok text) :
    ∃ entries, inOrder (fieldNormals frames.inFunction fields) declared = some entries ∧
      ReadsFields text entries := by
  induction declared generalizing text with
  | nil =>
    cases done
    exact ⟨[], rfl, readsFields_nil⟩
  | cons field rest ih =>
    obtain ⟨name, expected⟩ := field
    obtain ⟨_, found, value, first, -, others, next, rfl⟩ := Lexical.entries_cons_eq_ok.mp done
    rw [Fields.lookup_map fun node : Node => node.lexical.expression, Option.map_eq_some_iff] at found
    obtain ⟨node, found, rfl⟩ := found
    obtain ⟨n, normal, reads⟩ := (parts _ (Fields.mem_of_lookup found)).expression bindable first
    obtain ⟨entries, order, readsRest⟩ := ih next
    refine ⟨(name, n) :: entries, ?_, readsFields_cons name reads readsRest⟩
    rw [inOrder, order, fieldNormals_eq_map,
      Fields.lookup_map fun node : Node => node.normal frames.inFunction, found, Option.map_some,
      normal]
    rfl

theorem body_readBack {nodes : List Node} (parts : ∀ n ∈ nodes, n.ReadsBack)
    (done : LexicalRendering.body (lexicals nodes) frames = .ok (text, after)) :
    ∃ body, bodyNormal frames.inFunction nodes = some body ∧ ReadsBody text body := by
  rw [lexicals_eq_map, LexicalRendering.body, List.map_map] at done
  induction nodes generalizing frames text with
  | nil =>
    cases done
    exact ⟨[], rfl, readsBody_nil⟩
  | cons node rest ih =>
    rw [List.map_cons] at done
    obtain ⟨first, middle, stated, others, next, rfl⟩ := Lexical.statements_cons_eq_ok.mp done
    obtain ⟨bindable, same, reads⟩ := (parts node (by simp)).statement bindable stated
    obtain ⟨body, normalRest, readsRest⟩ := ih bindable (fun n hn => parts n (by simp [hn])) next
    rw [same] at normalRest
    cases reads with
    | dropped isReturn outside =>
      refine ⟨body, ?_, ?_⟩
      · rw [bodyNormal, isReturn, outside]
        rw [outside] at normalRest
        exact normalRest
      · rw [Emit.terminated, String.empty_append]
        exact readsRest
    | @kept text statement kept normal reads =>
      refine ⟨statement :: body, ?_, readsBody_cons reads readsRest⟩
      rw [bodyNormal, kept, normal, normalRest]
      rfl

theorem block_readBack {nodes : List Node} (parts : ∀ n ∈ nodes, n.ReadsBack)
    (done : Lexical.block (LexicalRendering.body (lexicals nodes)) frames = .ok text) :
    ∃ body, bodyNormal frames.inFunction nodes = some body ∧ ReadsBlock text body := by
  obtain ⟨statements, outer, inside, rfl⟩ := Lexical.block_eq_ok.mp done
  obtain ⟨body, normal, reads⟩ := body_readBack (bindable.push false) parts inside
  exact ⟨body, normal, reads.block⟩

theorem condition_readBack {condition : Node} (reads : condition.ReadsBack) {site : Site}
    (done : Lexical.condition condition.lexical.expression site frames = .ok text) :
    ∃ n, condition.normal frames.inFunction = some n ∧ Reads text n := by
  obtain ⟨v, first, -, rfl⟩ := Lexical.condition_eq_ok.mp done
  exact reads.expression bindable first

theorem function_readBack {parameters : List String} {types : List Ty} {body : List Node}
    (parts : ∀ n ∈ body, n.ReadsBack)
    (done : Lexical.function parameters types (LexicalRendering.body (lexicals body)) frames =
      .ok text) {type : Ty} {constructor : String} (built : type.constructor = .ok constructor) :
    ∃ statements, bodyNormal true body = some statements ∧
      Reads (Host.value text constructor) (.literal type (.function parameters statements)) := by
  obtain ⟨count, inner, declared, statements, outer, inside, rfl⟩ := Lexical.function_eq_ok.mp done
  obtain ⟨valid, -, -, rfl⟩ := (declareParameters_eq_ok count).mp declared
  have names : ∀ name ∈ Fields.names (parameters.zip types), Host.isBindable name := by
    intro name member
    obtain ⟨entry, inside, rfl⟩ := List.mem_map.mp member
    exact valid entry.1 (List.of_mem_zip inside).1
  obtain ⟨n, normal, reads⟩ := body_readBack ((bindable.push true).extend names) parts inside
  exact ⟨n, normal, reads_function valid reads built⟩

end Parts

/-! ## Literals -/

section Literals

variable {frames : Frames} {descriptor : Node} {parameters : List String} {body : List Node}

/-- Literals of primitive types are read back. -/
theorem primitive_readBack {p : Primitive} {value : Option Payload} {rendered : Lexical.Body}
    {fields : List (String × Lexical.Expression)} {text constructor : String}
    (lowered : descriptor.lower = .ok (.prim p))
    (done : Lexical.payload (.prim p) (.prim p) value parameters rendered fields frames = .ok text)
    (built : (Ty.prim p).constructor = .ok constructor) (inFunction : Bool) :
    ∃ n, (Node.literal descriptor value parameters body).normal inFunction = some n ∧
      Reads (Host.value text constructor) n := by
  cases Lexical.payload_prim.mp ⟨text, done⟩ with
  | int n =>
    cases done
    exact ⟨_, by rw [Node.normal, lowered]; rfl,
      reads_value (value?_number built (numeral_int n.toInt) (by rw [number?, int_signedDecimal]))⟩
  | float x =>
    cases done
    exact ⟨_, by rw [Node.normal, lowered]; rfl,
      reads_value (value?_number built (numeral_double x) (by rw [number?, double?_write]; rfl))⟩
  | wholeFloat n =>
    cases done
    exact ⟨_, by rw [Node.normal, lowered]; rfl,
      reads_value (value?_number built (numeral_double _) (by rw [number?, double?_write]; rfl))⟩
  | bool b =>
    cases done
    exact ⟨_, by rw [Node.normal, lowered]; rfl, reads_value (value?_bool built b)⟩
  | str text =>
    cases done
    exact ⟨_, by rw [Node.normal, lowered]; rfl, reads_value (value?_str built text)⟩
  | null =>
    cases done
    exact ⟨_, by rw [Node.normal, lowered], reads_value (value?_null built)⟩
  | type describes =>
    obtain ⟨described, inner, builds⟩ := Except.bind_eq_ok.mp done
    exact ⟨_, by rw [Node.normal, lowered]; simp only [Payload.normal, inner]; rfl,
      reads_value (value?_type built builds)⟩

theorem literal_readBack {payload : Option Payload} {emitted : Emitted} (bindable : frames.Bindable)
    (fieldParts : ∀ f ∈ Payload.entries payload, f.2.ReadsBack)
    (bodyParts : ∀ n ∈ body, n.ReadsBack)
    (done : (Node.literal descriptor payload parameters body).lexical.expression frames =
      .ok emitted) :
    ∃ n, (Node.literal descriptor payload parameters body).normal frames.inFunction = some n ∧
      Reads emitted.text n := by
  rw [Node.lexical_literal] at done
  obtain ⟨tag, tagged, type, lowered, inner, filled, constructor, built, rfl⟩ :=
    Lexical.literal_eq_ok.mp done
  rw [Node.descriptorTag_of_lower lowered] at tagged
  cases tagged
  cases type with
  | prim p => exact primitive_readBack lowered filled built _
  | fn types returns =>
    obtain ⟨rfl, filled⟩ := Lexical.payload_fn.mp filled
    obtain ⟨statements, normal, reads⟩ := function_readBack bindable bodyParts filled built
    refine ⟨_, ?_, reads⟩
    rw [Node.normal, lowered]
    simp only [normal]
    rfl
  | obj declared =>
    obtain ⟨⟨given, rfl⟩, filled⟩ := Lexical.payload_obj.mp filled
    obtain ⟨-, texts, listed, rfl⟩ := Lexical.object_eq_ok.mp filled
    obtain ⟨entries, order, reads⟩ := entries_readBack bindable fieldParts listed
    refine ⟨_, ?_, reads_object reads built⟩
    rw [Node.normal, lowered]
    simp only [Payload.normal]
    exact congrArg _ (congrArg _ order)
  | list => cases built

end Literals

/-! ## All nodes -/

namespace Node.ReadsBack

variable {node : Node}

theorem ofExpression {emit : Lexical.Expression} (rendered : node.lexical = .ofExpression emit)
    (kind : node.isReturn = false)
    (expression : ∀ {frames emitted}, frames.Bindable → emit frames = .ok emitted →
      ∃ n, node.normal frames.inFunction = some n ∧ Reads emitted.text n) : node.ReadsBack := by
  refine ⟨by rw [rendered]; exact expression, ?_⟩
  intro frames after text bindable done
  rw [rendered] at done
  obtain ⟨emitted, first, ⟨⟩⟩ := Except.bind_eq_ok.mp done
  obtain ⟨n, normal, reads⟩ := expression bindable first
  exact ⟨bindable, rfl, .kept (by rw [kind]; rfl) normal reads.statement⟩

theorem ofStatement {kind : String} {emit : Lexical.Statement}
    (rendered : node.lexical = .ofStatement kind emit) (other : node.isReturn = false)
    (statement : ∀ {frames after text}, frames.Bindable → emit frames = .ok (text, after) →
      after.Bindable ∧ after.inFunction = frames.inFunction ∧
        ∃ n, node.normal frames.inFunction = some n ∧ ReadsStatement text n) : node.ReadsBack := by
  constructor
  · intro frames emitted bindable done
    rw [rendered] at done
    cases done
  · intro frames after text bindable done
    rw [rendered] at done
    obtain ⟨⟨text, _⟩, first, ⟨⟩⟩ := Except.bind_eq_ok.mp done
    obtain ⟨bindable, same, n, normal, reads⟩ := statement bindable first
    exact ⟨bindable, same, .kept (by rw [other]; rfl) normal reads⟩

theorem unhandled {kind : String} (rendered : node.lexical = .unhandled kind) : node.ReadsBack := by
  constructor
  · intro frames emitted bindable done
    rw [rendered] at done
    cases done
  · intro frames after text bindable done
    rw [rendered] at done
    cases done

/-- A statement that declares nothing is read back when its text is. -/
theorem keepFrames {kind : String} {emit : Frames → Except CompileError String}
    (rendered : node.lexical = .ofStatement kind (Lexical.keepFrames emit))
    (other : node.isReturn = false)
    (statement : ∀ {frames text}, frames.Bindable → emit frames = .ok text →
      ∃ n, node.normal frames.inFunction = some n ∧ ReadsStatement text n) : node.ReadsBack := by
  apply ofStatement rendered other
  intro frames after text bindable done
  obtain ⟨first, rfl⟩ := Lexical.keepFrames_eq_ok.mp done
  exact ⟨bindable, rfl, statement bindable first⟩

end Node.ReadsBack

/-- Every node is read back. -/
theorem Node.readsBack (node : Node) : node.ReadsBack := by
  induction node with
  | bind name value ih =>
    apply Node.ReadsBack.ofStatement rfl rfl
    intro frames after text bindable done
    obtain ⟨valid, v, first, declared, rfl⟩ := Lexical.bind_eq_ok.mp done
    obtain ⟨-, rfl⟩ := Frames.declare_eq_ok.mp declared
    obtain ⟨n, normal, reads⟩ := ih.expression bindable first
    refine ⟨bindable.extend (by simpa [Fields.names] using valid), Frames.inFunction_extend _, _, ?_,
      readsStatement_bind valid reads⟩
    rw [Node.normal, normal]
    rfl
  | assign target value _ ih =>
    apply Node.ReadsBack.keepFrames rfl rfl
    intro frames text bindable done
    obtain ⟨name, rfl, declared, found, v, first, -, rfl⟩ := Lexical.assign_eq_ok.mp done
    obtain ⟨n, normal, reads⟩ := ih.expression bindable first
    refine ⟨_, ?_, readsStatement_assign (bindable.of_type? found) reads⟩
    rw [Node.normal, normal]
    rfl
  | ret value ih =>
    constructor
    · intro frames emitted bindable done
      rw [Node.lexical_ret] at done
      cases done
    · intro frames after text bindable done
      rw [Node.lexical_ret] at done
      obtain ⟨left, first, ⟨⟩⟩ := Except.bind_eq_ok.mp done
      rcases Lexical.ret_eq_ok.mp first with ⟨outside, rfl⟩ | ⟨inside, left⟩
      · exact ⟨bindable, rfl, .dropped rfl (by simpa using outside)⟩
      · cases value with
        | none =>
          cases left
          exact ⟨bindable, rfl, .kept (by rw [inside]; rfl) (by rw [Node.normal]) readsStatement_ret⟩
        | some value =>
          obtain ⟨v, returned, rfl⟩ := left
          obtain ⟨n, normal, reads⟩ := (ih value rfl).expression bindable returned
          refine ⟨bindable, rfl, .kept (by rw [inside]; rfl) ?_ (readsStatement_ret_value reads)⟩
          rw [Node.normal, normal]
          rfl
  | branch condition body otherwise conditionIH bodyIH otherwiseIH =>
    apply Node.ReadsBack.keepFrames (Node.lexical_branch condition body otherwise) rfl
    intro frames text bindable done
    obtain ⟨t, first, b, second, last⟩ := Lexical.branch_eq_ok.mp done
    obtain ⟨n, normal, reads⟩ := condition_readBack bindable conditionIH first
    obtain ⟨statements, normalBody, readsBody⟩ := block_readBack bindable bodyIH second
    cases otherwise with
    | none =>
      cases last
      refine ⟨_, ?_, readsStatement_branch reads readsBody⟩
      rw [Node.normal, normal, normalBody]
      rfl
    | some otherwise =>
      obtain ⟨o, third, rfl⟩ := last
      obtain ⟨others, normalOther, readsOther⟩ := block_readBack bindable (otherwiseIH _ rfl) third
      refine ⟨_, ?_, readsStatement_branch_else reads readsBody readsOther⟩
      rw [Node.normal, normal, normalBody, normalOther]
      rfl
  | loop condition body conditionIH bodyIH =>
    apply Node.ReadsBack.keepFrames rfl rfl
    intro frames text bindable done
    obtain ⟨t, first, b, second, rfl⟩ := Lexical.loop_eq_ok.mp done
    obtain ⟨n, normal, reads⟩ := condition_readBack bindable conditionIH first
    obtain ⟨statements, normalBody, readsBody⟩ := block_readBack bindable bodyIH second
    refine ⟨_, ?_, readsStatement_loop reads readsBody⟩
    rw [Node.normal, normal, normalBody]
    rfl
  | ident name =>
    apply Node.ReadsBack.ofExpression rfl rfl
    intro frames emitted bindable done
    obtain ⟨type, found, rfl⟩ := Lexical.identifier_eq_ok.mp done
    exact ⟨_, rfl, reads_ident (bindable.of_type? found)⟩
  | literal type payload parameters body _ _ fieldsIH bodyIH =>
    apply Node.ReadsBack.ofExpression (Node.lexical_literal type payload parameters body) rfl
    intro frames emitted bindable done
    exact literal_readBack bindable fieldsIH bodyIH (by rw [Node.lexical_literal]; exact done)
  | new target =>
    apply Node.ReadsBack.ofExpression rfl rfl
    intro frames emitted bindable done
    obtain ⟨type, lowered, constructor, built, rfl⟩ := Lexical.newValue_eq_ok.mp done
    refine ⟨_, ?_, reads_new built⟩
    rw [Node.normal, lowered]
    rfl
  | binary op left right leftIH rightIH =>
    apply Node.ReadsBack.ofExpression rfl rfl
    intro frames emitted bindable done
    obtain ⟨l, first, r, second, -, -, constructor, built, rfl⟩ := Lexical.binary_eq_ok.mp done
    obtain ⟨n, normal, reads⟩ := leftIH.expression bindable first
    obtain ⟨m, normalRight, readsRight⟩ := rightIH.expression bindable second
    refine ⟨_, ?_, reads_binary reads readsRight op l.type built⟩
    rw [Node.normal, normal, normalRight]
    rfl
  | unary op operand ih =>
    apply Node.ReadsBack.ofExpression rfl rfl
    intro frames emitted bindable done
    obtain ⟨o, first, -, constructor, built, rfl⟩ := Lexical.unary_eq_ok.mp done
    obtain ⟨n, normal, reads⟩ := ih.expression bindable first
    refine ⟨_, ?_, reads_unary reads op built⟩
    rw [Node.normal, normal]
    rfl
  | call callee arguments calleeIH argumentsIH =>
    apply Node.ReadsBack.ofExpression (Node.lexical_call callee arguments) rfl
    intro frames emitted bindable done
    obtain ⟨c, types, returns, first, count, texts, second, rfl⟩ := Lexical.call_eq_ok.mp done
    obtain ⟨n, normal, reads⟩ := calleeIH.expression bindable first
    obtain ⟨ns, normalRest, readsRest⟩ :=
      arguments_readBack bindable argumentsIH (by simpa using count) second
    refine ⟨_, ?_, reads_call reads readsRest⟩
    rw [Node.normal, normal, normalRest]
    rfl
  | member => exact .unhandled rfl
  | element => exact .unhandled rfl
  | type => exact .unhandled rfl
  | unknown => exact .unhandled rfl

/-! ## Programs -/

namespace Program

variable {program other : Program} {artifact otherArtifact : Artifact}

/-- The text of a program that compiles is read back as its normal form, to its end. -/
theorem body?_output (compiled : program.compile = .ok artifact) :
    ∃ body, program.normal = some body ∧ body? artifact.output.toList = some (body, []) := by
  rw [compile_eq_compileLexically] at compiled
  obtain ⟨⟨output, after⟩, done, ⟨⟩⟩ := Except.bind_eq_ok.mp compiled
  have bindable : Frames.root.Bindable := by
    intro frame member name declared
    rw [List.mem_singleton.mp member] at declared
    cases declared
  obtain ⟨body, normal, reads⟩ := body_readBack bindable (fun n _ => n.readsBack) done
  refine ⟨body, normal, ?_⟩
  have read := reads [] (.inl rfl)
  rwa [List.append_nil] at read

/-- Programs that compile to one text have one normal form. -/
theorem normal_eq_of_output_eq (first : program.compile = .ok artifact)
    (second : other.compile = .ok otherArtifact) (same : artifact.output = otherArtifact.output) :
    program.normal.isSome ∧ program.normal = other.normal := by
  obtain ⟨body, normal, read⟩ := body?_output first
  obtain ⟨otherBody, otherNormal, otherRead⟩ := body?_output second
  rw [same, otherRead] at read
  cases read
  exact ⟨by rw [normal]; rfl, by rw [normal, otherNormal]⟩

/-- An object of two flags, given in some order, with parameters that nothing uses. -/
def flags (fields : List (String × Bool)) (parameters : List String) : Node :=
  let bool : Node := .type (.prim .bool) none [] none []
  .literal (.type .obj none [] none [("up", bool), ("down", bool)])
    (some (.fields (fields.map fun field => (field.1, .literal bool (some (.bool field.2)) [] []))))
    parameters []

/-- Programs that differ by a dropped return, the order of fields and unused parameters. -/
theorem normal_eq_of_reordered_flags : ∃ artifact otherArtifact,
    Program.compile [.ret none, flags [("up", true), ("down", false)] []] = .ok artifact ∧
      Program.compile [flags [("down", false), ("up", true)] ["unused"]] = .ok otherArtifact ∧
        artifact.output = otherArtifact.output ∧
          (Program.normal [.ret none, flags [("up", true), ("down", false)] []]).isSome ∧
            Program.normal [.ret none, flags [("up", true), ("down", false)] []] =
              Program.normal [flags [("down", false), ("up", true)] ["unused"]] :=
  ⟨_, _, rfl, rfl, rfl, normal_eq_of_output_eq rfl rfl rfl⟩

end Program

end Arbor
