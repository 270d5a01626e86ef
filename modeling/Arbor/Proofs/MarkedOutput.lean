import Arbor.Proofs.BodyTyping
import Arbor.Proofs.Markup

/-!
# The emitted text is the marked text

The marked text of a program that goes through, taken without its marks, is what the compiler
emits. The induction is over nodes. It carries along what the marks say: which names are declared
where a part stands, and that they can be declared in the host, which keeps the name of the runtime
out of every scope.
-/

namespace Arbor

namespace Markup

/-- Every name declared in the text is a name of the host's, and nothing of the host is named but
what expressions need. -/
def Tidy : Markup → Prop
  | binder name => Host.isBindable name
  | global g => g = .runtime ∨ g = .math
  | append first last => first.Tidy ∧ last.Tidy
  | scope inside => inside.Tidy
  | _ => True

/-- The marked text is tidy, without its marks it is `text`, and outside of the scopes in it it
declares these names. -/
structure Shows (markup : Markup) (text : String) (declared : List String) : Prop where
  render : markup.render = text
  binders : markup.binders = declared
  tidy : markup.Tidy

namespace Shows

variable {markup first last left right inside : Markup} {text other : String}
  {declared more : List String}

theorem empty : Markup.empty.Shows "" [] := ⟨rfl, rfl, trivial⟩

theorem own {names : Host.NamesNone text} : (Markup.own text names).Shows text [] :=
  ⟨rfl, rfl, trivial⟩

theorem numeral {number : Reading.Numeral text.toList} : (Markup.numeral text number).Shows text [] :=
  ⟨rfl, rfl, trivial⟩

theorem quoted : (Markup.quoted text).Shows (Text.quote text) [] := ⟨rfl, rfl, trivial⟩

theorem use : (Markup.use text).Shows text [] := ⟨rfl, rfl, trivial⟩

theorem binder (bindable : Host.isBindable text) : (Markup.binder text).Shows text [text] :=
  ⟨rfl, rfl, bindable⟩

theorem runtime : (Markup.global .runtime).Shows Host.runtimeName [] := ⟨rfl, rfl, .inl rfl⟩

theorem math : (Markup.global .math).Shows "Math" [] := ⟨rfl, rfl, .inr rfl⟩

theorem append (shown : first.Shows text declared) (next : last.Shows other more) :
    (first ++ last).Shows (text ++ other) (declared ++ more) where
  render := congrArg₂ (· ++ ·) shown.render next.render
  binders := congrArg₂ (· ++ ·) shown.binders next.binders
  tidy := ⟨shown.tidy, next.tidy⟩

theorem scope (shown : inside.Shows text declared) : (Markup.scope inside).Shows text [] :=
  ⟨shown.render, rfl, shown.tidy⟩

/-- Text of the compiler on both sides declares nothing. -/
theorem between {front back : String} {frontNames : Host.NamesNone front}
    {backNames : Host.NamesNone back} (shown : markup.Shows text declared) :
    (Markup.own front frontNames ++ markup ++ Markup.own back backNames).Shows
      (front ++ text ++ back) declared := by
  have parts : (Markup.own front frontNames ++ markup ++ Markup.own back backNames).Shows
      (front ++ text ++ back) ([] ++ declared ++ []) := (own.append shown).append own
  rwa [List.nil_append, List.append_nil] at parts

theorem separated {separator : String} {names : Host.NamesNone separator} {parts : List Markup}
    {texts : List String} (shown : List.Forall₂ (fun part text => part.Shows text []) parts texts) :
    (Markup.separated (Markup.own separator names) parts).Shows (String.intercalate separator texts)
      [] := by
  induction shown with
  | nil =>
    rw [String.intercalate_nil]
    exact empty
  | cons part rest ih =>
    cases rest with
    | nil =>
      rw [String.intercalate_singleton]
      exact part
    | cons second others =>
      rw [String.intercalate_cons_cons]
      exact (part.append own).append ih

theorem parameters {separator : String} {separates : Host.NamesNone separator} {names : List String}
    (valid : ∀ name ∈ names, Host.isBindable name) :
    (Markup.separated (Markup.own separator separates) (names.map Markup.binder)).Shows
      (String.intercalate separator names) names := by
  induction names with
  | nil =>
    rw [String.intercalate_nil]
    exact empty
  | cons name rest ih =>
    have first := binder (valid name (by simp))
    cases rest with
    | nil =>
      rw [String.intercalate_singleton]
      exact first
    | cons second others =>
      rw [String.intercalate_cons_cons]
      exact (first.append own).append (ih fun n hn => valid n (by simp [hn]))

theorem value {payload type : Markup} {constructor : String} (filled : payload.Shows text [])
    (built : type.Shows constructor []) :
    (Markup.value payload type).Shows (Host.value text constructor) [] :=
  (((((own.append runtime).append own).append filled).append own).append built).append own

theorem block (shown : inside.Shows text declared) :
    (Markup.block inside).Shows ("\x7b\n" ++ text ++ "\x7d") [] :=
  scope (between shown)

theorem function {names : List String} (valid : ∀ name ∈ names, Host.isBindable name)
    (shown : inside.Shows text declared) :
    (Markup.function names inside).Shows
      ("(" ++ String.intercalate "," names ++ ") => \x7b\n" ++ text ++ "\x7d") [] :=
  scope (((between (parameters valid)).append shown).append own)

theorem computed (op : BinaryOp) (shown : left.Shows text []) (next : right.Shows other []) :
    (Markup.computed op left right).Shows
      (text ++ ".value " ++ Reading.hostSymbol op ++ " " ++ other ++ ".value") [] :=
  ((((shown.append own).append own).append own).append next).append own

theorem operation (op : BinaryOp) (type : Ty) (shown : left.Shows text [])
    (next : right.Shows other []) :
    (Markup.operation op type left right).Shows (Emit.operation op type text other) [] := by
  have result := computed op shown next
  cases op with
  | div =>
    rw [Markup.operation, Emit.operation, beq_self_eq_true, Bool.true_and]
    split
    · exact ((math.append own).append result).append own
    · exact result
  | _ => exact result

end Shows

end Markup

/-! ## Types -/

theorem typeMarkups_show {types : List Ty}
    (parts : ∀ t ∈ types, ∀ text, t.constructor = .ok text → t.markup.Shows text [])
    {texts : List String} (built : Ty.constructors types = .ok texts) :
    List.Forall₂ (fun part text => part.Shows text []) (typeMarkups types) texts := by
  induction types generalizing texts with
  | nil =>
    cases built
    exact .nil
  | cons type rest ih =>
    obtain ⟨text, first, built⟩ := Except.bind_eq_ok.mp built
    obtain ⟨more, next, ⟨⟩⟩ := Except.bind_eq_ok.mp built
    exact .cons (parts type (by simp) text first) (ih (fun t ht => parts t (by simp [ht])) next)

theorem typeEntries_show {fields : List (String × Ty)}
    (parts : ∀ f ∈ fields, ∀ text, f.2.constructor = .ok text → f.2.markup.Shows text [])
    {text : String} (built : Ty.fieldConstructors fields = .ok text) :
    (typeEntries fields).Shows text [] := by
  induction fields generalizing text with
  | nil =>
    cases built
    exact .empty
  | cons field rest ih =>
    obtain ⟨name, type⟩ := field
    obtain ⟨text, first, built⟩ := Except.bind_eq_ok.mp built
    obtain ⟨more, next, built⟩ := Except.bind_eq_ok.mp built
    have shown := parts (name, type) (by simp) text first
    have others := ih (fun f hf => parts f (by simp [hf])) next
    rw [← Except.ok.inj built]
    exact (((Markup.Shows.quoted.append .own).append shown).append .own).append others

theorem Ty.markup_shows (type : Ty) :
    ∀ text, type.constructor = .ok text → type.markup.Shows text [] := by
  induction type with
  | prim p =>
    intro text built
    rw [← Except.ok.inj built]
    exact ((Markup.Shows.runtime.append .own).append .own).append .own
  | fn parameters returns parametersIH returnsIH =>
    intro text built
    obtain ⟨texts, first, built⟩ := Except.bind_eq_ok.mp built
    obtain ⟨text, second, built⟩ := Except.bind_eq_ok.mp built
    have inside := typeMarkups_show parametersIH first
    have result := returnsIH text second
    rw [← Except.ok.inj built]
    exact (((((Markup.Shows.own.append .runtime).append .own).append (.separated inside)).append
      .own).append result).append .own
  | obj fields ih =>
    intro text built
    obtain ⟨text, first, built⟩ := Except.bind_eq_ok.mp built
    have inside := typeEntries_show ih first
    rw [← Except.ok.inj built]
    exact (((Markup.Shows.own.append .runtime).append .own).append inside).append .own
  | list =>
    intro text built
    cases built

/-! ## Nodes -/

theorem Node.derived_of_lexical {node : Node} {frames : Frames} {emitted : Emitted}
    (done : node.lexical.expression frames = .ok emitted) :
    node.derived frames = some emitted.type :=
  (node.checked.expression.mp ⟨emitted.text, done⟩).derived

theorem Node.typeMarkup_shows {node : Node} {frames : Frames} {type : Ty} {constructor : String}
    (derived : node.derived frames = some type) (built : type.constructor = .ok constructor) :
    (node.typeMarkup frames).Shows constructor [] := by
  rw [Node.typeMarkup, derived]
  exact type.markup_shows constructor built

/-- The marked text of a statement, which is empty where the statement is left out. -/
def Node.statementMarkup (frames : Frames) (node : Node) : Markup :=
  if node.isReturn && !frames.inFunction then .empty else (node.markup frames).terminated

/-- The marked text of the node is what it emits, in both places it can stand in. -/
structure Node.Marked (node : Node) : Prop where
  expression : ∀ {frames : Frames} {emitted : Emitted},
    node.lexical.expression frames = .ok emitted → (node.markup frames).Shows emitted.text []
  statement : ∀ {frames after : Frames} {text : Option String},
    node.lexical.statement frames = .ok (text, after) →
      (node.statementMarkup frames).Shows (Emit.terminated text) node.declared

namespace Node.Marked

variable {node : Node}

theorem ofExpression {emit : Lexical.Expression} (rendered : node.lexical = .ofExpression emit)
    (kind : node.isExpression)
    (expression : ∀ {frames emitted}, emit frames = .ok emitted →
      (node.markup frames).Shows emitted.text []) : node.Marked := by
  have other : node.isReturn = false ∧ node.declared = [] := by
    cases node <;> first | exact ⟨rfl, rfl⟩ | cases kind
  constructor
  · intro frames emitted done
    rw [rendered] at done
    exact expression done
  · intro frames after text done
    rw [rendered] at done
    obtain ⟨emitted, first, ⟨⟩⟩ := Except.bind_eq_ok.mp done
    rw [Node.statementMarkup, other.1, other.2]
    exact (expression first).append .own

theorem ofStatement {kind : String} {emit : Lexical.Statement}
    (rendered : node.lexical = .ofStatement kind emit) (other : node.isReturn = false)
    (statement : ∀ {frames after text}, emit frames = .ok (text, after) →
      (node.markup frames).Shows text node.declared) : node.Marked := by
  constructor
  · intro frames emitted done
    rw [rendered] at done
    cases done
  · intro frames after text done
    rw [rendered] at done
    obtain ⟨⟨text, _⟩, first, ⟨⟩⟩ := Except.bind_eq_ok.mp done
    have shown : (node.markup frames).terminated.Shows (text ++ ";\n") (node.declared ++ []) :=
      (statement first).append .own
    rw [Node.statementMarkup, other]
    rwa [List.append_nil] at shown

/-- A statement that declares nothing. -/
theorem keepFrames {kind : String} {emit : Frames → Except CompileError String}
    (rendered : node.lexical = .ofStatement kind (Lexical.keepFrames emit))
    (other : node.isReturn = false)
    (statement : ∀ {frames text}, emit frames = .ok text →
      (node.markup frames).Shows text node.declared) : node.Marked := by
  apply ofStatement rendered other
  intro frames after text done
  exact statement (Lexical.keepFrames_eq_ok.mp done).1

theorem unhandled {kind : String} (rendered : node.lexical = .unhandled kind) : node.Marked := by
  constructor
  · intro frames emitted done
    rw [rendered] at done
    cases done
  · intro frames after text done
    rw [rendered] at done
    cases done

end Node.Marked

section Parts

variable {frames after : Frames} {text : String}

theorem markups_show {arguments : List Node} (parts : ∀ n ∈ arguments, n.Marked)
    {types : List Ty} (count : types.length = arguments.length) {position : Nat}
    {texts : List String}
    (done : Lexical.arguments frames position (arguments.map fun n => n.lexical.expression) types =
      .ok texts) :
    List.Forall₂ (fun part text => part.Shows text []) (markups frames arguments) texts := by
  induction arguments generalizing types position texts with
  | nil =>
    cases done
    exact .nil
  | cons argument rest ih =>
    cases types with
    | nil => cases count
    | cons expected others =>
      obtain ⟨a, first, -, more, next, rfl⟩ := Lexical.arguments_cons_eq_ok.mp done
      have shown := (parts argument (by simp)).expression first
      exact .cons shown (ih (fun n hn => parts n (by simp [hn])) (Nat.succ.inj count) next)

theorem fieldMarkups_eq_map (fields : List (String × Node)) :
    fieldMarkups frames fields = fields.map fun field => (field.1, field.2.markup frames) := by
  induction fields with
  | nil => rw [fieldMarkups, List.map_nil]
  | cons field rest ih =>
    obtain ⟨name, node⟩ := field
    rw [fieldMarkups, ih, List.map_cons]

theorem entries_show {fields : List (String × Node)} (parts : ∀ f ∈ fields, f.2.Marked)
    {declared : List (String × Ty)}
    (done : Lexical.entries (fields.map fun f => (f.1, f.2.lexical.expression)) frames declared =
      .ok text) :
    (Markup.entries (fieldMarkups frames fields) declared).Shows text [] := by
  induction declared generalizing text with
  | nil =>
    cases done
    exact .empty
  | cons field rest ih =>
    obtain ⟨name, expected⟩ := field
    obtain ⟨_, found, value, first, -, others, next, rfl⟩ := Lexical.entries_cons_eq_ok.mp done
    rw [Fields.lookup_map fun node : Node => node.lexical.expression, Option.map_eq_some_iff] at found
    obtain ⟨node, found, rfl⟩ := found
    have shown := (parts _ (Fields.mem_of_lookup found)).expression first
    have more := ih next
    rw [Markup.entries, fieldMarkups_eq_map, Fields.lookup_map fun node : Node => node.markup frames,
      found, Option.map_some, Option.getD_some, ← fieldMarkups_eq_map]
    exact (((Markup.Shows.quoted.append .own).append shown).append .own).append more

theorem body_shows {nodes : List Node} (parts : ∀ n ∈ nodes, n.Marked)
    (done : LexicalRendering.body (lexicals nodes) frames = .ok (text, after)) :
    (bodyMarkup frames nodes).Shows text (nodes.flatMap Node.declared) := by
  rw [lexicals_eq_map, LexicalRendering.body, List.map_map] at done
  induction nodes generalizing frames text with
  | nil =>
    cases done
    exact .empty
  | cons node rest ih =>
    rw [List.map_cons] at done
    obtain ⟨first, middle, stated, others, next, rfl⟩ := Lexical.statements_cons_eq_ok.mp done
    have formed := node.checked.statement.mp ⟨first, stated⟩
    rw [formed.after_eq] at next
    have shown := (parts node (by simp)).statement stated
    have more := ih (fun n hn => parts n (by simp [hn])) next
    rw [bodyMarkup, List.flatMap_cons]
    exact shown.append more

theorem block_shows {nodes : List Node} (parts : ∀ n ∈ nodes, n.Marked)
    (done : Lexical.block (LexicalRendering.body (lexicals nodes)) frames = .ok text) :
    (Markup.block (bodyMarkup (BodyKind.block.frame :: frames) nodes)).Shows text [] := by
  obtain ⟨statements, outer, inside, rfl⟩ := Lexical.block_eq_ok.mp done
  exact .block (body_shows parts inside)

theorem condition_shows {condition : Node} (marked : condition.Marked) {site : Site}
    (done : Lexical.condition condition.lexical.expression site frames = .ok text) :
    (condition.markup frames).Shows text [] := by
  obtain ⟨value, first, -, rfl⟩ := Lexical.condition_eq_ok.mp done
  exact marked.expression first

theorem function_shows {parameters : List String} {types : List Ty} {nodes : List Node}
    (parts : ∀ n ∈ nodes, n.Marked)
    (done : Lexical.function parameters types (LexicalRendering.body (lexicals nodes)) frames =
      .ok text) :
    (Markup.function parameters
      (bodyMarkup (⟨parameters.zip types, true⟩ :: frames) nodes)).Shows text [] := by
  obtain ⟨count, inner, declared, statements, outer, inside, rfl⟩ := Lexical.function_eq_ok.mp done
  obtain ⟨valid, -, -, rfl⟩ := (declareParameters_eq_ok count).mp declared
  exact .function valid (body_shows parts inside)

theorem scalar_shows {p : Primitive} {value : Option Payload} {parameters : List String}
    {body : Lexical.Body} {fields : List (String × Lexical.Expression)}
    (done : Lexical.payload (.prim p) (.prim p) value parameters body fields frames = .ok text) :
    (Payload.scalar (.prim p) value).Shows text [] := by
  cases Lexical.payload_prim.mp ⟨text, done⟩ with
  | bool b =>
    rw [← Except.ok.inj done]
    cases b <;> exact .own
  | str text =>
    rw [← Except.ok.inj done]
    exact .quoted
  | null =>
    rw [← Except.ok.inj done]
    exact .own
  | type lowered =>
    obtain ⟨described, inner, built⟩ := Except.bind_eq_ok.mp done
    rw [Payload.scalar, inner]
    exact described.markup_shows text built
  | _ =>
    rw [← Except.ok.inj done]
    exact .numeral

end Parts

theorem literal_marked {descriptor : Node} {payload : Option Payload} {parameters : List String}
    {nodes : List Node} (fieldParts : ∀ f ∈ Payload.entries payload, f.2.Marked)
    (bodyParts : ∀ n ∈ nodes, n.Marked) :
    (Node.literal descriptor payload parameters nodes).Marked := by
  apply Node.Marked.ofExpression (Node.lexical_literal ..) rfl
  intro frames emitted done
  obtain ⟨tag, tagged, type, lowered, inner, filled, constructor, built, rfl⟩ :=
    Lexical.literal_eq_ok.mp done
  rw [Node.descriptorTag_of_lower lowered] at tagged
  cases tagged
  have typed := type.markup_shows constructor built
  cases type with
  | prim p =>
    have scalar := (scalar_shows filled).value typed
    cases payload with
    | none =>
      simp only [Node.markup, lowered]
      exact scalar
    | some payload =>
      simp only [Node.markup, lowered]
      exact scalar
  | fn types returns =>
    obtain ⟨rfl, filled⟩ := Lexical.payload_fn.mp filled
    simp only [Node.markup, lowered]
    exact (function_shows bodyParts filled).value typed
  | obj declared =>
    obtain ⟨⟨given, rfl⟩, filled⟩ := Lexical.payload_obj.mp filled
    obtain ⟨-, texts, listed, rfl⟩ := Lexical.object_eq_ok.mp filled
    simp only [Node.markup, lowered]
    exact (Markup.Shows.between (entries_show fieldParts listed)).value typed
  | list => cases built

/-- Every node emits its marked text. -/
theorem Node.marked (node : Node) : node.Marked := by
  induction node with
  | bind name value ih =>
    apply Node.Marked.ofStatement rfl rfl
    intro frames after text done
    obtain ⟨valid, v, first, declared, rfl⟩ := Lexical.bind_eq_ok.mp done
    exact ((Markup.Shows.own.append (.binder valid)).append .own).append (ih.expression first)
  | assign target value _ ih =>
    apply Node.Marked.keepFrames rfl rfl
    intro frames text done
    obtain ⟨name, rfl, declared, found, v, first, -, rfl⟩ := Lexical.assign_eq_ok.mp done
    exact (Markup.Shows.use.append .own).append (ih.expression first)
  | ret value ih =>
    constructor
    · intro frames emitted done
      rw [Node.lexical_ret] at done
      cases done
    · intro frames after text done
      rw [Node.lexical_ret] at done
      obtain ⟨left, first, ⟨⟩⟩ := Except.bind_eq_ok.mp done
      rcases Lexical.ret_eq_ok.mp first with ⟨outside, rfl⟩ | ⟨inside, left⟩
      · rw [Bool.not_eq_true] at outside
        rw [Node.statementMarkup, outside]
        exact .empty
      · rw [Node.statementMarkup, inside]
        cases value with
        | none =>
          cases left
          exact Markup.Shows.own.append .own
        | some value =>
          obtain ⟨v, returned, rfl⟩ := left
          exact (Markup.Shows.own.append ((ih value rfl).expression returned)).append .own
  | branch condition body otherwise conditionIH bodyIH otherwiseIH =>
    apply Node.Marked.keepFrames (Node.lexical_branch condition body otherwise) rfl
    intro frames text done
    obtain ⟨t, first, b, second, last⟩ := Lexical.branch_eq_ok.mp done
    have tested := condition_shows conditionIH first
    have inside := block_shows bodyIH second
    cases otherwise with
    | none =>
      cases last
      exact (Markup.Shows.between tested).append inside
    | some otherwise =>
      obtain ⟨o, third, rfl⟩ := last
      have outside := block_shows (otherwiseIH _ rfl) third
      exact (((Markup.Shows.between tested).append inside).append .own).append outside
  | loop condition body conditionIH bodyIH =>
    apply Node.Marked.keepFrames rfl rfl
    intro frames text done
    obtain ⟨t, first, b, second, rfl⟩ := Lexical.loop_eq_ok.mp done
    have tested := condition_shows conditionIH first
    exact (Markup.Shows.between tested).append (block_shows bodyIH second)
  | ident name =>
    apply Node.Marked.ofExpression rfl rfl
    intro frames emitted done
    obtain ⟨type, found, rfl⟩ := Lexical.identifier_eq_ok.mp done
    exact .use
  | literal type payload parameters body _ _ fieldsIH bodyIH =>
    exact literal_marked fieldsIH bodyIH
  | new target =>
    apply Node.Marked.ofExpression rfl rfl
    intro frames emitted done
    have derived : (Node.new target).derived frames = some emitted.type :=
      Node.derived_of_lexical done
    obtain ⟨type, lowered, constructor, built, rfl⟩ := Lexical.newValue_eq_ok.mp done
    exact (Node.typeMarkup_shows derived built).append .own
  | binary op left right leftIH rightIH =>
    apply Node.Marked.ofExpression rfl rfl
    intro frames emitted done
    have derived : (Node.binary op left right).derived frames = some emitted.type :=
      Node.derived_of_lexical done
    obtain ⟨l, first, r, second, -, -, constructor, built, rfl⟩ := Lexical.binary_eq_ok.mp done
    rw [Node.markup, Node.derived_of_lexical first]
    have computed := (leftIH.expression first).operation op l.type (rightIH.expression second)
    exact computed.value (Node.typeMarkup_shows derived built)
  | unary op operand ih =>
    apply Node.Marked.ofExpression rfl rfl
    intro frames emitted done
    obtain ⟨o, first, -, constructor, built, rfl⟩ := Lexical.unary_eq_ok.mp done
    have typed := Node.typeMarkup_shows (Node.derived_of_lexical first) built
    exact (((Markup.Shows.own.append .own).append (ih.expression first)).append .own).value typed
  | call callee arguments calleeIH argumentsIH =>
    apply Node.Marked.ofExpression (Node.lexical_call callee arguments) rfl
    intro frames emitted done
    obtain ⟨c, types, returns, first, count, texts, second, rfl⟩ := Lexical.call_eq_ok.mp done
    have given := markups_show argumentsIH (by simpa using count) second
    exact (((calleeIH.expression first).append .own).append (.separated given)).append .own
  | member => exact .unhandled rfl
  | element => exact .unhandled rfl
  | type => exact .unhandled rfl
  | unknown => exact .unhandled rfl

/-! ## Programs -/

namespace Program

variable {program : Program} {artifact : Artifact}

/-- The marked text of a program that compiles: its output, and the names it declares at its top. -/
theorem body_shows_output (compiled : program.compile = .ok artifact) :
    (bodyMarkup Frames.root program).Shows artifact.output program.topNames := by
  rw [compile_eq_compileLexically] at compiled
  obtain ⟨⟨output, after⟩, done, ⟨⟩⟩ := Except.bind_eq_ok.mp compiled
  exact body_shows (fun n _ => n.marked) done

theorem names_bindings (compiled : program.compile = .ok artifact) :
    Fields.names artifact.bindings = program.topNames := by
  obtain ⟨after, formed, bindings⟩ := wellFormed_of_compile compiled
  rw [bindings, formed.after_eq, Frames.root, Frames.symbols_extend, List.nil_append]
  exact formed.names_symbols

theorem render_logged (name : String) :
    (Markup.logged name).render =
      "console.log(" ++ Text.quote (name ++ ":") ++ ");\nconsole.log(" ++ name ++ ");\n" := by
  have log : "console.log(" = "console" ++ ".log(" := by decide
  have again : ");\nconsole.log(" = ");\n" ++ "console" ++ ".log(" := by decide
  rw [log, again]
  simp only [← String.append_assoc]
  rfl

theorem render_dump (names : List String) :
    (Markup.dump names).render = String.join (names.map fun name => (Markup.logged name).render) := by
  unfold Markup.dump
  induction names with
  | nil => rfl
  | cons name rest ih =>
    rw [List.map_cons, List.map_cons, String.join_cons, ← ih]
    rfl

theorem render_bindRuntime (path : String) :
    (Markup.bindRuntime path).render = Host.bindRuntime path := by
  have requires : " = " ++ "require" ++ "(" = " = require(" := by decide
  unfold Host.bindRuntime
  rw [← requires]
  simp only [← String.append_assoc]
  rfl

/-- All that is written for a program is its marked text. -/
theorem render_markup (compiled : program.compile = .ok artifact) (runtime : String) :
    (program.markup runtime).render = artifact.withRuntime runtime ++ artifact.bindings.dump := by
  have output := (body_shows_output compiled).render
  have logged : (Markup.dump program.topNames).render = artifact.bindings.dump := by
    simp only [render_dump, render_logged]
    rw [← names_bindings compiled, Fields.names, List.map_map]
    rfl
  show (Markup.bindRuntime runtime).render ++ (bodyMarkup Frames.root program).render ++
    (Markup.dump program.topNames).render = _
  rw [render_bindRuntime, output, logged]
  rfl

end Program

end Arbor
