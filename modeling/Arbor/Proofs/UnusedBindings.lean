import Arbor.Proofs.BodyTyping
import Arbor.Proofs.Lookups

/-!
# Bindings that nothing uses

A `let` at the top whose name no identifier behind it bears, and no `let` at the top declares again,
can be put in or taken out: what stands behind it compiles to the same text or fails with the same
error. The two compilations run in stacks of frames that differ by one entry of the outermost frame
(`Frames.Gains`). A node that does not name the entry gives the same in both, and leaves stacks that
differ in the same way.
-/

namespace Arbor

mutual

/-- The names of the identifiers in a node, at any depth and in type descriptors too. -/
def Node.identifiers : Node → List String
  | .bind _ value => value.identifiers
  | .assign target value => target.identifiers ++ value.identifiers
  | .ret none => []
  | .ret (some value) => value.identifiers
  | .branch test body none => test.identifiers ++ identifiersOf body
  | .branch test body (some otherwise) =>
    test.identifiers ++ identifiersOf body ++ identifiersOf otherwise
  | .loop test body => test.identifiers ++ identifiersOf body
  | .ident name => [name]
  | .literal type none _ body => type.identifiers ++ identifiersOf body
  | .literal type (some payload) _ body =>
    type.identifiers ++ payload.identifiers ++ identifiersOf body
  | .new target => target.identifiers
  | .binary _ left right => left.identifiers ++ right.identifiers
  | .unary _ operand => operand.identifiers
  | .call callee arguments => callee.identifiers ++ identifiersOf arguments
  | .member object _ => object.identifiers
  | .element object index => object.identifiers ++ index.identifiers
  | .type _ _ parameters none fields => identifiersOf parameters ++ fieldIdentifiers fields
  | .type _ _ parameters (some returns) fields =>
    identifiersOf parameters ++ returns.identifiers ++ fieldIdentifiers fields
  | .unknown _ => []

/-- The names of the identifiers in nodes. -/
def identifiersOf : List Node → List String
  | [] => []
  | node :: rest => node.identifiers ++ identifiersOf rest

/-- The names of the identifiers in the nodes of a table. -/
def fieldIdentifiers : List (String × Node) → List String
  | [] => []
  | (_, node) :: rest => node.identifiers ++ fieldIdentifiers rest

/-- The names of the identifiers in a payload. -/
def Payload.identifiers : Payload → List String
  | .node node => node.identifiers
  | .fields fields => fieldIdentifiers fields
  | _ => []

end

@[simp] theorem mem_identifiersOf {name : String} {nodes : List Node} :
    name ∈ identifiersOf nodes ↔ ∃ node ∈ nodes, name ∈ node.identifiers := by
  induction nodes with
  | nil => simp [identifiersOf]
  | cons node rest ih => simp [identifiersOf, ih]

@[simp] theorem mem_fieldIdentifiers {name : String} {fields : List (String × Node)} :
    name ∈ fieldIdentifiers fields ↔ ∃ field ∈ fields, name ∈ field.2.identifiers := by
  induction fields with
  | nil => simp [fieldIdentifiers]
  | cons field rest ih => simp [fieldIdentifiers, ih]

theorem mem_identifiers_branch {name : String} {condition : Node} {body : List Node}
    {otherwise : Option (List Node)} :
    name ∈ (Node.branch condition body otherwise).identifiers ↔ name ∈ condition.identifiers ∨
      (∃ node ∈ body, name ∈ node.identifiers) ∨
        ∃ other ∈ otherwise, ∃ node ∈ other, name ∈ node.identifiers := by
  cases otherwise <;> simp [Node.identifiers]

section

variable {name : String} {type node : Node} {payload : Option Payload} {parameters : List String}
  {body : List Node}

theorem mem_identifiers_of_body (member : node ∈ body) (used : name ∈ node.identifiers) :
    name ∈ (Node.literal type payload parameters body).identifiers := by
  have inside : name ∈ identifiersOf body := mem_identifiersOf.mpr ⟨node, member, used⟩
  cases payload <;> exact List.mem_append_right _ inside

theorem mem_identifiers_of_field {field : String × Node} (member : field ∈ Payload.entries payload)
    (used : name ∈ field.2.identifiers) :
    name ∈ (Node.literal type payload parameters body).identifiers := by
  cases payload with
  | none => cases member
  | some payload =>
    cases payload with
    | fields table =>
      have inside : name ∈ fieldIdentifiers table := mem_fieldIdentifiers.mpr ⟨field, member, used⟩
      exact List.mem_append_left _ (List.mem_append_right _ inside)
    | _ => cases member

end

/-! ## Stacks that differ by one entry -/

/-- Of two stacks the second has one entry more, in the outermost frame and behind `before`. So many
frames as `depth` says lie inside, the same in both. -/
inductive Frames.Gains (before : List (String × Ty)) (entry : String × Ty) :
    Nat → Frames → Frames → Prop where
  | root (symbols : List (String × Ty)) (isFunction : Bool) :
      Gains before entry 0 [⟨before ++ symbols, isFunction⟩]
        [⟨before ++ entry :: symbols, isFunction⟩]
  | inside (frame : Frame) {depth : Nat} {frames wider : Frames} :
      Gains before entry depth frames wider →
        Gains before entry (depth + 1) (frame :: frames) (frame :: wider)

namespace Frames.Gains

variable {before : List (String × Ty)} {entry : String × Ty} {depth : Nat} {frames wider : Frames}

theorem inFunction (gains : Gains before entry depth frames wider) :
    wider.inFunction = frames.inFunction := by
  induction gains with
  | root symbols isFunction => rfl
  | inside frame _ ih =>
    change (frame.isFunction || Frames.inFunction _) = (frame.isFunction || Frames.inFunction _)
    rw [ih]

/-- The entry hides nothing from other names. -/
theorem type? (gains : Gains before entry depth frames wider) {name : String}
    (other : name ≠ entry.1) : wider.type? name = frames.type? name := by
  induction gains with
  | root symbols isFunction =>
    obtain ⟨added, type⟩ := entry
    have missed : (name == added) = false := by simpa using other
    simp [Frames.type?, List.lookup_append, List.lookup_cons, missed]
  | inside frame _ ih =>
    unfold Frames.type? at ih ⊢
    rw [List.findSome?_cons, List.findSome?_cons, ih]

/-- A name other than that of the entry is declared alike. So is any name in a frame further in. -/
theorem declare (gains : Gains before entry depth frames wider) (name : String) (type : Ty)
    (apart : depth = 0 → name ≠ entry.1) :
    (∃ e, frames.declare name type = .error e ∧ wider.declare name type = .error e) ∨
      ∃ after others, frames.declare name type = .ok after ∧ wider.declare name type = .ok others ∧
        Gains before entry depth after others := by
  cases gains with
  | root symbols isFunction =>
    have missed : (entry.1 == name) = false := by simpa using (apart rfl).symm
    have taken : ((before ++ entry :: symbols).any fun e => e.1 == name) =
        (before ++ symbols).any fun e => e.1 == name := by
      simp [missed]
    rw [Frames.declare, Frames.declare]
    dsimp only
    rw [taken]
    split
    · exact .inl ⟨_, rfl, rfl⟩
    · refine .inr ⟨_, _, rfl, rfl, ?_⟩
      have gains : Gains before entry 0 _ _ := .root (symbols ++ [(name, type)]) isFunction
      simpa [Frames.extend] using gains
  | inside frame gains =>
    rw [Frames.declare, Frames.declare]
    split
    · exact .inl ⟨_, rfl, rfl⟩
    · exact .inr ⟨_, _, rfl, rfl, .inside _ gains⟩

end Frames.Gains

namespace Lexical

/-- Two computations fail alike, or give the same and leave stacks that differ by the entry. -/
inductive Parallel (before : List (String × Ty)) (entry : String × Ty) (depth : Nat) {α : Type} :
    Except CompileError (α × Frames) → Except CompileError (α × Frames) → Prop where
  | error (e : CompileError) : Parallel before entry depth (.error e) (.error e)
  | ok (a : α) {frames wider : Frames} : Frames.Gains before entry depth frames wider →
      Parallel before entry depth (.ok (a, frames)) (.ok (a, wider))

variable {before : List (String × Ty)} {entry : String × Ty} {depth : Nat} {frames wider : Frames}

section

variable {α β : Type} {x y : Except CompileError (α × Frames)}

/-- What is made of the results alone is the same. -/
theorem Parallel.text (parallel : Parallel before entry depth x y)
    (make : α → Except CompileError β) :
    (y >>= fun result => make result.1) = x >>= fun result => make result.1 := by
  cases parallel <;> rfl

theorem Parallel.bind {f g : α × Frames → Except CompileError (β × Frames)}
    (parallel : Parallel before entry depth x y)
    (next : ∀ a frames wider, Frames.Gains before entry depth frames wider →
      Parallel before entry depth (f (a, frames)) (g (a, wider))) :
    Parallel before entry depth (x >>= f) (y >>= g) := by
  cases parallel with
  | error e => exact .error e
  | ok a gains => exact next a _ _ gains

/-- A result that comes with the stacks as they are. -/
theorem Parallel.keep {made other : Except CompileError β}
    (gains : Frames.Gains before entry depth frames wider) (same : other = made) (make : β → α) :
    Parallel before entry depth (made >>= fun b => .ok (make b, frames))
      (other >>= fun b => .ok (make b, wider)) := by
  subst same
  cases other with
  | error e => exact .error e
  | ok b => exact .ok (make b) gains

end

/-! ## One construct after another -/

theorem resolve_gains (gains : Frames.Gains before entry depth frames wider) {name : String}
    (other : name ≠ entry.1) : resolve name wider = resolve name frames := by
  rw [resolve, resolve, gains.type? other]

theorem arguments_congr {args : List Expression} (same : ∀ arg ∈ args, arg wider = arg frames)
    (position : Nat) (types : List Ty) :
    arguments wider position args types = arguments frames position args types := by
  induction args generalizing position types with
  | nil => rfl
  | cons arg rest ih =>
    cases types with
    | nil => rfl
    | cons type types =>
      have others := ih (fun arg member => same arg (by simp [member])) (position + 1) types
      simp only [arguments, same arg (by simp), others]

theorem entries_congr {fields : List (String × Expression)}
    (same : ∀ field ∈ fields, field.2 wider = field.2 frames) (declared : List (String × Ty)) :
    entries fields wider declared = entries fields frames declared := by
  induction declared with
  | nil => rfl
  | cons field rest ih =>
    obtain ⟨name, expected⟩ := field
    rw [entries, entries]
    cases found : fields.lookup name with
    | none => rfl
    | some value =>
      have here : value wider = value frames := same _ (Fields.mem_of_lookup found)
      simp only [here, ih]

theorem declareParameters_gains {parameters : List String} {types : List Ty}
    (gains : Frames.Gains before entry (depth + 1) frames wider) :
    (∃ e, declareParameters parameters types frames = .error e ∧
      declareParameters parameters types wider = .error e) ∨
    ∃ inner others, declareParameters parameters types frames = .ok inner ∧
      declareParameters parameters types wider = .ok others ∧
        Frames.Gains before entry (depth + 1) inner others := by
  induction parameters generalizing types frames wider with
  | nil => exact .inr ⟨frames, wider, rfl, rfl, gains⟩
  | cons name names ih =>
    cases types with
    | nil => exact .inr ⟨frames, wider, rfl, rfl, gains⟩
    | cons type types =>
      rw [declareParameters, declareParameters]
      split
      · rcases gains.declare name type (by simp) with
          ⟨e, failed, alike⟩ | ⟨after, others, done, alike, gains⟩
        · rw [failed, alike]
          exact .inl ⟨e, rfl, rfl⟩
        · rw [done, alike]
          exact ih gains
      · exact .inl ⟨_, rfl, rfl⟩

/-- A body gives the same in stacks that differ by the entry, and leaves such stacks. -/
def Body.Ignores (entry : String × Ty) (body : Body) : Prop :=
  ∀ before depth frames wider, Frames.Gains before entry (depth + 1) frames wider →
    Parallel before entry (depth + 1) (body frames) (body wider)

theorem block_gains {body : Body} (ignores : body.Ignores entry)
    (gains : Frames.Gains before entry depth frames wider) : block body wider = block body frames :=
  (ignores _ _ _ _ (.inside ⟨[], false⟩ gains)).text fun statements =>
    .ok ("\x7b\n" ++ statements ++ "\x7d")

theorem function_gains {body : Body} (ignores : body.Ignores entry)
    (gains : Frames.Gains before entry depth frames wider) (parameters : List String)
    (types : List Ty) :
    function parameters types body wider = function parameters types body frames := by
  rw [function, function]
  split
  · rcases declareParameters_gains (.inside ⟨[], true⟩ gains) with
      ⟨e, failed, alike⟩ | ⟨inner, others, done, alike, gains⟩
    · rw [failed, alike]
    · rw [done, alike]
      exact (ignores _ _ _ _ gains).text fun statements =>
        .ok ("(" ++ String.intercalate "," parameters ++ ") => \x7b\n" ++ statements ++ "\x7d")
  · rfl

theorem literal_gains {body : Body} (ignores : body.Ignores entry)
    {fields : List (String × Expression)}
    (same : ∀ field ∈ fields, field.2 wider = field.2 frames)
    (gains : Frames.Gains before entry depth frames wider) (descriptor : Node)
    (value : Option Payload) (parameters : List String) :
    literal descriptor value parameters body fields wider =
      literal descriptor value parameters body fields frames := by
  have functions := function_gains ignores gains parameters
  have objects (declared : List (String × Ty)) :
      object fields declared wider = object fields declared frames := by
    simp only [object, entries_congr same]
  simp only [literal, payload, functions, objects]

theorem bind_gains {name : String} {value : Expression} (same : value wider = value frames)
    (gains : Frames.Gains before entry depth frames wider) (apart : depth = 0 → name ≠ entry.1) :
    Parallel before entry depth (bind name value frames) (bind name value wider) := by
  rw [bind, bind, same]
  split
  · cases value frames with
    | error e => exact .error e
    | ok v =>
      change Parallel before entry depth (frames.declare name v.type >>= _)
        (wider.declare name v.type >>= _)
      rcases gains.declare name v.type apart with
        ⟨e, failed, alike⟩ | ⟨after, others, done, alike, gains⟩
      · rw [failed, alike]
        exact .error e
      · rw [done, alike]
        exact .ok _ gains
  · exact .error _

theorem assign_gains {target : Node} {value : Expression} (same : value wider = value frames)
    (gains : Frames.Gains before entry depth frames wider)
    (unused : entry.1 ∉ target.identifiers) :
    assign target value wider = assign target value frames := by
  cases target with
  | ident name =>
    have other : name ≠ entry.1 := by
      rintro rfl
      simp [Node.identifiers] at unused
    simp only [assign, resolve_gains gains other, same]
  | _ => rfl

theorem ret_gains {value : Option Expression} (same : ∀ v ∈ value, v wider = v frames)
    (gains : Frames.Gains before entry depth frames wider) :
    ret value wider = ret value frames := by
  unfold ret
  rw [gains.inFunction]
  cases value with
  | none => rfl
  | some value => simp only [same value rfl]

theorem condition_congr {value : Expression} (same : value wider = value frames) (site : Site) :
    condition value site wider = condition value site frames := by
  rw [condition, condition, same]

theorem branch_gains {test : Expression} {body : Body} {otherwise : Option Body}
    (same : test wider = test frames) (inside : body.Ignores entry)
    (others : ∀ other ∈ otherwise, Body.Ignores entry other)
    (gains : Frames.Gains before entry depth frames wider) :
    branch test body otherwise wider = branch test body otherwise frames := by
  unfold branch
  rw [condition_congr same, block_gains inside gains]
  cases otherwise with
  | none => rfl
  | some other => simp only [block_gains (others other rfl) gains]

end Lexical

/-! ## Nodes -/

/-- A node gives the same in stacks that differ by the entry. As a statement of the outermost body
it must not declare the entry's name. -/
structure Node.Ignores (entry : String × Ty) (node : Node) : Prop where
  expression : ∀ {before depth frames wider}, Frames.Gains before entry depth frames wider →
    node.lexical.expression wider = node.lexical.expression frames
  statement : ∀ {before depth frames wider}, Frames.Gains before entry depth frames wider →
    (depth = 0 → entry.1 ∉ node.declared) →
      Lexical.Parallel before entry depth (node.lexical.statement frames)
        (node.lexical.statement wider)

namespace Node.Ignores

variable {entry : String × Ty} {node : Node} {kind : String}

theorem ofExpression {emit : Lexical.Expression} (rendered : node.lexical = .ofExpression emit)
    (same : ∀ {before depth frames wider}, Frames.Gains before entry depth frames wider →
      emit wider = emit frames) : node.Ignores entry where
  expression gains := by
    rw [rendered]
    exact same gains
  statement gains _ := by
    rw [rendered]
    exact .keep gains (same gains) fun value => some value.text

theorem ofStatement {emit : Lexical.Statement} (rendered : node.lexical = .ofStatement kind emit)
    (parallel : ∀ {before depth frames wider}, Frames.Gains before entry depth frames wider →
      (depth = 0 → entry.1 ∉ node.declared) →
        Lexical.Parallel before entry depth (emit frames) (emit wider)) : node.Ignores entry where
  expression gains := by
    rw [rendered]
    rfl
  statement gains undeclared := by
    rw [rendered]
    exact (parallel gains undeclared).bind fun text _ _ gains => .ok (some text) gains

theorem keepFrames {emit : Frames → Except CompileError String}
    (rendered : node.lexical = .ofStatement kind (Lexical.keepFrames emit))
    (same : ∀ {before depth frames wider}, Frames.Gains before entry depth frames wider →
      emit wider = emit frames) : node.Ignores entry :=
  .ofStatement rendered fun gains _ => .keep gains (same gains) id

theorem ofReturn {value : Option Node} (parts : ∀ v ∈ value, v.Ignores entry) :
    (Node.ret value).Ignores entry where
  expression gains := by
    rw [Node.lexical_ret]
    rfl
  statement gains _ := by
    rw [Node.lexical_ret]
    refine .keep gains (Lexical.ret_gains ?_ gains) id
    intro v member
    obtain ⟨_, inside, rfl⟩ := Option.map_eq_some_iff.mp member
    obtain ⟨node, given, rfl⟩ := Option.map_eq_some_iff.mp inside
    exact (parts node given).expression gains

theorem unhandled (rendered : node.lexical = .unhandled kind) : node.Ignores entry where
  expression gains := by
    rw [rendered]
    rfl
  statement gains _ := by
    rw [rendered]
    exact .error _

end Node.Ignores

section

variable {entry : String × Ty} {before : List (String × Ty)} {depth : Nat} {frames wider : Frames}

/-- Statements one behind the other. -/
theorem body_gains {nodes : List Node} (parts : ∀ n ∈ nodes, n.Ignores entry)
    (gains : Frames.Gains before entry depth frames wider)
    (undeclared : depth = 0 → entry.1 ∉ nodes.flatMap Node.declared) :
    Lexical.Parallel before entry depth (LexicalRendering.body (lexicals nodes) frames)
      (LexicalRendering.body (lexicals nodes) wider) := by
  induction nodes generalizing frames wider with
  | nil => exact .ok "" gains
  | cons node rest ih =>
    have here : depth = 0 → entry.1 ∉ node.declared := by
      intro outermost member
      exact undeclared outermost (by simp [member])
    have behind : depth = 0 → entry.1 ∉ rest.flatMap Node.declared := by
      intro outermost member
      exact undeclared outermost (by rw [List.flatMap_cons]; exact List.mem_append_right _ member)
    refine ((parts node (by simp)).statement gains here).bind fun first frames wider gains => ?_
    have others := ih (fun n member => parts n (by simp [member])) gains behind
    exact others.bind fun more frames wider gains => .ok (Emit.terminated first ++ more) gains

theorem body_ignores {nodes : List Node} (parts : ∀ n ∈ nodes, n.Ignores entry) :
    Lexical.Body.Ignores entry (LexicalRendering.body (lexicals nodes)) :=
  fun _ _ _ _ gains => body_gains parts gains (by simp)

/-- A node in which no identifier bears the name of the entry does not tell the stacks apart. -/
theorem Node.ignores {node : Node} (unused : entry.1 ∉ node.identifiers) : node.Ignores entry := by
  induction node with
  | bind name value ih =>
    have ignores := ih unused
    refine .ofStatement rfl fun gains undeclared => ?_
    have apart {depth : Nat} (undeclared : depth = 0 → entry.1 ∉ [name]) :
        depth = 0 → name ≠ entry.1 := fun outermost same => undeclared outermost (by simp [same])
    exact Lexical.bind_gains (ignores.expression gains) gains (apart undeclared)
  | assign target value _ ih =>
    simp only [identifiers, List.mem_append, not_or] at unused
    have ignores := ih unused.2
    exact .keepFrames rfl fun gains =>
      Lexical.assign_gains (ignores.expression gains) gains unused.1
  | ret value ih =>
    have parts : ∀ v ∈ value, v.Ignores entry := by
      rintro v rfl
      exact ih v rfl unused
    exact .ofReturn parts
  | branch condition body otherwise conditionIH bodyIH otherwiseIH =>
    rw [mem_identifiers_branch, not_or, not_or] at unused
    obtain ⟨unusedTest, unusedBody, unusedOther⟩ := unused
    have test := conditionIH unusedTest
    have inside := body_ignores fun n member => bodyIH n member fun used =>
      unusedBody ⟨n, member, used⟩
    have others : ∀ other ∈ otherwise.map fun other => LexicalRendering.body (lexicals other),
        Lexical.Body.Ignores entry other := by
      intro other member
      obtain ⟨nodes, given, rfl⟩ := Option.map_eq_some_iff.mp member
      exact body_ignores fun n inside => otherwiseIH nodes given n inside fun used =>
        unusedOther ⟨nodes, given, n, inside, used⟩
    exact .keepFrames (Node.lexical_branch condition body otherwise) fun gains =>
      Lexical.branch_gains (test.expression gains) inside others gains
  | loop condition body conditionIH bodyIH =>
    simp only [identifiers, List.mem_append, mem_identifiersOf, not_or, not_exists,
      not_and] at unused
    have test := conditionIH unused.1
    have inside := body_ignores fun n member => bodyIH n member (unused.2 n member)
    refine .keepFrames rfl fun gains => ?_
    simp only [Lexical.loop, Lexical.condition_congr (test.expression gains),
      Lexical.block_gains inside gains]
  | ident name =>
    simp only [identifiers, List.mem_singleton] at unused
    refine .ofExpression rfl fun gains => ?_
    simp only [Lexical.identifier, Lexical.resolve_gains gains (Ne.symm unused)]
  | literal type payload parameters body _ _ fieldsIH bodyIH =>
    -- The descriptor is lowered without a stack: only the body and the fields can ask for names.
    have inside := body_ignores fun n member => bodyIH n member fun used =>
      unused (mem_identifiers_of_body member used)
    refine .ofExpression (Node.lexical_literal type payload parameters body) fun gains => ?_
    refine Lexical.literal_gains inside ?_ gains type payload parameters
    intro field member
    obtain ⟨part, given, rfl⟩ := List.mem_map.mp member
    have ignores := fieldsIH part given fun used =>
      unused (mem_identifiers_of_field given used)
    exact ignores.expression gains
  | new target => exact .ofExpression rfl fun _ => rfl
  | binary op left right leftIH rightIH =>
    simp only [identifiers, List.mem_append, not_or] at unused
    have first := leftIH unused.1
    have last := rightIH unused.2
    refine .ofExpression rfl fun gains => ?_
    simp only [Lexical.binary, first.expression gains, last.expression gains]
  | unary op operand ih =>
    have ignores := ih unused
    refine .ofExpression rfl fun gains => ?_
    simp only [Lexical.unary, ignores.expression gains]
  | call callee arguments calleeIH argumentsIH =>
    simp only [identifiers, List.mem_append, mem_identifiersOf, not_or, not_exists,
      not_and] at unused
    have called := calleeIH unused.1
    refine .ofExpression (Node.lexical_call callee arguments) fun {_ _ frames wider} gains => ?_
    have same : ∀ arg ∈ arguments.map fun n => n.lexical.expression, arg wider = arg frames := by
      intro arg member
      obtain ⟨n, given, rfl⟩ := List.mem_map.mp member
      exact (argumentsIH n given (unused.2 n given)).expression gains
    simp only [Lexical.call, called.expression gains, Lexical.arguments_congr same]
  | member object property => exact .unhandled rfl
  | element object index => exact .unhandled rfl
  | type tag name parameters returns fields => exact .unhandled rfl
  | unknown kind => exact .unhandled rfl

end

/-! ## Programs -/

/-- Statements in two parts: the second part runs in the stack that the first leaves. -/
theorem Lexical.statements_append
    (first last : List (Frames → Except CompileError (Option String × Frames))) (frames : Frames) :
    statements (first ++ last) frames = statements first frames >>= fun one =>
      statements last one.2 >>= fun two => .ok (one.1 ++ two.1, two.2) := by
  induction first generalizing frames with
  | nil =>
    change statements last frames = statements last frames >>= fun two => .ok ("" ++ two.1, two.2)
    simp only [String.empty_append]
    exact (bind_pure _).symm
  | cons statement rest ih =>
    change (statement frames >>= fun one => statements (rest ++ last) one.2 >>= fun others =>
      .ok (Emit.terminated one.1 ++ others.1, others.2)) =
        (statement frames >>= fun one => statements rest one.2 >>= _) >>= _
    simp only [ih, bind_assoc]
    refine bind_congr fun one => bind_congr fun others => ?_
    change (statements last others.2 >>= fun two =>
      .ok (Emit.terminated one.1 ++ (others.1 ++ two.1), two.2)) =
        statements last others.2 >>= fun two =>
          .ok (Emit.terminated one.1 ++ others.1 ++ two.1, two.2)
    simp only [String.append_assoc]

theorem body_append (first last : List Node) (frames : Frames) :
    LexicalRendering.body (lexicals (first ++ last)) frames =
      LexicalRendering.body (lexicals first) frames >>= fun one =>
        LexicalRendering.body (lexicals last) one.2 >>= fun two => .ok (one.1 ++ two.1, two.2) := by
  simp only [lexicals_eq_map, LexicalRendering.body, List.map_append]
  exact Lexical.statements_append _ _ frames

theorem frames_behind_let {name : String} {value : Node} {frames after : Frames} {text : String}
    (done : LexicalRendering.body (lexicals [.bind name value]) frames = .ok (text, after)) :
    ∃ type, after = frames.extend [(name, type)] := by
  cases (body_checked fun n _ => n.checked).mp ⟨text, done⟩ with
  | cons first rest =>
    cases rest
    cases first with
    | bind _ _ _ => exact ⟨_, rfl⟩
    | expression typed => cases typed

namespace Program

theorem compile_append {before : Program} {text : String} {frames : Frames}
    (done : LexicalRendering.body (lexicals before) .root = .ok (text, frames)) (after : Program) :
    compile (before ++ after) = LexicalRendering.body (lexicals after) frames >>= fun last =>
      .ok ⟨text ++ last.1, last.2.symbols⟩ := by
  rw [compile_eq_compileLexically, compileLexically, body_append, done]
  change ((LexicalRendering.body (lexicals after) frames >>= fun two =>
    .ok (text ++ two.1, two.2)) >>= _) = _
  rw [bind_assoc]
  rfl

section

variable {before after : Program} {name : String} {value : Node} {output text : String}
  {symbols : List (String × Ty)} {type : Ty} {given : Artifact}

/-- A `let` at the end of a program adds its text to the output and one entry to the root. -/
theorem body_of_let (compiled : compile (before ++ [.bind name value]) = .ok given) :
    ∃ output symbols text type,
      LexicalRendering.body (lexicals before) .root = .ok (output, [⟨symbols, false⟩]) ∧
      LexicalRendering.body (lexicals (before ++ [.bind name value])) .root =
        .ok (output ++ text, [⟨symbols ++ [(name, type)], false⟩]) ∧
      given = ⟨output ++ text, symbols ++ [(name, type)]⟩ := by
  rw [compile_eq_compileLexically] at compiled
  obtain ⟨⟨whole, last⟩, done, made⟩ := Except.bind_eq_ok.mp compiled
  have parts := done
  rw [body_append] at parts
  obtain ⟨⟨output, frames⟩, first, next⟩ := Except.bind_eq_ok.mp parts
  obtain ⟨⟨text, after⟩, second, same⟩ := Except.bind_eq_ok.mp next
  obtain ⟨rfl, rfl⟩ := Prod.mk.inj (Except.ok.inj same)
  obtain ⟨symbols, rfl⟩ : ∃ symbols, frames = [⟨symbols, false⟩] := by
    obtain ⟨added, rfl⟩ := ((body_checked fun n _ => n.checked).mp ⟨_, first⟩).extends
    exact ⟨_, rfl⟩
  obtain ⟨type, rfl⟩ := frames_behind_let second
  exact ⟨output, symbols, text, type, first, done, (Except.ok.inj made).symm⟩

/-- Behind the `let` and without it, the other statements fail alike or give the same text and
bindings. -/
theorem compile_without_let
    (first : LexicalRendering.body (lexicals before) .root = .ok (output, [⟨symbols, false⟩]))
    (second : LexicalRendering.body (lexicals (before ++ [.bind name value])) .root =
      .ok (output ++ text, [⟨symbols ++ [(name, type)], false⟩]))
    (unused : name ∉ identifiersOf after) (undeclared : name ∉ after.flatMap Node.declared) :
    (∃ e, compile (before ++ after) = .error e ∧
      compile (before ++ .bind name value :: after) = .error e) ∨
    ∃ more bindings, compile (before ++ after) = .ok ⟨output ++ more, symbols ++ bindings⟩ ∧
      compile (before ++ .bind name value :: after) =
        .ok ⟨output ++ text ++ more, symbols ++ (name, type) :: bindings⟩ := by
  rw [List.append_cons, compile_append first, compile_append second]
  have parts : ∀ n ∈ after, n.Ignores (name, type) := by
    intro n member
    exact Node.ignores fun used => unused (mem_identifiersOf.mpr ⟨n, member, used⟩)
  have gains : Frames.Gains symbols (name, type) 0 [⟨symbols ++ [], false⟩]
      [⟨symbols ++ [(name, type)], false⟩] := .root [] false
  rw [List.append_nil] at gains
  have parallel := body_gains parts gains fun _ => undeclared
  -- The results index `parallel`, so its cases are told apart only once they are variables.
  generalize LexicalRendering.body (lexicals after) [⟨symbols, false⟩] = without at parallel ⊢
  generalize LexicalRendering.body (lexicals after) [⟨symbols ++ [(name, type)], false⟩] = within
    at parallel ⊢
  cases parallel with
  | error e => exact .inl ⟨e, rfl, rfl⟩
  | ok more gains =>
    cases gains with
    | root bindings => exact .inr ⟨more, bindings, rfl, rfl⟩

/-- A `let` at the top whose name no identifier behind it bears, and no `let` at the top behind it
declares, can be taken out or put in. The program goes through with it exactly when it goes through
without it, and fails with the same error. Its text has then one statement more, between that of the
statements before and that of the statements behind, and its bindings one entry more in the same
place. -/
theorem unused_binding_removable
    (compiled : compile (before ++ [.bind name value]) = .ok given)
    (unused : name ∉ identifiersOf after) (undeclared : name ∉ after.flatMap Node.declared) :
    ∃ first text type, before.compile = .ok first ∧
      given = ⟨first.output ++ text, first.bindings ++ [(name, type)]⟩ ∧
      ((∃ artifact, compile (before ++ .bind name value :: after) = .ok artifact) ↔
        ∃ artifact, compile (before ++ after) = .ok artifact) ∧
      (∀ artifact, compile (before ++ after) = .ok artifact →
        ∃ output bindings, artifact = ⟨first.output ++ output, first.bindings ++ bindings⟩ ∧
          compile (before ++ .bind name value :: after) =
            .ok ⟨first.output ++ text ++ output, first.bindings ++ (name, type) :: bindings⟩) ∧
      ∀ error, compile (before ++ after) = .error error →
        compile (before ++ .bind name value :: after) = .error error := by
  obtain ⟨output, symbols, text, type, first, second, rfl⟩ := body_of_let compiled
  have alone : before.compile = .ok ⟨output, symbols⟩ := by
    rw [compile_eq_compileLexically, compileLexically, first]
    rfl
  refine ⟨⟨output, symbols⟩, text, type, alone, rfl, ?_⟩
  rcases compile_without_let first second unused undeclared with
    ⟨e, without, within⟩ | ⟨more, bindings, without, within⟩
  · simp [without, within]
  · simp [without, within]

end

/-- A name that is in use later. -/
def flag : Program :=
  [.bind "b" (.new (.type (.prim .bool) none [] none []))]

/-- A function whose body opens a block. -/
def getter : Node :=
  let bool : Node := .type (.prim .bool) none [] none []
  .literal (.type .fn none [] (some bool) []) none []
    [.branch (.ident "b") [.ret (some (.ident "b"))] none, .ret (some (.ident "b"))]

/-- A loop that declares a name of its own, and a name at the top. -/
def polling : Program :=
  [.loop (.ident "b") [.bind "z" (.ident "b")], .bind "c" (.ident "b")]

theorem unused_binding_removable_before_polling :
    "z" ∉ identifiersOf polling ∧ "z" ∉ polling.flatMap Node.declared ∧
      ∃ first text type output bindings, flag.compile = .ok first ∧
        compile (flag ++ [.bind "z" getter]) =
          .ok ⟨first.output ++ text, first.bindings ++ [("z", type)]⟩ ∧
        compile (flag ++ polling) = .ok ⟨first.output ++ output, first.bindings ++ bindings⟩ ∧
        compile (flag ++ .bind "z" getter :: polling) =
          .ok ⟨first.output ++ text ++ output, first.bindings ++ ("z", type) :: bindings⟩ := by
  have unused : "z" ∉ identifiersOf polling := by decide
  have undeclared : "z" ∉ polling.flatMap Node.declared := by decide
  obtain ⟨given, compiled⟩ : ∃ given, compile (flag ++ [.bind "z" getter]) = .ok given := ⟨_, rfl⟩
  obtain ⟨artifact, without⟩ : ∃ artifact, compile (flag ++ polling) = .ok artifact := ⟨_, rfl⟩
  obtain ⟨first, text, type, alone, rfl, -, inserted, -⟩ :=
    unused_binding_removable compiled unused undeclared
  obtain ⟨output, bindings, rfl, within⟩ := inserted artifact without
  exact ⟨unused, undeclared, first, text, type, output, bindings, alone, compiled, without, within⟩

end Program

end Arbor
