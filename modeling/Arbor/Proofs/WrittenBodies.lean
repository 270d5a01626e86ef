import Arbor.Proofs.BodyTyping
import Arbor.Proofs.ExpressionReading
import Arbor.Proofs.LexicalRun
import Mathlib.Data.List.Infix

/-!
# Where the text of a body stands

Every body of a program that compiles is written between braces somewhere in the output: the text of
a part stands in the text of what it is a part of, up to the whole program. In a function no
statement is left out, so the text of a body there has one end of a statement for each of its
statements.
-/

namespace Arbor

/-! ## Texts in texts -/

namespace Text

/-- The text stands somewhere in the other. -/
def Within (text whole : String) : Prop :=
  text.toList <:+: whole.toList

namespace Within

variable {text part whole first last : String}

theorem refl (text : String) : Within text text :=
  List.infix_rfl

theorem trans (inner : Within text part) (outer : Within part whole) : Within text whole :=
  List.IsInfix.trans inner outer

theorem left (within : Within text first) (last : String) : Within text (first ++ last) := by
  unfold Within
  rw [String.toList_append]
  exact List.IsInfix.trans within (List.prefix_append _ _).isInfix

theorem right (within : Within text last) (first : String) : Within text (first ++ last) := by
  unfold Within
  rw [String.toList_append]
  exact List.IsInfix.trans within (List.suffix_append _ _).isInfix

theorem intercalate (separator : String) {texts : List String} (member : text ∈ texts) :
    Within text (String.intercalate separator texts) := by
  induction texts with
  | nil => cases member
  | cons first rest ih =>
    cases rest with
    | nil =>
      rw [String.intercalate_singleton, List.mem_singleton.mp member]
      exact .refl first
    | cons second more =>
      rw [String.intercalate_cons_cons]
      rcases List.mem_cons.mp member with rfl | member
      · exact ((refl text).left separator).left _
      · exact (ih member).right _

/-- The payload of a value stands in the value. -/
theorem payload (payload type : String) : Within payload (Host.value payload type) :=
  ((((refl payload).right _).left _).left _).left _

theorem operands (op : BinaryOp) (type : Ty) (first last : String) :
    Within first (Emit.operation op type first last) ∧
      Within last (Emit.operation op type first last) := by
  have computed : Within first (first ++ ".value " ++ Reading.hostSymbol op ++ " " ++ last ++ ".value") ∧
      Within last (first ++ ".value " ++ Reading.hostSymbol op ++ " " ++ last ++ ".value") :=
    ⟨(((((refl first).left _).left _).left _).left _).left _, ((refl last).right _).left _⟩
  rcases Reading.operation_cases op type first last with same | same
  · rw [same]
    exact computed
  · rw [same]
    exact ⟨(computed.1.right _).left _, (computed.2.right _).left _⟩

end Within

end Text

open Text

/-! ## Bodies in texts -/

/-- The statements of the body go through where it starts, and what they emit stands between braces
in the text. -/
def Body.WrittenIn (body : Body) (text : String) : Prop :=
  ∃ statements after, LexicalRendering.body (lexicals body.statements) body.inner =
    .ok (statements, after) ∧ Within ("\x7b\n" ++ statements ++ "\x7d") text

/-- All bodies are written in the text, wherever in these frames the part stands. -/
def Outline.WrittenIn (outline : Outline) (frames : Frames) (text : String) : Prop :=
  ∀ place, place.frames = frames → ∀ body ∈ outline place, body.WrittenIn text

namespace Outline.WrittenIn

variable {frames : Frames} {text whole : String} {first last : Outline}

theorem within (written : first.WrittenIn frames text) (part : Within text whole) :
    first.WrittenIn frames whole := by
  intro place here body member
  obtain ⟨statements, after, done, inside⟩ := written place here body member
  exact ⟨statements, after, done, inside.trans part⟩

theorem none : Outline.none.WrittenIn frames text := by
  intro place here body member
  cases member

theorem andThen (written : first.WrittenIn frames text) (next : last.WrittenIn frames text) :
    (Outline.andThen first last).WrittenIn frames text := by
  intro place here body member
  rcases List.mem_append.mp member with member | member
  · exact written place here body member
  · exact next (place.past (first place)) here body member

theorem sequence {outlines : List Outline}
    (parts : ∀ outline ∈ outlines, outline.WrittenIn frames text) :
    (Outline.sequence outlines).WrittenIn frames text := by
  induction outlines with
  | nil => exact .none
  | cons outline rest ih =>
    have others := ih fun other member => parts other (by simp [member])
    exact .andThen (parts outline (by simp)) others

/-- A body between braces, and those inside of it. -/
theorem body {kind : BodyKind} {nodes : List Node} {inside : Outline} {statements : String}
    {after : Frames}
    (done : LexicalRendering.body (lexicals nodes) (kind.frame :: frames) = .ok (statements, after))
    (part : Within ("\x7b\n" ++ statements ++ "\x7d") text)
    (written : inside.WrittenIn (kind.frame :: frames) statements) :
    (Outline.body kind nodes inside).WrittenIn frames text := by
  intro place here body member
  subst here
  rcases List.mem_cons.mp member with rfl | member
  · exact ⟨statements, after, done, part⟩
  · have braces : Within statements ("\x7b\n" ++ statements ++ "\x7d") :=
      ((Within.refl statements).right _).left _
    exact written.within (braces.trans part) _ rfl body member

theorem inFunction (written : frames.inFunction → first.WrittenIn frames text) :
    (Outline.inFunction first).WrittenIn frames text := by
  intro place here body member
  subst here
  rw [Outline.inFunction] at member
  split at member
  · next within => exact written within place rfl body member
  · cases member

end Outline.WrittenIn

/-! ## Nodes -/

/-- The bodies inside of the node are written in what it emits, in both places. -/
structure Node.Written (node : Node) : Prop where
  expression : ∀ {frames : Frames} {emitted : Emitted},
    node.lexical.expression frames = .ok emitted → node.outline.WrittenIn frames emitted.text
  statement : ∀ {frames after : Frames} {text : Option String},
    node.lexical.statement frames = .ok (text, after) →
      node.outline.WrittenIn frames (Emit.terminated text)

namespace Node.Written

variable {node : Node} {kind : String}

theorem terminated (text : String) : Within text (Emit.terminated (some text)) :=
  (Within.refl text).left _

theorem ofExpression {emit : Lexical.Expression} (rendered : node.lexical = .ofExpression emit)
    (expression : ∀ {frames : Frames} {emitted : Emitted}, emit frames = .ok emitted →
      node.outline.WrittenIn frames emitted.text) : node.Written := by
  refine ⟨by rw [rendered]; exact expression, ?_⟩
  intro frames after text done
  rw [rendered] at done
  obtain ⟨emitted, first, ⟨⟩⟩ := Except.bind_eq_ok.mp done
  exact (expression first).within (terminated _)

theorem ofStatement {emit : Lexical.Statement} (rendered : node.lexical = .ofStatement kind emit)
    (statement : ∀ {frames after : Frames} {text : String}, emit frames = .ok (text, after) →
      node.outline.WrittenIn frames text) : node.Written := by
  constructor
  · intro frames emitted done
    rw [rendered] at done
    cases done
  · intro frames after text done
    rw [rendered] at done
    obtain ⟨⟨text, _⟩, first, ⟨⟩⟩ := Except.bind_eq_ok.mp done
    exact (statement first).within (terminated _)

theorem keepFrames {emit : Frames → Except CompileError String}
    (rendered : node.lexical = .ofStatement kind (Lexical.keepFrames emit))
    (statement : ∀ {frames : Frames} {text : String}, emit frames = .ok text →
      node.outline.WrittenIn frames text) : node.Written := by
  apply ofStatement rendered
  intro frames after text done
  exact statement (Lexical.keepFrames_eq_ok.mp done).1

theorem none (outline : node.outline = .none) : node.Written := by
  constructor
  · intro frames emitted done
    rw [outline]
    exact .none
  · intro frames after text done
    rw [outline]
    exact .none

end Node.Written

section Parts

variable {frames after : Frames} {text : String}

theorem arguments_written {arguments : List Node} (parts : ∀ n ∈ arguments, n.Written)
    {types : List Ty} (count : types.length = arguments.length) {position : Nat}
    {texts : List String}
    (done : Lexical.arguments frames position (arguments.map fun n => n.lexical.expression) types =
      .ok texts) : ∀ n ∈ arguments, ∃ text ∈ texts, n.outline.WrittenIn frames text := by
  induction arguments generalizing types position texts with
  | nil => simp
  | cons argument rest ih =>
    cases types with
    | nil => cases count
    | cons expected others =>
      obtain ⟨a, first, -, more, next, rfl⟩ := Lexical.arguments_cons_eq_ok.mp done
      have later := ih (fun n hn => parts n (by simp [hn])) (Nat.succ.inj count) next
      intro n member
      rcases List.mem_cons.mp member with rfl | member
      · exact ⟨a.text, by simp, (parts n (by simp)).expression first⟩
      · obtain ⟨text, listed, written⟩ := later n member
        exact ⟨text, by simp [listed], written⟩

/-- The values of declared fields stand in the entries of an object. -/
theorem entries_written {fields : List (String × Node)} (parts : ∀ f ∈ fields, f.2.Written)
    {declared : List (String × Ty)}
    (done : Lexical.entries (fields.map fun f => (f.1, f.2.lexical.expression)) frames declared =
      .ok text) : ∀ field ∈ declared, ∀ node, fields.lookup field.1 = some node →
        node.outline.WrittenIn frames text := by
  induction declared generalizing text with
  | nil => simp
  | cons field rest ih =>
    obtain ⟨name, expected⟩ := field
    obtain ⟨_, found, value, first, -, others, next, rfl⟩ := Lexical.entries_cons_eq_ok.mp done
    rw [Fields.lookup_map fun node : Node => node.lexical.expression, Option.map_eq_some_iff] at found
    obtain ⟨node, found, rfl⟩ := found
    intro field member other given
    rcases List.mem_cons.mp member with rfl | member
    · obtain rfl : node = other := Option.some.inj (found.symm.trans given)
      have written := (parts _ (Fields.mem_of_lookup found)).expression first
      exact written.within ((((Within.refl value.text).right _).left _).left _)
    · exact (ih next field member other given).within ((Within.refl others).right _)

theorem body_written {nodes : List Node} (parts : ∀ n ∈ nodes, n.Written)
    (done : LexicalRendering.body (lexicals nodes) frames = .ok (text, after)) :
    (bodyOutline nodes).WrittenIn frames text := by
  rw [lexicals_eq_map, LexicalRendering.body, List.map_map] at done
  induction nodes generalizing frames text with
  | nil => exact .none
  | cons node rest ih =>
    rw [List.map_cons] at done
    obtain ⟨first, middle, stated, others, next, rfl⟩ := Lexical.statements_cons_eq_ok.mp done
    have formed := node.checked.statement.mp ⟨first, stated⟩
    rw [formed.after_eq] at next
    have here := ((parts node (by simp)).statement stated).within ((Within.refl _).left others)
    have later := (ih (fun n hn => parts n (by simp [hn])) next).within
      ((Within.refl others).right (Emit.terminated first))
    intro place same body member
    subst same
    rcases List.mem_append.mp member with member | member
    · exact here place rfl body member
    · exact later _ rfl body member

theorem block_written {nodes : List Node} (parts : ∀ n ∈ nodes, n.Written)
    (done : Lexical.block (LexicalRendering.body (lexicals nodes)) frames = .ok text) :
    (Outline.body .block nodes (bodyOutline nodes)).WrittenIn frames text := by
  obtain ⟨statements, outer, inside, rfl⟩ := Lexical.block_eq_ok.mp done
  exact .body inside (.refl _) (body_written parts inside)

/-- A condition between parentheses, behind a keyword, and the block that it guards. -/
theorem guarded_written (keyword : String) {condition : Node} {site : Site} {nodes : List Node}
    {test block : String} (written : condition.Written) (parts : ∀ n ∈ nodes, n.Written)
    (tested : Lexical.condition condition.lexical.expression site frames = .ok test)
    (done : Lexical.block (LexicalRendering.body (lexicals nodes)) frames = .ok block) :
    condition.outline.WrittenIn frames (keyword ++ test ++ ".value) " ++ block) ∧
      (Outline.body .block nodes (bodyOutline nodes)).WrittenIn frames
        (keyword ++ test ++ ".value) " ++ block) := by
  obtain ⟨value, first, -, rfl⟩ := Lexical.condition_eq_ok.mp tested
  constructor
  · exact (written.expression first).within ((((Within.refl value.text).right _).left _).left _)
  · exact (block_written parts done).within ((Within.refl block).right _)

theorem function_written {parameters : List String} {types : List Ty} {nodes : List Node}
    (parts : ∀ n ∈ nodes, n.Written) (result : Ty)
    (done : Lexical.function parameters types (LexicalRendering.body (lexicals nodes)) frames =
      .ok text) :
    (Outline.body (.function (parameters.zip types) result) nodes (bodyOutline nodes)).WrittenIn
      frames text := by
  obtain ⟨count, inner, declared, statements, outer, inside, rfl⟩ := Lexical.function_eq_ok.mp done
  obtain ⟨-, -, -, rfl⟩ := (declareParameters_eq_ok count).mp declared
  refine .body inside ?_ (body_written parts inside)
  have split : ") => \x7b\n" = ") => " ++ "\x7b\n" := by decide
  have whole : "(" ++ String.intercalate "," parameters ++ ") => \x7b\n" ++ statements ++ "\x7d" =
      "(" ++ String.intercalate "," parameters ++ ") => " ++ ("\x7b\n" ++ statements ++ "\x7d") := by
    rw [split]
    simp only [String.append_assoc]
  rw [whole]
  exact (Within.refl _).right _

end Parts

theorem literal_written {descriptor : Node} {payload : Option Payload} {parameters : List String}
    {nodes : List Node} (fieldParts : ∀ f ∈ Payload.entries payload, f.2.Written)
    (bodyParts : ∀ n ∈ nodes, n.Written) :
    (Node.literal descriptor payload parameters nodes).Written := by
  apply Node.Written.ofExpression (Node.lexical_literal ..)
  intro frames emitted done
  obtain ⟨tag, tagged, type, lowered, inner, filled, constructor, built, rfl⟩ :=
    Lexical.literal_eq_ok.mp done
  rw [Node.descriptorTag_of_lower lowered] at tagged
  cases tagged
  refine Outline.WrittenIn.within ?_ (.payload inner constructor)
  cases type with
  | prim p =>
    cases payload with
    | none =>
      simp only [Node.outline, lowered]
      exact .none
    | some payload =>
      simp only [Node.outline, lowered]
      exact .none
  | fn types returns =>
    obtain ⟨rfl, filled⟩ := Lexical.payload_fn.mp filled
    simp only [Node.outline, lowered]
    exact function_written bodyParts returns filled
  | obj declared =>
    obtain ⟨⟨given, rfl⟩, filled⟩ := Lexical.payload_obj.mp filled
    obtain ⟨-, texts, listed, rfl⟩ := Lexical.object_eq_ok.mp filled
    simp only [Node.outline, lowered, Payload.outlines, fieldOutlines_eq_map, Fields.lookup_map]
    apply Outline.WrittenIn.sequence
    intro outline chosen
    obtain ⟨field, member, found⟩ := List.mem_filterMap.mp chosen
    obtain ⟨node, given, rfl⟩ := Option.map_eq_some_iff.mp found
    have written := entries_written fieldParts listed field member node given
    exact written.within (((Within.refl texts).right _).left _)
  | list => cases built

/-- The bodies inside of every node are written in what it emits. -/
theorem Node.written (node : Node) : node.Written := by
  induction node with
  | bind name value ih =>
    apply Node.Written.ofStatement rfl
    intro frames after text done
    obtain ⟨-, v, first, -, rfl⟩ := Lexical.bind_eq_ok.mp done
    exact (ih.expression first).within ((Within.refl v.text).right _)
  | assign target value _ ih =>
    apply Node.Written.keepFrames rfl
    intro frames text done
    obtain ⟨name, rfl, declared, -, v, first, -, rfl⟩ := Lexical.assign_eq_ok.mp done
    exact (ih.expression first).within ((Within.refl v.text).right _)
  | ret value ih =>
    constructor
    · intro frames emitted done
      rw [Node.lexical_ret] at done
      cases done
    · intro frames after text done
      rw [Node.lexical_ret] at done
      obtain ⟨left, first, ⟨⟩⟩ := Except.bind_eq_ok.mp done
      cases value with
      | none => exact .none
      | some value =>
        apply Outline.WrittenIn.inFunction
        intro inside
        rcases Lexical.ret_eq_ok.mp first with ⟨outside, -⟩ | ⟨-, left⟩
        · exact absurd inside outside
        · obtain ⟨v, returned, rfl⟩ := left
          have written := (ih value rfl).expression returned
          exact written.within (((Within.refl v.text).right _).left _)
  | branch condition body otherwise conditionIH bodyIH otherwiseIH =>
    apply Node.Written.keepFrames (Node.lexical_branch condition body otherwise)
    intro frames text done
    obtain ⟨t, first, b, second, last⟩ := Lexical.branch_eq_ok.mp done
    obtain ⟨tested, inside⟩ := guarded_written "if (" conditionIH bodyIH first second
    cases otherwise with
    | none =>
      cases last
      exact .andThen tested inside
    | some otherwise =>
      obtain ⟨o, third, rfl⟩ := last
      have outside := (block_written (otherwiseIH _ rfl) third).within
        ((Within.refl o).right ("if (" ++ t ++ ".value) " ++ b ++ " else "))
      have before := ((Within.refl ("if (" ++ t ++ ".value) " ++ b)).left " else ").left o
      exact .andThen (tested.within before) (.andThen (inside.within before) outside)
  | loop condition body conditionIH bodyIH =>
    apply Node.Written.keepFrames rfl
    intro frames text done
    obtain ⟨t, first, b, second, rfl⟩ := Lexical.loop_eq_ok.mp done
    obtain ⟨tested, inside⟩ := guarded_written "while (" conditionIH bodyIH first second
    exact .andThen tested inside
  | literal type payload parameters body _ _ fieldsIH bodyIH =>
    exact literal_written fieldsIH bodyIH
  | binary op left right leftIH rightIH =>
    apply Node.Written.ofExpression rfl
    intro frames emitted done
    obtain ⟨l, first, r, second, -, -, constructor, built, rfl⟩ := Lexical.binary_eq_ok.mp done
    obtain ⟨front, back⟩ := Within.operands op l.type l.text r.text
    have written : (Outline.andThen left.outline right.outline).WrittenIn frames _ :=
      .andThen ((leftIH.expression first).within front) ((rightIH.expression second).within back)
    exact written.within (.payload _ constructor)
  | unary op operand ih =>
    apply Node.Written.ofExpression rfl
    intro frames emitted done
    obtain ⟨o, first, -, constructor, built, rfl⟩ := Lexical.unary_eq_ok.mp done
    have applied : Within o.text (op.symbol ++ "(" ++ o.text ++ ".value)") :=
      ((Within.refl o.text).right _).left _
    exact (ih.expression first).within (applied.trans (.payload _ constructor))
  | call callee arguments calleeIH argumentsIH =>
    apply Node.Written.ofExpression (Node.lexical_call callee arguments)
    intro frames emitted done
    obtain ⟨c, types, returns, first, count, texts, second, rfl⟩ := Lexical.call_eq_ok.mp done
    have called := (calleeIH.expression first).within
      ((((Within.refl c).left ".value(").left (String.intercalate ", " texts)).left ")")
    have given := arguments_written argumentsIH (by simpa using count) second
    refine .andThen called (.sequence ?_)
    rw [outlines_eq_map, List.forall_mem_map]
    intro argument member
    obtain ⟨text, listed, written⟩ := given argument member
    exact written.within (((Within.intercalate ", " listed).right _).left _)
  | _ => exact .none rfl

/-! ## Statements of a body -/

/-- Every statement emits a text, each behind what those before it declare. -/
inductive Emits : Frames → List Node → List String → Prop where
  | nil {frames : Frames} : Emits frames [] []
  | cons {frames middle : Frames} {node : Node} {rest : List Node} {text : String}
      {texts : List String} : node.lexical.statement frames = .ok (some text, middle) →
      Emits middle rest texts → Emits frames (node :: rest) (text :: texts)

theorem Emits.length_eq {frames : Frames} {nodes : List Node} {texts : List String}
    (emits : Emits frames nodes texts) : texts.length = nodes.length := by
  induction emits with
  | nil => rfl
  | cons _ _ ih => rw [List.length_cons, List.length_cons, ih]

/-- The texts of statements, each with its end. -/
def ended (texts : List String) : String :=
  String.join (texts.map (· ++ ";\n"))

section Emitted

variable {frames after : Frames} {text : Option String}

theorem ofStatement_text {kind : String} {emit : Lexical.Statement}
    (done : (LexicalRendering.ofStatement kind emit).statement frames = .ok (text, after)) :
    ∃ written, text = some written := by
  obtain ⟨⟨written, _⟩, -, ⟨⟩⟩ := Except.bind_eq_ok.mp done
  exact ⟨written, rfl⟩

theorem ofExpression_text {emit : Lexical.Expression}
    (done : (LexicalRendering.ofExpression emit).statement frames = .ok (text, after)) :
    ∃ written, text = some written := by
  obtain ⟨emitted, -, ⟨⟩⟩ := Except.bind_eq_ok.mp done
  exact ⟨emitted.text, rfl⟩

/-- In a function no statement is without a text. -/
theorem Node.exists_text {node : Node} (inside : frames.inFunction)
    (done : node.lexical.statement frames = .ok (text, after)) : ∃ written, text = some written := by
  cases node with
  | ret value =>
    rw [Node.lexical_ret] at done
    obtain ⟨left, first, ⟨⟩⟩ := Except.bind_eq_ok.mp done
    rcases Lexical.ret_eq_ok.mp first with ⟨outside, -⟩ | ⟨-, left⟩
    · exact absurd inside outside
    · cases value with
      | none => exact ⟨_, left.symm⟩
      | some value =>
        obtain ⟨v, -, same⟩ := left
        exact ⟨_, same.symm⟩
  | bind name value => exact ofStatement_text done
  | assign target value => exact ofStatement_text done
  | branch condition body otherwise =>
    rw [Node.lexical_branch] at done
    exact ofStatement_text done
  | loop condition body => exact ofStatement_text done
  | ident name => exact ofExpression_text done
  | literal type payload parameters body =>
    rw [Node.lexical_literal] at done
    exact ofExpression_text done
  | new target => exact ofExpression_text done
  | binary op left right => exact ofExpression_text done
  | unary op operand => exact ofExpression_text done
  | call callee arguments => exact ofExpression_text done
  | _ => cases done

/-- So the text of statements in a function is one ended text for each. -/
theorem exists_emits {nodes : List Node} {text : String} (inside : frames.inFunction)
    (done : LexicalRendering.body (lexicals nodes) frames = .ok (text, after)) :
    ∃ texts, Emits frames nodes texts ∧ text = ended texts := by
  rw [lexicals_eq_map, LexicalRendering.body, List.map_map] at done
  induction nodes generalizing frames text with
  | nil =>
    cases done
    exact ⟨[], .nil, rfl⟩
  | cons node rest ih =>
    rw [List.map_cons] at done
    obtain ⟨first, middle, stated, others, next, rfl⟩ := Lexical.statements_cons_eq_ok.mp done
    obtain ⟨written, rfl⟩ := Node.exists_text inside stated
    have formed := node.checked.statement.mp ⟨_, stated⟩
    have still : middle.inFunction := by
      rwa [formed.after_eq, Frames.inFunction_extend]
    obtain ⟨texts, emits, rfl⟩ := ih still next
    exact ⟨written :: texts, .cons stated emits, (String.join_cons ..).symm⟩

end Emitted

namespace Program

/-- The bodies of a program that compiles are written in its output, all but the program itself. -/
theorem bodies_written {program : Program} {artifact : Artifact}
    (compiled : program.compile = .ok artifact) :
    (bodyOutline program).WrittenIn Frames.root artifact.output := by
  rw [compile_eq_compileLexically] at compiled
  obtain ⟨⟨output, after⟩, done, ⟨⟩⟩ := Except.bind_eq_ok.mp compiled
  exact body_written (fun n _ => n.written) done

end Program

end Arbor
