import Arbor.Proofs.HostNames
import Arbor.Proofs.Scanning
import Arbor.Proofs.UniqueReading

/-!
# Emitted text is scanned as it was meant

Names of fields, strings and the path of the runtime may hold any characters, quotes, backslashes
and brackets among them, and still no part of what is written for a program leads the scanner astray:
every part leaves it in code, with the brackets awaited that were awaited before. The induction is
over nodes and needs of the frames what reading back needs of them, that their names are names.
-/

namespace Arbor

open Scanning

/-- What the node emits leaves the scanner as it is, in both places the node can stand in. -/
structure Node.LeavesScanner (node : Node) : Prop where
  expression : ∀ {frames : Frames} {emitted : Emitted}, frames.Bindable →
    node.lexical.expression frames = .ok emitted → Neutral emitted.text
  statement : ∀ {frames after : Frames} {text : Option String}, frames.Bindable →
    node.lexical.statement frames = .ok (text, after) → Neutral (Emit.terminated text)

namespace Node.LeavesScanner

variable {node : Node} {kind : String}

/-- The end of a statement is as neutral as the statement. -/
theorem terminated {text : String} (neutral : Neutral text) :
    Neutral (Emit.terminated (some text)) :=
  neutral.append fun _ => rfl

theorem ofExpression {emit : Lexical.Expression} (rendered : node.lexical = .ofExpression emit)
    (expression : ∀ {frames : Frames} {emitted : Emitted}, frames.Bindable →
      emit frames = .ok emitted → Neutral emitted.text) : node.LeavesScanner := by
  refine ⟨by rw [rendered]; exact expression, ?_⟩
  intro frames after text bindable done
  rw [rendered] at done
  obtain ⟨emitted, first, ⟨⟩⟩ := Except.bind_eq_ok.mp done
  exact terminated (expression bindable first)

theorem ofStatement {emit : Lexical.Statement} (rendered : node.lexical = .ofStatement kind emit)
    (statement : ∀ {frames after : Frames} {text : String}, frames.Bindable →
      emit frames = .ok (text, after) → Neutral text) : node.LeavesScanner := by
  constructor
  · intro frames emitted bindable done
    rw [rendered] at done
    cases done
  · intro frames after text bindable done
    rw [rendered] at done
    obtain ⟨⟨text, _⟩, first, ⟨⟩⟩ := Except.bind_eq_ok.mp done
    exact terminated (statement bindable first)

theorem keepFrames {emit : Frames → Except CompileError String}
    (rendered : node.lexical = .ofStatement kind (Lexical.keepFrames emit))
    (statement : ∀ {frames : Frames} {text : String}, frames.Bindable →
      emit frames = .ok text → Neutral text) : node.LeavesScanner := by
  apply ofStatement rendered
  intro frames after text bindable done
  exact statement bindable (Lexical.keepFrames_eq_ok.mp done).1

theorem unhandled (rendered : node.lexical = .unhandled kind) : node.LeavesScanner := by
  constructor
  · intro frames emitted bindable done
    rw [rendered] at done
    cases done
  · intro frames after text bindable done
    rw [rendered] at done
    cases done

end Node.LeavesScanner

section Parts

variable {frames after : Frames} {text : String} (bindable : frames.Bindable)
include bindable

theorem arguments_neutral {arguments : List Node} (parts : ∀ n ∈ arguments, n.LeavesScanner)
    {types : List Ty} {position : Nat} {texts : List String}
    (done : Lexical.arguments frames position (arguments.map fun n => n.lexical.expression) types =
      .ok texts) : ∀ text ∈ texts, Neutral text := by
  induction arguments generalizing types position texts with
  | nil =>
    cases done
    simp
  | cons argument rest ih =>
    cases types with
    | nil =>
      cases done
      simp
    | cons expected others =>
      obtain ⟨a, first, -, more, next, rfl⟩ := Lexical.arguments_cons_eq_ok.mp done
      intro text member
      rcases List.mem_cons.mp member with rfl | member
      · exact (parts argument (by simp)).expression bindable first
      · exact ih (fun n hn => parts n (by simp [hn])) next text member

theorem entries_neutral {fields : List (String × Node)} (parts : ∀ f ∈ fields, f.2.LeavesScanner)
    {declared : List (String × Ty)}
    (done : Lexical.entries (fields.map fun f => (f.1, f.2.lexical.expression)) frames declared =
      .ok text) : Neutral text := by
  induction declared generalizing text with
  | nil =>
    cases done
    exact .empty
  | cons field rest ih =>
    obtain ⟨name, expected⟩ := field
    obtain ⟨_, found, value, first, -, others, next, rfl⟩ := Lexical.entries_cons_eq_ok.mp done
    rw [Fields.lookup_map fun node : Node => node.lexical.expression, Option.map_eq_some_iff] at found
    obtain ⟨node, found, rfl⟩ := found
    have neutral := (parts _ (Fields.mem_of_lookup found)).expression bindable first
    exact neutral.entry name (ih next)

theorem body_neutral {nodes : List Node} (parts : ∀ n ∈ nodes, n.LeavesScanner)
    (done : LexicalRendering.body (lexicals nodes) frames = .ok (text, after)) : Neutral text := by
  rw [lexicals_eq_map, LexicalRendering.body, List.map_map] at done
  induction nodes generalizing frames text with
  | nil =>
    cases done
    exact .empty
  | cons node rest ih =>
    rw [List.map_cons] at done
    obtain ⟨first, middle, stated, others, next, rfl⟩ := Lexical.statements_cons_eq_ok.mp done
    have neutral := (parts node (by simp)).statement bindable stated
    have bindableNext := (node.readsBack.statement bindable stated).1
    exact neutral.append (ih bindableNext (fun n hn => parts n (by simp [hn])) next)

theorem block_neutral {nodes : List Node} (parts : ∀ n ∈ nodes, n.LeavesScanner)
    (done : Lexical.block (LexicalRendering.body (lexicals nodes)) frames = .ok text) :
    Neutral text := by
  obtain ⟨statements, outer, inside, rfl⟩ := Lexical.block_eq_ok.mp done
  exact @Neutral.between _ "\x7b\n" "\x7d" ['\x7d'] (fun _ => rfl)
    (body_neutral (bindable.push false) parts inside) fun _ => rfl

/-- A condition between parentheses, behind a keyword, and the block that it guards. -/
theorem guarded_neutral (keyword : String) {condition : Node} {site : Site} {nodes : List Node}
    {test block : String} (opens : ∀ awaited, Scans keyword ⟨.code, awaited⟩ ⟨.code, ')' :: awaited⟩)
    (leaves : condition.LeavesScanner) (parts : ∀ n ∈ nodes, n.LeavesScanner)
    (tested : Lexical.condition condition.lexical.expression site frames = .ok test)
    (done : Lexical.block (LexicalRendering.body (lexicals nodes)) frames = .ok block) :
    Neutral (keyword ++ test ++ ".value) " ++ block) := by
  obtain ⟨value, first, -, rfl⟩ := Lexical.condition_eq_ok.mp tested
  have asked := @Neutral.between _ keyword ".value) " [')'] opens (leaves.expression bindable first)
    fun _ => rfl
  exact asked.append (block_neutral bindable parts done)

theorem function_neutral {parameters : List String} {types : List Ty} {nodes : List Node}
    (parts : ∀ n ∈ nodes, n.LeavesScanner)
    (done : Lexical.function parameters types (LexicalRendering.body (lexicals nodes)) frames =
      .ok text) : Neutral text := by
  obtain ⟨count, inner, declared, statements, outer, inside, rfl⟩ := Lexical.function_eq_ok.mp done
  obtain ⟨valid, -, -, rfl⟩ := (declareParameters_eq_ok count).mp declared
  have names : ∀ name ∈ Fields.names (parameters.zip types), Host.isBindable name := by
    intro name member
    obtain ⟨entry, inside, rfl⟩ := List.mem_map.mp member
    exact valid entry.1 (List.of_mem_zip inside).1
  have body := body_neutral ((bindable.push true).extend names) parts inside
  have comma : Neutral "," := fun _ => rfl
  have listed := comma.intercalate fun name member => .name (valid name member)
  intro awaited
  have front : Scans "(" ⟨.code, awaited⟩ ⟨.code, ')' :: awaited⟩ := rfl
  have middle : Scans ") => \x7b\n" ⟨.code, ')' :: awaited⟩ ⟨.code, '\x7d' :: awaited⟩ := rfl
  have back : Scans "\x7d" ⟨.code, '\x7d' :: awaited⟩ ⟨.code, awaited⟩ := rfl
  exact (((front.append (listed _)).append middle).append (body _)).append back

end Parts

/-- The payload of a literal of a primitive type. -/
theorem scalar_neutral {frames : Frames} {p : Primitive} {value : Option Payload}
    {parameters : List String} {body : Lexical.Body} {fields : List (String × Lexical.Expression)}
    {text : String}
    (done : Lexical.payload (.prim p) (.prim p) value parameters body fields frames = .ok text) :
    Neutral text := by
  cases Lexical.payload_prim.mp ⟨text, done⟩ with
  | int n =>
    rw [← Except.ok.inj done]
    exact .numeral (Reading.numeral_int n.toInt)
  | float x =>
    rw [← Except.ok.inj done]
    exact .numeral (Reading.numeral_double x)
  | wholeFloat n =>
    rw [← Except.ok.inj done]
    exact .numeral (Reading.numeral_double _)
  | bool b =>
    cases done
    cases b <;> exact fun _ => rfl
  | str text =>
    cases done
    exact .quote text
  | null =>
    cases done
    exact fun _ => rfl
  | type describes =>
    obtain ⟨described, -, built⟩ := Except.bind_eq_ok.mp done
    exact constructor_neutral described _ built

theorem literal_leavesScanner {descriptor : Node} {payload : Option Payload}
    {parameters : List String} {nodes : List Node}
    (fieldParts : ∀ f ∈ Payload.entries payload, f.2.LeavesScanner)
    (bodyParts : ∀ n ∈ nodes, n.LeavesScanner) :
    (Node.literal descriptor payload parameters nodes).LeavesScanner := by
  apply Node.LeavesScanner.ofExpression (Node.lexical_literal ..)
  intro frames emitted bindable done
  obtain ⟨tag, tagged, type, lowered, inner, filled, constructor, built, rfl⟩ :=
    Lexical.literal_eq_ok.mp done
  rw [Node.descriptorTag_of_lower lowered] at tagged
  cases tagged
  have typed := constructor_neutral type _ built
  refine .hostValue ?_ typed
  cases type with
  | prim p => exact scalar_neutral filled
  | fn types returns =>
    obtain ⟨rfl, filled⟩ := Lexical.payload_fn.mp filled
    exact function_neutral bindable bodyParts filled
  | obj declared =>
    obtain ⟨⟨given, rfl⟩, filled⟩ := Lexical.payload_obj.mp filled
    obtain ⟨-, texts, listed, rfl⟩ := Lexical.object_eq_ok.mp filled
    exact @Neutral.between _ "\x7b" "\x7d" ['\x7d'] (fun _ => rfl)
      (entries_neutral bindable fieldParts listed) fun _ => rfl
  | list => cases built

/-- Every node leaves the scanner as it is, kind by kind. -/
theorem Node.leavesScanner (node : Node) : node.LeavesScanner := by
  induction node with
  | bind name value ih =>
    apply Node.LeavesScanner.ofStatement rfl
    intro frames after text bindable done
    obtain ⟨valid, v, first, -, rfl⟩ := Lexical.bind_eq_ok.mp done
    have front : Neutral "let " := fun _ => rfl
    have equals : Neutral " = " := fun _ => rfl
    exact ((front.append (.name valid)).append equals).append (ih.expression bindable first)
  | assign target value _ ih =>
    apply Node.LeavesScanner.keepFrames rfl
    intro frames text bindable done
    obtain ⟨name, rfl, declared, found, v, first, -, rfl⟩ := Lexical.assign_eq_ok.mp done
    have named := Neutral.name (bindable.of_type? found)
    have equals : Neutral " = " := fun _ => rfl
    exact (named.append equals).append (ih.expression bindable first)
  | ret value ih =>
    constructor
    · intro frames emitted bindable done
      rw [Node.lexical_ret] at done
      cases done
    · intro frames after text bindable done
      rw [Node.lexical_ret] at done
      obtain ⟨left, first, ⟨⟩⟩ := Except.bind_eq_ok.mp done
      rcases Lexical.ret_eq_ok.mp first with ⟨-, rfl⟩ | ⟨-, left⟩
      · exact .empty
      · cases value with
        | none =>
          cases left
          exact fun _ => rfl
        | some value =>
          obtain ⟨v, returned, rfl⟩ := left
          have front : Neutral "return " := fun _ => rfl
          exact LeavesScanner.terminated (front.append ((ih value rfl).expression bindable returned))
  | branch condition body otherwise conditionIH bodyIH otherwiseIH =>
    apply Node.LeavesScanner.keepFrames (Node.lexical_branch condition body otherwise)
    intro frames text bindable done
    obtain ⟨t, first, b, second, last⟩ := Lexical.branch_eq_ok.mp done
    have guarded := guarded_neutral bindable "if (" (fun _ => rfl) conditionIH bodyIH first second
    cases otherwise with
    | none =>
      cases last
      exact guarded
    | some otherwise =>
      obtain ⟨o, third, rfl⟩ := last
      have between : Neutral " else " := fun _ => rfl
      exact (guarded.append between).append (block_neutral bindable (otherwiseIH _ rfl) third)
  | loop condition body conditionIH bodyIH =>
    apply Node.LeavesScanner.keepFrames rfl
    intro frames text bindable done
    obtain ⟨t, first, b, second, rfl⟩ := Lexical.loop_eq_ok.mp done
    exact guarded_neutral bindable "while (" (fun _ => rfl) conditionIH bodyIH first second
  | ident name =>
    apply Node.LeavesScanner.ofExpression rfl
    intro frames emitted bindable done
    obtain ⟨type, found, rfl⟩ := Lexical.identifier_eq_ok.mp done
    exact .name (bindable.of_type? found)
  | literal type payload parameters body _ _ fieldsIH bodyIH =>
    exact literal_leavesScanner fieldsIH bodyIH
  | new target =>
    apply Node.LeavesScanner.ofExpression rfl
    intro frames emitted bindable done
    obtain ⟨type, lowered, constructor, built, rfl⟩ := Lexical.newValue_eq_ok.mp done
    have makes : Neutral ".makeNew()" := fun _ => rfl
    exact (constructor_neutral type _ built).append makes
  | binary op left right leftIH rightIH =>
    apply Node.LeavesScanner.ofExpression rfl
    intro frames emitted bindable done
    obtain ⟨l, first, r, second, -, -, constructor, built, rfl⟩ := Lexical.binary_eq_ok.mp done
    have computed := (leftIH.expression bindable first).operation op l.type
      (rightIH.expression bindable second)
    exact computed.hostValue (constructor_neutral _ _ built)
  | unary op operand ih =>
    apply Node.LeavesScanner.ofExpression rfl
    intro frames emitted bindable done
    obtain ⟨o, first, -, constructor, built, rfl⟩ := Lexical.unary_eq_ok.mp done
    exact ((ih.expression bindable first).unary op).hostValue (constructor_neutral _ _ built)
  | call callee arguments calleeIH argumentsIH =>
    apply Node.LeavesScanner.ofExpression (Node.lexical_call callee arguments)
    intro frames emitted bindable done
    obtain ⟨c, types, returns, first, count, texts, second, rfl⟩ := Lexical.call_eq_ok.mp done
    have called := calleeIH.expression bindable first
    have comma : Neutral ", " := fun _ => rfl
    have listed := comma.intercalate (arguments_neutral bindable argumentsIH second)
    intro awaited
    have front : Scans ".value(" ⟨.code, awaited⟩ ⟨.code, ')' :: awaited⟩ := rfl
    have back : Scans ")" ⟨.code, ')' :: awaited⟩ ⟨.code, awaited⟩ := rfl
    exact (((called awaited).append front).append (listed _)).append back
  | member => exact .unhandled rfl
  | element => exact .unhandled rfl
  | type => exact .unhandled rfl
  | unknown => exact .unhandled rfl

/-! ## Programs -/

theorem dump_neutral {bindings : Bindings}
    (names : ∀ name ∈ Fields.names bindings, Host.isBindable name) : Neutral bindings.dump := by
  unfold Bindings.dump
  induction bindings with
  | nil => exact .empty
  | cons binding rest ih =>
    have others := ih fun name member => names name (List.mem_cons_of_mem _ member)
    have named := Neutral.name (names binding.1 (List.mem_cons_self ..))
    have logged : Neutral ("console.log(" ++ Text.quote (binding.1 ++ ":") ++
        ");\nconsole.log(" ++ binding.1 ++ ");\n") := by
      intro awaited
      have front : Scans "console.log(" ⟨.code, awaited⟩ ⟨.code, ')' :: awaited⟩ := rfl
      have middle : Scans ");\nconsole.log(" ⟨.code, ')' :: awaited⟩ ⟨.code, ')' :: awaited⟩ := rfl
      have back : Scans ");\n" ⟨.code, ')' :: awaited⟩ ⟨.code, awaited⟩ := rfl
      exact (((front.append (Neutral.quote _ _)).append middle).append (named _)).append back
    rw [List.map_cons, String.join_cons]
    exact logged.append others

theorem bindRuntime_neutral (path : String) : Neutral (Host.bindRuntime path) :=
  @Neutral.between _ ("const " ++ Host.runtimeName ++ " = require(") ");\n" [')'] (fun _ => rfl)
    (.quote path) fun _ => rfl

namespace Program

variable {program : Program} {artifact : Artifact}

theorem output_neutral (compiled : program.compile = .ok artifact) : Neutral artifact.output := by
  rw [compile_eq_compileLexically] at compiled
  obtain ⟨⟨output, after⟩, done, ⟨⟩⟩ := Except.bind_eq_ok.mp compiled
  have bindable : Frames.root.Bindable := by
    intro frame member name declared
    rw [List.mem_singleton.mp member] at declared
    cases declared
  exact body_neutral bindable (fun n _ => n.leavesScanner) done

/-- All that is written for a program that compiles, with any runtime and with the log of what it
declares, is scanned to its end: strings are closed and hold no raw control characters, all else is
printable, and brackets are balanced. -/
theorem written_text_scanned (compiled : program.compile = .ok artifact) (runtime : String) :
    Scanned (artifact.withRuntime runtime ++ artifact.bindings.dump) := by
  have written := (bindRuntime_neutral runtime).append (output_neutral compiled)
  exact (written.append (dump_neutral (bindings_bindable compiled))).scanned

/-- An object with all that has to be escaped, and brackets that are not balanced, in a string and in
the name of its field. -/
def hostile : Program :=
  let str : Node := .type (.prim .str) none [] none []
  [.bind "s" (.literal (.type .obj none [] none [("\")\\", str)])
    (some (.fields [("\")\\", .literal str (some (.str "\"\\\x7b[)\n\u2028")) [] [])])) [] [])]

theorem written_text_scanned_in_hostile : ∃ artifact, hostile.compile = .ok artifact ∧
    Scanned (artifact.withRuntime "./\"\\]" ++ artifact.bindings.dump) :=
  ⟨_, rfl, @written_text_scanned hostile _ rfl _⟩

end Program

end Arbor
