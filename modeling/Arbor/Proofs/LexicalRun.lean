import Arbor.Proofs.EmitRun
import Arbor.Proofs.Lexical
import Arbor.Proofs.Tables

/-!
# Successful renderings

What it takes for each construct to be rendered in plain environments, and the text and type it
then has. Every lemma is an equivalence: the right-hand side lists the parts that must go through
and the checks that must hold, in the order in which they are made.
-/

namespace Arbor

namespace Lexical

variable {frames after : Frames} {emitted : Emitted} {text : String}

theorem expectType_eq_ok {expected found : Ty} {site : Site} {u : Unit} :
    expectType expected found site = .ok u ↔ expected.equiv found := by
  simp only [expectType, Except.guard_eq_ok, and_true]

theorem resolve_eq_ok {name : String} {type : Ty} :
    resolve name frames = .ok type ↔ frames.type? name = some type := by
  unfold resolve
  cases frames.type? name <;> simp

theorem identifier_eq_ok {name : String} :
    identifier name frames = .ok emitted ↔
      ∃ type, frames.type? name = some type ∧ ⟨name, type⟩ = emitted := by
  simp only [identifier, Except.bind_eq_ok, resolve_eq_ok, Except.ok.injEq]

theorem newValue_eq_ok {target : Node} :
    newValue target = .ok emitted ↔ ∃ type, target.lower = .ok type ∧
      ∃ constructor, type.constructor = .ok constructor ∧
        ⟨constructor ++ ".makeNew()", type⟩ = emitted := by
  simp only [newValue, Except.bind_eq_ok, Except.ok.injEq]

theorem binary_eq_ok {op : BinaryOp} {left right : Expression} :
    binary op left right frames = .ok emitted ↔
      ∃ l, left frames = .ok l ∧ ∃ r, right frames = .ok r ∧ l.type.equiv r.type ∧
        Emit.accepts op l.type ∧ ∃ constructor,
          (Emit.resultType op l.type).constructor = .ok constructor ∧
            ⟨Host.value (Emit.operation op l.type l.text r.text) constructor,
              Emit.resultType op l.type⟩ = emitted := by
  simp only [binary, Except.bind_eq_ok, expectType_eq_ok, Except.guard_eq_ok, Except.ok.injEq,
    exists_const]

theorem unary_eq_ok {op : UnaryOp} {operand : Expression} :
    unary op operand frames = .ok emitted ↔
      ∃ o, operand frames = .ok o ∧ (match op with
        | .neg => o.type.isNumeric
        | .not => o.type.equiv .bool) = true ∧
        ∃ constructor, o.type.constructor = .ok constructor ∧
          ⟨Host.value (op.symbol ++ "(" ++ o.text ++ ".value)") constructor, o.type⟩ =
            emitted := by
  cases op <;> simp only [unary, Except.bind_eq_ok, Except.guard_eq_ok, Except.ok.injEq]

theorem arguments_cons_eq_ok {position : Nat} {argument : Expression} {rest : List Expression}
    {expected : Ty} {others : List Ty} {texts : List String} :
    arguments frames position (argument :: rest) (expected :: others) = .ok texts ↔
      ∃ a, argument frames = .ok a ∧ expected.equiv a.type ∧
        ∃ more, arguments frames (position + 1) rest others = .ok more ∧
          a.text :: more = texts := by
  simp only [arguments, Except.bind_eq_ok, expectType_eq_ok, Except.ok.injEq, exists_const]

theorem call_eq_ok {callee : Expression} {args : List Expression} :
    call callee args frames = .ok emitted ↔
      ∃ c types returns, callee frames = .ok ⟨c, .fn types returns⟩ ∧
        types.length = args.length ∧ ∃ texts, arguments frames 1 args types = .ok texts ∧
          ⟨c ++ ".value(" ++ String.intercalate ", " texts ++ ")", returns⟩ = emitted := by
  simp only [call, Except.bind_eq_ok]
  constructor
  · rintro ⟨⟨c, type⟩, first, done⟩
    cases type with
    | fn types returns =>
      obtain ⟨count, done⟩ := Except.guard_eq_ok.mp done
      obtain ⟨texts, second, ⟨⟩⟩ := Except.bind_eq_ok.mp done
      exact ⟨c, types, returns, first, count, texts, second, rfl⟩
    | prim p => cases done
    | obj fields => cases done
    | list => cases done
  · rintro ⟨c, types, returns, first, count, texts, second, rfl⟩
    refine ⟨⟨c, .fn types returns⟩, first, Except.guard_eq_ok.mpr ⟨count, ?_⟩⟩
    exact Except.bind_eq_ok.mpr ⟨texts, second, rfl⟩

theorem declareParameters_cons_eq_ok {name : String} {names : List String} {type : Ty}
    {types : List Ty} :
    declareParameters (name :: names) (type :: types) frames = .ok after ↔
      Host.isBindable name ∧ ∃ middle, frames.declare name type = .ok middle ∧
        declareParameters names types middle = .ok after := by
  simp only [declareParameters, Except.guard_eq_ok, Except.bind_eq_ok]

theorem function_eq_ok {parameters : List String} {types : List Ty} {body : Body} :
    function parameters types body frames = .ok text ↔
      parameters.length = types.length ∧ ∃ inner,
        declareParameters parameters types (⟨[], true⟩ :: frames) = .ok inner ∧
          ∃ statements outer, body inner = .ok (statements, outer) ∧
            "(" ++ String.intercalate "," parameters ++ ") => \x7b\n" ++ statements ++ "\x7d" =
              text := by
  simp only [function, Except.guard_eq_ok, Except.bind_eq_ok, Except.ok.injEq, Prod.exists]

theorem entries_cons_eq_ok {fields : List (String × Expression)} {name : String} {expected : Ty}
    {rest : List (String × Ty)} :
    entries fields frames ((name, expected) :: rest) = .ok text ↔
      ∃ field, fields.lookup name = some field ∧ ∃ value, field frames = .ok value ∧
        expected.equiv value.type ∧ ∃ others, entries fields frames rest = .ok others ∧
          Text.quote name ++ ": " ++ value.text ++ "," ++ others = text := by
  rw [entries]
  cases fields.lookup name with
  | none => simp
  | some field =>
    simp only [Except.bind_eq_ok, expectType_eq_ok, Except.ok.injEq, exists_const,
      Option.some.injEq, exists_eq_left']

theorem object_eq_ok {fields : List (String × Expression)} {declared : List (String × Ty)} :
    object fields declared frames = .ok text ↔
      (∀ name ∈ Fields.names fields, name ∈ Fields.names declared) ∧
        ∃ inner, entries fields frames declared = .ok inner ∧
          "\x7b" ++ inner ++ "\x7d" = text := by
  have known : (∀ name ∈ Fields.names fields, name ∈ Fields.names declared) ↔
      fields.find? (fun field => (declared.lookup field.1).isNone) = none := by
    rw [List.find?_eq_none]
    constructor
    · intro all field member
      have found := Fields.lookup_isSome.mpr (all field.1 (List.mem_map_of_mem member))
      simp [Option.isSome_iff_ne_none.mp found]
    · intro all name member
      obtain ⟨field, inside, rfl⟩ := List.mem_map.mp member
      have found := all field inside
      rw [Option.isNone_iff_eq_none, ← ne_eq, ← Option.isSome_iff_ne_none] at found
      exact Fields.lookup_isSome.mp found
  rw [known, object]
  cases fields.find? fun field => (declared.lookup field.1).isNone with
  | some field => simp
  | none => simp only [Except.bind_eq_ok, Except.ok.injEq, true_and]

theorem literal_eq_ok {descriptor : Node} {value : Option Payload} {parameters : List String}
    {body : Body} {fields : List (String × Expression)} :
    literal descriptor value parameters body fields frames = .ok emitted ↔
      ∃ tag, descriptor.descriptorTag = .ok tag ∧ ∃ type, descriptor.lower = .ok type ∧
        ∃ inner, payload tag type value parameters body fields frames = .ok inner ∧
          ∃ constructor, type.constructor = .ok constructor ∧
            ⟨Host.value inner constructor, type⟩ = emitted := by
  simp only [literal, Except.bind_eq_ok, Except.ok.injEq]

/-! ## Statements -/

theorem bind_eq_ok {name : String} {value : Expression} :
    bind name value frames = .ok (text, after) ↔
      Host.isBindable name ∧ ∃ v, value frames = .ok v ∧
        frames.declare name v.type = .ok after ∧ "let " ++ name ++ " = " ++ v.text = text := by
  simp only [bind, Except.guard_eq_ok, Except.bind_eq_ok, Except.ok.injEq, Prod.mk.injEq]
  constructor
  · rintro ⟨bindable, v, first, middle, declared, same, rfl⟩
    exact ⟨bindable, v, first, declared, same⟩
  · rintro ⟨bindable, v, first, declared, same⟩
    exact ⟨bindable, v, first, after, declared, same, rfl⟩

theorem keepFrames_eq_ok {emit : Frames → Except CompileError String} :
    keepFrames emit frames = .ok (text, after) ↔ emit frames = .ok text ∧ frames = after := by
  simp only [keepFrames, Except.bind_eq_ok, Except.ok.injEq, Prod.mk.injEq]
  constructor
  · rintro ⟨_, done, rfl, same⟩
    exact ⟨done, same⟩
  · rintro ⟨done, same⟩
    exact ⟨text, done, rfl, same⟩

theorem assign_eq_ok {target : Node} {value : Expression} :
    assign target value frames = .ok text ↔
      ∃ name, target = .ident name ∧ ∃ declared, frames.type? name = some declared ∧
        ∃ v, value frames = .ok v ∧ declared.equiv v.type ∧
          name ++ " = " ++ v.text = text := by
  unfold assign
  split
  · next name =>
    simp only [Except.bind_eq_ok, resolve_eq_ok, expectType_eq_ok, Except.ok.injEq, exists_const,
      Node.ident.injEq, exists_eq_left']
  · next other =>
    constructor
    · intro failed
      cases failed
    · rintro ⟨name, same, -⟩
      exact absurd same (other name)

theorem ret_eq_ok {value : Option Expression} {left : Option String} :
    ret value frames = .ok left ↔
      (¬frames.inFunction ∧ none = left) ∨ (frames.inFunction ∧ match value with
        | none => some "return" = left
        | some value => ∃ v, value frames = .ok v ∧ some ("return " ++ v.text) = left) := by
  unfold ret
  cases frames.inFunction with
  | false => simp
  | true => cases value <;> simp [Except.bind_eq_ok]

theorem condition_eq_ok {value : Expression} {site : Site} :
    condition value site frames = .ok text ↔
      ∃ v, value frames = .ok v ∧ Ty.bool.equiv v.type ∧ v.text = text := by
  simp only [condition, Except.bind_eq_ok, expectType_eq_ok, Except.ok.injEq, exists_const]

theorem block_eq_ok {body : Body} :
    block body frames = .ok text ↔ ∃ statements outer,
      body (⟨[], false⟩ :: frames) = .ok (statements, outer) ∧
        "\x7b\n" ++ statements ++ "\x7d" = text := by
  simp only [block, Except.bind_eq_ok, Except.ok.injEq, Prod.exists]

theorem branch_eq_ok {test : Expression} {body : Body} {otherwise : Option Body} :
    branch test body otherwise frames = .ok text ↔
      ∃ t, condition test .ifCondition frames = .ok t ∧ ∃ b, block body frames = .ok b ∧
        match otherwise with
        | none => "if (" ++ t ++ ".value) " ++ b = text
        | some otherwise => ∃ o, block otherwise frames = .ok o ∧
            "if (" ++ t ++ ".value) " ++ b ++ " else " ++ o = text := by
  cases otherwise <;> simp only [branch, Except.bind_eq_ok, Except.ok.injEq]

theorem loop_eq_ok {test : Expression} {body : Body} :
    loop test body frames = .ok text ↔
      ∃ t, condition test .whileCondition frames = .ok t ∧ ∃ b, block body frames = .ok b ∧
        "while (" ++ t ++ ".value) " ++ b = text := by
  simp only [loop, Except.bind_eq_ok, Except.ok.injEq]

theorem statements_cons_eq_ok
    {statement : Frames → Except CompileError (Option String × Frames)}
    {rest : List (Frames → Except CompileError (Option String × Frames))} :
    statements (statement :: rest) frames = .ok (text, after) ↔
      ∃ first middle, statement frames = .ok (first, middle) ∧
        ∃ others, statements rest middle = .ok (others, after) ∧
          Emit.terminated first ++ others = text := by
  simp only [statements, Except.bind_eq_ok, Except.ok.injEq, Prod.exists, Prod.mk.injEq]
  constructor
  · rintro ⟨first, middle, done, others, last, more, same, rfl⟩
    exact ⟨first, middle, done, others, more, same⟩
  · rintro ⟨first, middle, done, others, more, same⟩
    exact ⟨first, middle, done, others, after, more, same, rfl⟩

end Lexical

end Arbor
