import Arbor.Proofs.Tables
import Arbor.Proofs.TypeReading
import Mathlib.Data.List.Forall2

/-!
# Expressions read back

`Reads text expression` says that the reader makes `expression` of `text`, whatever follows, and
that `text` opens like an expression. One lemma for each kind of expression: it is read back when
its parts are. The reader comes to a call last, so what stands behind an expression is left to it
as calls.
-/

namespace Arbor.Reading

/-! ## Names -/

theorem isName_of_isBindable {name : String} (bindable : Host.isBindable name) : IsName name := by
  intro c member
  unfold Host.isBindable at bindable
  cases same : name.toList with
  | nil => simp [same] at member
  | cons first rest =>
    simp only [same, Bool.and_eq_true, List.all_eq_true] at bindable
    rw [same] at member
    rcases List.mem_cons.mp member with rfl | member
    · have start := bindable.1.1
      simp only [Host.isNameStart, Host.isNamePart, Char.isAlphanum, Bool.or_eq_true] at start ⊢
      rcases start with (start | start) | start <;> simp [start]
    · exact bindable.1.2 c member

theorem starts_of_isBindable {name : String} (bindable : Host.isBindable name) :
    Starts name.toList := by
  unfold Host.isBindable at bindable
  split at bindable
  · cases bindable
  · next first rest same =>
    simp only [Bool.and_eq_true] at bindable
    exact ⟨first, rest, same, bindable.1.1⟩

theorem ne_of_reserved {name word : String} (bindable : Host.isBindable name)
    (reserved : word ∈ Host.reservedWords) : name ≠ word := by
  rintro rfl
  unfold Host.isBindable at bindable
  split at bindable
  · cases bindable
  · simp [reserved] at bindable

/-- A text that begins with a name does not begin with a word that begins with a reserved one. -/
theorem behind_reserved {name word : String} (bindable : Host.isBindable name) {rest : List Char}
    (ends : Ends rest) (reserved : ∀ more, nameAt (word.toList ++ more) ∈ Host.reservedWords) :
    behind word (name.toList ++ rest) = none := by
  rw [Option.eq_none_iff_forall_not_mem]
  intro last found
  have same := congrArg nameAt (eq_of_behind found)
  rw [nameAt_append (isName_of_isBindable bindable) ends] at same
  exact ne_of_reserved bindable (reserved last) same

/-! ## How expressions open -/

/-- The text opens like an expression: with a name, a value or a default value. -/
inductive Opens : List Char → Prop where
  | name {name : String} : Host.isBindable name → Opens name.toList
  | call {name : String} (more : List Char) : Host.isBindable name →
      Opens (name.toList ++ (".value(".toList ++ more))
  | value (more : List Char) : Opens ("new KYTHERA.value(".toList ++ more)
  | default {type : Ty} {text : String} (more : List Char) : type.constructor = .ok text →
      Opens (text.toList ++ (".makeNew()".toList ++ more))

/-- The words that a statement or a payload can begin with and an expression cannot. -/
def keywords : List String :=
  ["true", "false", "null", "let", "return", "if", "while"]

section Constructors

variable {type : Ty} {constructor : String} (built : type.constructor = .ok constructor)
  (rest : List Char)
include built

theorem constructor_not_keyword : nameAt (constructor.toList ++ rest) ∉ keywords := by
  obtain ⟨tail, opens | opens⟩ := constructor_opens built
  · rw [opens]
    show "KYTHERA" ∉ keywords
    decide
  · rw [opens]
    show "new" ∉ keywords
    decide

theorem behind_value_constructor :
    behind "new KYTHERA.value(" (constructor.toList ++ rest) = none := by
  obtain ⟨tail, opens | opens⟩ := constructor_opens built <;> rw [opens] <;> rfl

theorem behind_trunc_constructor : behind "Math.trunc(" (constructor.toList ++ rest) = none := by
  obtain ⟨tail, opens | opens⟩ := constructor_opens built <;> rw [opens] <;> rfl

theorem behind_assign_constructor :
    behind " = " (behindName (constructor.toList ++ rest)) = none := by
  obtain ⟨tail, opens | opens⟩ := constructor_opens built <;> rw [opens] <;> rfl

end Constructors

variable {text rest : List Char}

theorem Opens.append_call (opens : Opens text) (more : List Char) :
    Opens (text ++ (".value(".toList ++ more)) := by
  cases opens with
  | name bindable => exact .call more bindable
  | call =>
    rw [List.append_assoc, List.append_assoc]
    exact .call _ ‹_›
  | value =>
    rw [List.append_assoc]
    exact .value _
  | default _ built =>
    rw [List.append_assoc, List.append_assoc]
    exact .default _ built

theorem Opens.starts (opens : Opens text) : Starts text := by
  cases opens with
  | name bindable => exact starts_of_isBindable bindable
  | call _ bindable => exact (starts_of_isBindable bindable).append _
  | value => exact ⟨'n', _, rfl, rfl⟩
  | default _ built => exact (starts_constructor built).append _

theorem not_keyword_of_isBindable {name : String} (bindable : Host.isBindable name) :
    name ∉ keywords := by
  have reserved : ∀ word ∈ keywords, word ∈ Host.reservedWords := by decide
  intro member
  exact ne_of_reserved bindable (reserved name member) rfl

theorem Opens.not_keyword (opens : Opens text) (ends : Ends rest) :
    nameAt (text ++ rest) ∉ keywords := by
  cases opens with
  | name bindable =>
    rw [nameAt_append (isName_of_isBindable bindable) ends]
    exact not_keyword_of_isBindable bindable
  | call _ bindable =>
    rw [List.append_assoc, nameAt_append (isName_of_isBindable bindable)]
    · exact not_keyword_of_isBindable bindable
    · exact ends_cons rfl
  | value =>
    show "new" ∉ keywords
    decide
  | default _ built =>
    rw [List.append_assoc]
    exact constructor_not_keyword built _

/-! ## Names, default values and calls -/

/-- An expression with the calls behind it. -/
def called? (callee : Normal) : Reader Normal := fun text => do
  let (calls, rest) ← calls?.run text
  some (calls.foldl .call callee, rest)

theorem called?_alone (callee : Normal) (last : behind ".value(" rest = none) :
    called? callee rest = some (callee, rest) := by
  rw [called?, run_eq_apply, calls?, last]
  rfl

/-- The text is read as the expression, and what follows it as calls. -/
structure Reads (text : String) (expression : Normal) : Prop where
  opens : Opens text.toList
  read : ∀ rest, Ends rest → expression? (text.toList ++ rest) = called? expression rest

theorem Reads.alone {text : String} {expression : Normal} (reads : Reads text expression)
    (rest : List Char) (ends : Ends rest) (last : behind ".value(" rest = none) :
    expression? (text.toList ++ rest) = some (expression, rest) := by
  rw [reads.read rest ends, called?_alone expression last]

theorem type?_name {name : String} (bindable : Host.isBindable name) (ends : Ends rest) :
    type? (name.toList ++ rest) = none := by
  have runtime : "KYTHERA" ∈ Host.reservedWords := by decide
  have new : "new" ∈ Host.reservedWords := by decide
  have primitive : behind "KYTHERA.type.PRIMITIVES[\"" (name.toList ++ rest) = none :=
    behind_reserved bindable ends fun _ => runtime
  have function : behind "new KYTHERA.type(\"fn\", \x7b parameters: [" (name.toList ++ rest) = none :=
    behind_reserved bindable ends fun _ => new
  have object : behind "new KYTHERA.type(\"obj\", \x7b" (name.toList ++ rest) = none :=
    behind_reserved bindable ends fun _ => new
  rw [type?, primitive]
  dsimp only
  rw [function]
  dsimp only
  rw [object]
  rfl

theorem reads_ident {name : String} (bindable : Host.isBindable name) :
    Reads name (.ident name) where
  opens := .name bindable
  read rest ends := by
    have named := isName_of_isBindable bindable
    have new : "new" ∈ Host.reservedWords := by decide
    have value : behind "new KYTHERA.value(" (name.toList ++ rest) = none :=
      behind_reserved bindable ends fun _ => new
    rw [expression?, run_eq_apply, head?, value]
    dsimp only
    rw [run_eq_apply, type?_name bindable ends]
    show called? (.ident (nameAt _)) (behindName _) = _
    rw [nameAt_append named ends, behindName_append named ends]

theorem reads_new {type : Ty} {constructor : String} (built : type.constructor = .ok constructor) :
    Reads (constructor ++ ".makeNew()") (.new type) where
  opens := by
    rw [String.toList_append, ← List.append_nil ".makeNew()".toList]
    exact .default [] built
  read rest ends := by
    rw [String.toList_append, List.append_assoc, expression?, run_eq_apply, head?,
      behind_value_constructor built]
    dsimp only
    rw [run_eq_apply, readsType type constructor built]
    dsimp only
    rw [behind_append]
    rfl

/-- Arguments are read back up to the closing parenthesis. -/
theorem arguments?_intercalate {texts : List String} {expressions : List Normal}
    (parts : List.Forall₂ Reads texts expressions) (rest : List Char) :
    arguments? ((String.intercalate ", " texts).toList ++ ')' :: rest) =
      some (expressions, rest) := by
  induction parts with
  | nil =>
    rw [String.intercalate_nil]
    exact arguments?.eq_1 rest
  | @cons text expression texts expressions first others ih =>
    have starts := first.opens.starts
    cases others with
    | nil =>
      rw [String.intercalate_singleton, arguments?, run_eq_apply,
        first.alone (')' :: rest) (ends_cons rfl) rfl]
      · rfl
      · exact (starts.append _).ne rfl
    | @cons second _ more _ _ _ =>
      rw [String.intercalate_cons_cons]
      simp only [String.toList_append, List.append_assoc]
      rw [arguments?, run_eq_apply, first.alone (", ".toList ++ _) (ends_cons rfl) rfl]
      · show (arguments? ((String.intercalate ", " (second :: more)).toList ++ _) >>= _) = _
        rw [ih]
        rfl
      · exact (starts.append _).ne rfl

theorem reads_call {callee : String} {expression : Normal} {texts : List String}
    {arguments : List Normal} (first : Reads callee expression)
    (parts : List.Forall₂ Reads texts arguments) :
    Reads (callee ++ ".value(" ++ String.intercalate ", " texts ++ ")")
      (.call expression arguments) where
  opens := by
    simp only [String.toList_append, List.append_assoc]
    exact first.opens.append_call _
  read rest ends := by
    simp only [String.toList_append, List.append_assoc]
    rw [first.read, called?, run_eq_apply, calls?, behind_append]
    · show ((arguments? ((String.intercalate ", " texts).toList ++ ')' :: rest) >>= _) >>= _) = _
      rw [arguments?_intercalate parts]
      exact Option.bind_assoc (calls? rest) _ _
    · exact ends_cons rfl

/-! ## Values -/

/-- A value is read back when its payload is, together with the type behind it. -/
theorem reads_value {payload constructor : String} {expression : Normal}
    (inner : ∀ rest,
      value? (payload.toList ++ behindPayload constructor rest) = some (expression, rest)) :
    Reads (Host.value payload constructor) expression where
  opens := by
    simp only [Host.value, String.toList_append, List.append_assoc]
    exact .value _
  read rest _ := by
    simp only [Host.value, String.toList_append, List.append_assoc]
    show expression?
      ("new KYTHERA.value(".toList ++ (payload.toList ++ behindPayload constructor rest)) = _
    rw [expression?, run_eq_apply, head?, behind_append]
    dsimp only
    rw [run_eq_apply, inner]
    rfl

theorem isNumeral_of_isNameStart {c : Char} (start : Host.isNameStart c) : isNumeral c = false := by
  rw [Bool.eq_false_iff]
  intro numeral
  simp only [Host.isNameStart, isNumeral, Bool.or_eq_true, beq_iff_eq] at start numeral
  rcases start with (alpha | rfl) | rfl
  · rcases numeral with (digit | rfl) | rfl
    · delta Char.isAlpha Char.isUpper Char.isLower at alpha
      delta Char.isDigit at digit
      grind
    · cases alpha
    · cases alpha
  · simp at numeral
  · simp at numeral

/-- A payload that begins like a name is a word, a type or an operation. -/
theorem value?_word (starts : Starts text) : value? text = word? text := by
  obtain ⟨c, rest, rfl, start⟩ := starts
  rw [value?]
  · simp [isNumeral_of_isNameStart start, run_eq_apply]
  all_goals
    rintro _ ⟨⟩
    cases start

theorem value?_numeral (numeral : text.takeWhile isNumeral ≠ [])
    (sign : ∀ more, text ≠ '-' :: '(' :: more) :
    value? text = (do
      let (type, rest) ← typed?.run (text.dropWhile isNumeral)
      let value ← number? type (text.takeWhile isNumeral)
      some (.literal type value, rest)) := by
  rw [value?]
  · simp [numeral]
  · rintro _ rfl
    exact numeral rfl
  · rintro _ rfl
    exact numeral rfl
  · rintro _ rfl
    exact numeral rfl
  · exact sign
  · rintro _ rfl
    exact numeral rfl

theorem lookup_words {word : String} (other : word ∉ keywords) : words.lookup word = none := by
  have known : ∀ word ∈ Fields.names words, word ∈ keywords := by decide
  have unknown : word ∉ Fields.names words := fun member => other (known word member)
  rw [← Fields.lookup_isSome, Option.not_isSome_iff_eq_none] at unknown
  exact unknown

section Payloads

variable {type : Ty} {constructor : String} (built : type.constructor = .ok constructor)
include built

theorem value?_str (text : String) (rest : List Char) :
    value? ((Text.quote text).toList ++ behindPayload constructor rest) =
      some (.literal type (.str text), rest) := by
  rw [toList_quote, List.cons_append, value?, ← List.cons_append, ← toList_quote, run_eq_apply,
    quoted?_quote]
  dsimp only
  show (typed? (behindPayload constructor rest) >>= _) = _
  rw [typed?_behindPayload built]
  rfl

theorem value?_of_words (word : String) {value : NormalValue}
    (known : words.lookup word = some value) (named : IsName word)
    (starts : Starts word.toList) (rest : List Char) :
    value? (word.toList ++ behindPayload constructor rest) =
      some (.literal type value, rest) := by
  have ends : Ends (behindPayload constructor rest) := ends_cons rfl
  rw [value?_word (starts.append _), word?, nameAt_append named ends, known]
  dsimp only
  rw [behindName_append named ends, run_eq_apply, typed?_behindPayload built]
  rfl

theorem value?_bool (b : Bool) (rest : List Char) :
    value? ((if b then "true" else "false").toList ++ behindPayload constructor rest) =
      some (.literal type (.bool b), rest) := by
  cases b with
  | true => exact value?_of_words built "true" rfl (by decide) ⟨'t', _, rfl, rfl⟩ rest
  | false => exact value?_of_words built "false" rfl (by decide) ⟨'f', _, rfl, rfl⟩ rest

theorem value?_null (rest : List Char) :
    value? ("null".toList ++ behindPayload constructor rest) =
      some (.literal type .null, rest) :=
  value?_of_words built "null" rfl (by decide) ⟨'n', _, rfl, rfl⟩ rest

theorem value?_number {numeral : List Char} (isNumber : Numeral numeral) {value : NormalValue}
    (known : number? type numeral = some value) (rest : List Char) :
    value? (numeral ++ behindPayload constructor rest) =
      some (.literal type value, rest) := by
  have taken : (numeral ++ behindPayload constructor rest).takeWhile isNumeral = numeral := by
    rw [List.takeWhile_append_of_pos isNumber.all]
    exact List.append_nil _
  have left : (numeral ++ behindPayload constructor rest).dropWhile isNumeral =
      behindPayload constructor rest := by
    rw [List.dropWhile_append_of_pos isNumber.all]
    rfl
  rw [value?_numeral, taken, left, run_eq_apply, typed?_behindPayload built]
  · show (number? type numeral >>= _) = _
    rw [known]
    rfl
  · rw [taken]
    exact isNumber.ne_nil
  · exact isNumber.not_negation _

/-- A type in a value is told from an operation by the comma behind it. -/
theorem value?_type {described : Ty} {text : String} (builds : described.constructor = .ok text)
    (rest : List Char) :
    value? (text.toList ++ behindPayload constructor rest) =
      some (.literal type (.type described), rest) := by
  rw [value?_word ((starts_constructor builds).append _), word?,
    lookup_words (constructor_not_keyword builds _)]
  dsimp only
  rw [behind_trunc_constructor builds]
  dsimp only
  rw [run_eq_apply, readsType described text builds]
  show (typed? (behindPayload constructor rest) >>= _) = _
  rw [typed?_behindPayload built]
  rfl

end Payloads

/-! ## Operators -/

theorem operator?_hostSymbol (op : BinaryOp) (rest : List Char) :
    operator? ((hostSymbol op).toList ++ (" ".toList ++ rest)) = some (op, rest) := by
  cases op <;> rfl

theorem operation?_between {left right : String} {l r : Normal} (first : Reads left l)
    (second : Reads right r) (op : BinaryOp)
    (last : behind ".value(" (".value".toList ++ rest) = none) :
    operation? (left.toList ++ (".value ".toList ++ ((hostSymbol op).toList ++ (" ".toList ++
      (right.toList ++ (".value".toList ++ rest)))))) = some (.binary op l r, rest) := by
  rw [operation?, run_eq_apply, first.alone (".value ".toList ++ _) (ends_cons rfl) rfl]
  simp only [run_eq_apply, Option.bind_eq_bind, Option.bind_some, behind_append,
    operator?_hostSymbol]
  rw [second.alone (".value".toList ++ _) (ends_cons rfl) last]
  simp only [Option.bind_some, behind_append]

/-- A payload that is none of the others is an operation. -/
theorem word?_operation (word : nameAt text ∉ keywords) (trunc : behind "Math.trunc(" text = none)
    (undescribed : ∀ type more, type? text ≠ some (type, ',' :: more)) :
    word? text = (do
      let (operation, rest) ← operation?.run text
      let (_, rest) ← typed?.run rest
      some (operation, rest)) := by
  rw [word?, lookup_words word, trunc]
  dsimp only
  split
  · next described => exact absurd described (undescribed _ _)
  · rfl

theorem behind_trunc_name {name : String} (bindable : Host.isBindable name) (more : List Char) :
    behind "Math.trunc(" (name.toList ++ (".value".toList ++ more)) = none := by
  rw [Option.eq_none_iff_forall_not_mem]
  intro last found
  have ends : Ends (".value".toList ++ more) := ends_cons rfl
  have same := congrArg behindName (eq_of_behind found)
  rw [behindName_append (isName_of_isBindable bindable) ends] at same
  cases same

theorem Opens.behind_trunc (opens : Opens text) (rest : List Char) :
    behind "Math.trunc(" (text ++ (".value ".toList ++ rest)) = none := by
  cases opens with
  | name bindable => exact behind_trunc_name bindable (' ' :: rest)
  | call more bindable =>
    rw [List.append_assoc]
    exact behind_trunc_name bindable ('(' :: (more ++ _))
  | value => rfl
  | default _ built =>
    rw [List.append_assoc]
    exact behind_trunc_constructor built _

theorem Opens.undescribed (opens : Opens text) (rest : List Char) (type : Ty) (more : List Char) :
    type? (text ++ (".value ".toList ++ rest)) ≠ some (type, ',' :: more) := by
  cases opens with
  | name bindable =>
    rw [type?_name bindable]
    · rintro ⟨⟩
    · exact ends_cons rfl
  | call more bindable =>
    rw [List.append_assoc, type?_name bindable]
    · rintro ⟨⟩
    · exact ends_cons rfl
  | value =>
    rw [type?]
    rintro ⟨⟩
  | default _ built =>
    rw [List.append_assoc, readsType _ _ built]
    rintro ⟨⟩

/-- The quotient of whole numbers is cut down to one, and no other operation is. -/
theorem operation_cases (op : BinaryOp) (type : Ty) (left right : String) :
    Emit.operation op type left right =
        left ++ ".value " ++ hostSymbol op ++ " " ++ right ++ ".value" ∨
      Emit.operation op type left right =
        "Math.trunc(" ++ (left ++ ".value " ++ hostSymbol op ++ " " ++ right ++ ".value") ++ ")" := by
  cases op with
  | div =>
    unfold Emit.operation
    dsimp only
    split
    · exact .inr rfl
    · exact .inl rfl
  | _ => exact .inl rfl

theorem value?_operation {left right : String} {l r : Normal} (first : Reads left l)
    (second : Reads right r) (op : BinaryOp) (operands : Ty) {type : Ty} {constructor : String}
    (built : type.constructor = .ok constructor) (rest : List Char) :
    value? ((Emit.operation op operands left right).toList ++
      behindPayload constructor rest) = some (.binary op l r, rest) := by
  rcases operation_cases op operands left right with plain | truncated
  · rw [plain]
    simp only [String.toList_append, List.append_assoc]
    rw [value?_word (first.opens.starts.append _), word?_operation, run_eq_apply,
      operation?_between first second op rfl]
    · show (typed? (behindPayload constructor rest) >>= _) = _
      rw [typed?_behindPayload built]
      rfl
    · exact first.opens.not_keyword (ends_cons rfl)
    · exact first.opens.behind_trunc _
    · exact first.opens.undescribed _
  · rw [truncated]
    simp only [String.toList_append, List.append_assoc]
    rw [value?_word, word?, lookup_words, behind_append]
    · dsimp only
      rw [run_eq_apply, operation?_between first second op rfl]
      show (typed? (behindPayload constructor rest) >>= _) = _
      rw [typed?_behindPayload built]
      rfl
    · show "Math" ∉ keywords
      decide
    · exact ⟨'M', _, rfl, rfl⟩

theorem reads_binary {left right : String} {l r : Normal} (first : Reads left l)
    (second : Reads right r) (op : BinaryOp) (operands : Ty) {type : Ty} {constructor : String}
    (built : type.constructor = .ok constructor) :
    Reads (Host.value (Emit.operation op operands left right) constructor) (.binary op l r) :=
  reads_value (value?_operation first second op operands built)

theorem reads_unary {operand : String} {n : Normal} (first : Reads operand n) (op : UnaryOp)
    {type : Ty} {constructor : String} (built : type.constructor = .ok constructor) :
    Reads (Host.value (op.symbol ++ "(" ++ operand ++ ".value)") constructor) (.unary op n) := by
  have read (rest : List Char) :
      operand? (operand.toList ++ (".value)".toList ++ behindPayload constructor rest)) =
        some (n, rest) := by
    rw [operand?, run_eq_apply, first.alone (".value)".toList ++ _) (ends_cons rfl) rfl]
    simp only [run_eq_apply, Option.bind_eq_bind, Option.bind_some, behind_append,
      typed?_behindPayload built]
  apply reads_value
  intro rest
  simp only [String.toList_append, List.append_assoc]
  cases op with
  | neg =>
    show value? ('-' :: '(' :: (operand.toList ++ _)) = _
    rw [value?, run_eq_apply, read]
    rfl
  | not =>
    show value? ('!' :: '(' :: (operand.toList ++ _)) = _
    rw [value?, run_eq_apply, read]
    rfl

/-! ## Objects -/

/-- The entries are read back up to the closing brace. -/
def ReadsFields (text : String) (fields : List (String × Normal)) : Prop :=
  ∀ rest, fields? (text.toList ++ '\x7d' :: rest) = some (fields, rest)

theorem readsFields_nil : ReadsFields "" [] :=
  fields?.eq_1

theorem readsFields_cons (name : String) {text others : String} {expression : Normal}
    {fields : List (String × Normal)} (first : Reads text expression)
    (more : ReadsFields others fields) :
    ReadsFields (Text.quote name ++ ": " ++ text ++ "," ++ others) ((name, expression) :: fields) := by
  intro rest
  simp only [String.toList_append, List.append_assoc]
  rw [fields?, run_eq_apply, quoted?_quote]
  · simp only [run_eq_apply, Option.bind_eq_bind, Option.bind_some, behind_append]
    rw [first.alone (",".toList ++ _) (ends_cons rfl) rfl]
    simp only [Option.bind_some, behind_append, more rest]
  · rw [toList_quote]
    rintro _ ⟨⟩

theorem reads_object {text : String} {fields : List (String × Normal)}
    (inner : ReadsFields text fields) {type : Ty} {constructor : String}
    (built : type.constructor = .ok constructor) :
    Reads (Host.value ("\x7b" ++ text ++ "\x7d") constructor) (.literal type (.fields fields)) := by
  apply reads_value
  intro rest
  simp only [String.toList_append, List.append_assoc]
  show value? ('\x7b' :: (text.toList ++ '\x7d' :: behindPayload constructor rest)) = _
  rw [value?, run_eq_apply, inner]
  simp only [run_eq_apply, Option.bind_eq_bind, Option.bind_some, typed?_behindPayload built]

end Arbor.Reading
