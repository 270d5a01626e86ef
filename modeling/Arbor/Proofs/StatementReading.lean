import Arbor.Proofs.ExpressionReading

/-!
# Statements read back

`ReadsStatement text statement` and `ReadsBody text body` say what the reader makes of the text of
a statement, up to the semicolon behind it, and of a body, up to its end. One lemma for each kind
of statement, and one for function literals, which hold a body.
-/

namespace Arbor.Reading

/-- The text is read as the statement, up to its end. -/
structure ReadsStatement (text : String) (statement : Normal) : Prop where
  starts : Starts text.toList
  read : ∀ rest, statement? (text.toList ++ ';' :: rest) = some (statement, ';' :: rest)

/-- A body ends here. -/
def Closes (rest : List Char) : Prop :=
  rest = [] ∨ ∃ more, rest = '\x7d' :: more

/-- The text is read as the body, up to its end. -/
def ReadsBody (text : String) (body : List Normal) : Prop :=
  ∀ rest, Closes rest → body? (text.toList ++ rest) = some (body, rest)

variable {text : String} {expression : Normal}

/-! ## Simple statements -/

section Keywords

variable {text : List Char}

theorem statement?_let (word : nameAt text = "let") :
    statement? text = binding? (behindName text) := by
  rw [statement?, if_pos word, run_eq_apply]

theorem statement?_return (word : nameAt text = "return") :
    statement? text = return? (behindName text) := by
  rw [statement?, word, if_neg (by decide), if_pos rfl, run_eq_apply]

theorem statement?_if (word : nameAt text = "if") :
    statement? text = branch? (behindName text) := by
  rw [statement?, word, if_neg (by decide), if_neg (by decide), if_pos rfl, run_eq_apply]

theorem statement?_while (word : nameAt text = "while") :
    statement? text = loop? (behindName text) := by
  rw [statement?, word, if_neg (by decide), if_neg (by decide), if_neg (by decide), if_pos rfl,
    run_eq_apply]

theorem statement?_other (word : nameAt text ∉ keywords) : statement? text = assignment? text := by
  have other (keyword : String) (listed : keyword ∈ keywords) : nameAt text ≠ keyword := by
    rintro rfl
    exact word listed
  rw [statement?, if_neg (other "let" (by decide)), if_neg (other "return" (by decide)),
    if_neg (other "if" (by decide)), if_neg (other "while" (by decide)),
    run_eq_apply]

end Keywords

theorem readsStatement_bind {name : String} (bindable : Host.isBindable name)
    (value : Reads text expression) :
    ReadsStatement ("let " ++ name ++ " = " ++ text) (.bind name expression) where
  starts := by
    simp only [String.toList_append, List.append_assoc]
    exact ⟨'l', _, rfl, rfl⟩
  read rest := by
    have named := isName_of_isBindable bindable
    have ends : Ends (" = ".toList ++ (text.toList ++ ';' :: rest)) := ends_cons rfl
    simp only [String.toList_append, List.append_assoc]
    rw [statement?_let]
    · show binding? (" ".toList ++ (name.toList ++ (" = ".toList ++ (text.toList ++ _)))) = _
      rw [binding?, behind_append]
      simp only [run_eq_apply, Option.bind_eq_bind, Option.bind_some, nameAt_append named ends,
        behindName_append named ends, behind_append,
        value.alone (';' :: rest) (ends_cons rfl) rfl]
    · rfl

theorem readsStatement_assign {name : String} (bindable : Host.isBindable name)
    (value : Reads text expression) :
    ReadsStatement (name ++ " = " ++ text) (.assign name expression) where
  starts := by
    rw [String.toList_append, String.toList_append, List.append_assoc]
    exact (starts_of_isBindable bindable).append _
  read rest := by
    have named := isName_of_isBindable bindable
    have ends : Ends (" = ".toList ++ (text.toList ++ ';' :: rest)) := ends_cons rfl
    simp only [String.toList_append, List.append_assoc]
    rw [statement?_other, assignment?, nameAt_append named ends, behindName_append named ends,
      behind_append]
    · simp only [run_eq_apply, Option.bind_eq_bind, Option.bind_some,
        value.alone (';' :: rest) (ends_cons rfl) rfl]
    · rw [nameAt_append named ends]
      exact not_keyword_of_isBindable bindable

theorem readsStatement_ret : ReadsStatement "return" (.ret none) where
  starts := ⟨'r', _, rfl, rfl⟩
  read rest := by
    rw [statement?_return]
    · show return? (';' :: rest) = _
      rw [return?]
      rfl
    · rfl

theorem readsStatement_ret_value (value : Reads text expression) :
    ReadsStatement ("return " ++ text) (.ret (some expression)) where
  starts := by
    rw [String.toList_append]
    exact ⟨'r', _, rfl, rfl⟩
  read rest := by
    rw [String.toList_append, List.append_assoc, statement?_return]
    · show return? (" ".toList ++ (text.toList ++ ';' :: rest)) = _
      rw [return?, behind_append]
      simp only [run_eq_apply, Option.bind_eq_bind, Option.bind_some,
        value.alone (';' :: rest) (ends_cons rfl) rfl]
    · rfl

theorem Opens.behind_assign {text : List Char} (opens : Opens text) (rest : List Char) :
    behind " = " (behindName (text ++ ';' :: rest)) = none := by
  cases opens with
  | name bindable =>
    rw [behindName_append (isName_of_isBindable bindable) (ends_cons rfl)]
    rfl
  | call _ bindable =>
    rw [List.append_assoc, behindName_append (isName_of_isBindable bindable)]
    · rfl
    · exact ends_cons rfl
  | value => rfl
  | default _ built =>
    rw [List.append_assoc]
    exact behind_assign_constructor built _

/-- An expression is a statement. -/
theorem Reads.statement (reads : Reads text expression) : ReadsStatement text expression where
  starts := reads.opens.starts
  read rest := by
    rw [statement?_other, assignment?, reads.opens.behind_assign]
    · exact reads.alone (';' :: rest) (ends_cons rfl) rfl
    · exact reads.opens.not_keyword (ends_cons rfl)

/-! ## Bodies -/

theorem readsBody_nil : ReadsBody "" [] := by
  rintro rest (rfl | ⟨more, rfl⟩)
  · exact body?.eq_1
  · exact body?.eq_2 more

theorem readsBody_cons {others : String} {statement : Normal} {body : List Normal}
    (first : ReadsStatement text statement) (more : ReadsBody others body) :
    ReadsBody (text ++ ";\n" ++ others) (statement :: body) := by
  intro rest closes
  have starts := first.starts.append (";\n".toList ++ (others.toList ++ rest))
  simp only [String.toList_append, List.append_assoc]
  rw [body?]
  · show (statement? (text.toList ++ ';' :: ('\n' :: (others.toList ++ rest))) >>= _) = _
    rw [first.read]
    show (body? (others.toList ++ rest) >>= _) = _
    rw [more rest closes]
    rfl
  · intro none
    rw [none] at starts
    obtain ⟨_, _, ⟨⟩, _⟩ := starts
  · exact starts.ne rfl

/-- The text is read as the body between braces. -/
def ReadsBlock (text : String) (body : List Normal) : Prop :=
  ∀ rest, block? (text.toList ++ rest) = some (body, rest)

theorem ReadsBody.block {body : List Normal} (inner : ReadsBody text body) :
    ReadsBlock ("\x7b\n" ++ text ++ "\x7d") body := by
  intro rest
  simp only [String.toList_append, List.append_assoc]
  rw [block?, behind_append]
  show (body? (text.toList ++ '\x7d' :: rest) >>= _) = _
  rw [inner _ (.inr ⟨rest, rfl⟩)]
  rfl

/-! ## Branches and loops -/

section Guarded

variable {block other : String} {body otherwise : List Normal} (condition : Reads text expression)
  (inner : ReadsBlock block body)
include condition inner

theorem guarded?_block (rest : List Char) :
    guarded? (" (".toList ++ (text.toList ++ (".value) ".toList ++ (block.toList ++ rest)))) =
      some ((expression, body), rest) := by
  rw [guarded?, behind_append]
  simp only [run_eq_apply, Option.bind_eq_bind, Option.bind_some]
  rw [condition.alone (".value) ".toList ++ _) (ends_cons rfl) rfl]
  simp only [Option.bind_some, behind_append, inner rest]

theorem readsStatement_loop :
    ReadsStatement ("while (" ++ text ++ ".value) " ++ block) (.loop expression body) where
  starts := by
    simp only [String.toList_append, List.append_assoc]
    exact ⟨'w', _, rfl, rfl⟩
  read rest := by
    simp only [String.toList_append, List.append_assoc]
    rw [statement?_while]
    · show loop? (" (".toList ++ (text.toList ++ _)) = _
      rw [loop?, run_eq_apply, guarded?_block condition inner]
      rfl
    · rfl

theorem readsStatement_branch :
    ReadsStatement ("if (" ++ text ++ ".value) " ++ block) (.branch expression body none) where
  starts := by
    simp only [String.toList_append, List.append_assoc]
    exact ⟨'i', _, rfl, rfl⟩
  read rest := by
    simp only [String.toList_append, List.append_assoc]
    rw [statement?_if]
    · show branch? (" (".toList ++ (text.toList ++ _)) = _
      rw [branch?, run_eq_apply, guarded?_block condition inner]
      rfl
    · rfl

theorem readsStatement_branch_else (last : ReadsBlock other otherwise) :
    ReadsStatement ("if (" ++ text ++ ".value) " ++ block ++ " else " ++ other)
      (.branch expression body (some otherwise)) where
  starts := by
    simp only [String.toList_append, List.append_assoc]
    exact ⟨'i', _, rfl, rfl⟩
  read rest := by
    simp only [String.toList_append, List.append_assoc]
    rw [statement?_if]
    · show branch? (" (".toList ++ (text.toList ++ _)) = _
      rw [branch?, run_eq_apply, guarded?_block condition inner]
      simp only [run_eq_apply, Option.bind_eq_bind, Option.bind_some, behind_append,
        last (';' :: rest)]
    · rfl

end Guarded

/-! ## Functions -/

theorem parameters?_intercalate {names : List String} (bindable : ∀ name ∈ names, Host.isBindable name)
    (rest : List Char) :
    parameters? ((String.intercalate "," names).toList ++ ')' :: rest) = some (names, rest) := by
  induction names with
  | nil =>
    rw [String.intercalate_nil]
    exact parameters?.eq_1 rest
  | cons name others ih =>
    have first := bindable name (by simp)
    have named := isName_of_isBindable first
    have starts := starts_of_isBindable first
    cases others with
    | nil =>
      rw [String.intercalate_singleton, parameters?, nameAt_append named (ends_cons rfl),
        behindName_append named (ends_cons rfl)]
      · rfl
      · exact (starts.append _).ne rfl
    | cons second others =>
      have readMore := ih fun name member => bindable name (by simp [member])
      rw [String.intercalate_cons_cons]
      simp only [String.toList_append, List.append_assoc]
      rw [parameters?, nameAt_append named, behindName_append named]
      · show (parameters? ((String.intercalate "," (second :: others)).toList ++ _) >>= _) = _
        rw [readMore]
        rfl
      · exact ends_cons rfl
      · exact ends_cons rfl
      · exact (starts.append _).ne rfl

theorem reads_function {parameters : List String} {body : List Normal}
    (bindable : ∀ name ∈ parameters, Host.isBindable name) (inner : ReadsBody text body)
    {type : Ty} {constructor : String} (built : type.constructor = .ok constructor) :
    Reads (Host.value ("(" ++ String.intercalate "," parameters ++ ") => \x7b\n" ++ text ++ "\x7d")
      constructor) (.literal type (.function parameters body)) := by
  apply reads_value
  intro rest
  simp only [String.toList_append, List.append_assoc]
  show value? ('(' :: ((String.intercalate "," parameters).toList ++
    ')' :: (" => \x7b\n".toList ++ (text.toList ++ ("\x7d".toList ++ behindPayload constructor rest))))) = _
  rw [value?, parameters?_intercalate bindable]
  simp only [run_eq_apply, Option.bind_eq_bind, Option.bind_some, behind_append]
  rw [inner ("\x7d".toList ++ _) (.inr ⟨_, rfl⟩)]
  simp only [Option.bind_some, behind_append, typed?_behindPayload built]

end Arbor.Reading
