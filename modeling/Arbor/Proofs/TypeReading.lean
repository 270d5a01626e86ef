import Arbor.Proofs.Constructible
import Arbor.Proofs.Reader

/-!
# Types read back

What the reader makes of the words, names and quoted texts that stand at the head of a text, and
that it reads the constructor of a type back as the type, whatever follows it.
-/

namespace Arbor.Reading

/-! ## Words -/

theorem run_eq_apply {α : Type} (reader : Reader α) (text : List Char) :
    reader.run text = reader text :=
  rfl

theorem skip_append (word rest : List Char) : skip word (word ++ rest) = some rest := by
  induction word with
  | nil => rfl
  | cons c word ih => simp [skip, ih]

theorem eq_of_skip {word text rest : List Char} (found : skip word text = some rest) :
    text = word ++ rest := by
  induction word generalizing text with
  | nil => simpa [skip] using found
  | cons c word ih =>
    cases text with
    | nil => cases found
    | cons d text =>
      rw [skip] at found
      split at found
      · next same => rw [same, ih found, List.cons_append]
      · cases found

@[simp] theorem behind_append (word : String) (rest : List Char) :
    behind word (word.toList ++ rest) = some rest :=
  skip_append word.toList rest

theorem eq_of_behind {word : String} {text rest : List Char} (found : behind word text = some rest) :
    text = word.toList ++ rest :=
  eq_of_skip found

/-- No name goes on at the head of the text. -/
def Ends (text : List Char) : Prop :=
  ∀ c ∈ text.head?, Host.isNamePart c = false

theorem ends_cons {c : Char} {text : List Char} (stop : Host.isNamePart c = false) :
    Ends (c :: text) := by
  rintro _ ⟨⟩
  exact stop

/-- A name can begin at the head of the text. -/
def Starts (text : List Char) : Prop :=
  ∃ c rest, text = c :: rest ∧ Host.isNameStart c

theorem Starts.append {text : List Char} (starts : Starts text) (rest : List Char) :
    Starts (text ++ rest) := by
  obtain ⟨c, more, rfl, start⟩ := starts
  exact ⟨c, more ++ rest, rfl, start⟩

theorem Starts.ne {text : List Char} (starts : Starts text) {c : Char}
    (other : Host.isNameStart c = false) (rest : List Char) : text ≠ c :: rest := by
  obtain ⟨d, more, rfl, start⟩ := starts
  rintro ⟨⟩
  rw [other] at start
  cases start

/-- All characters may follow in a name. -/
def IsName (name : String) : Prop :=
  ∀ c ∈ name.toList, Host.isNamePart c

instance (name : String) : Decidable (IsName name) :=
  decidable_of_iff (name.toList.all Host.isNamePart) List.all_eq_true

theorem nameAt_append {name : String} (named : IsName name) {rest : List Char} (ends : Ends rest) :
    nameAt (name.toList ++ rest) = name := by
  have stop : rest.takeWhile Host.isNamePart = [] := by
    cases rest with
    | nil => rfl
    | cons c rest => simp [ends c rfl]
  rw [nameAt, List.takeWhile_append_of_pos named, stop, List.append_nil, String.ofList_toList]

theorem behindName_append {name : String} (named : IsName name) {rest : List Char}
    (ends : Ends rest) : behindName (name.toList ++ rest) = rest := by
  have stop : rest.dropWhile Host.isNamePart = rest := by
    cases rest with
    | nil => rfl
    | cons c rest => simp [ends c rfl]
  rw [behindName, List.dropWhile_append_of_pos named, stop]

theorem toList_quote (text : String) :
    (Text.quote text).toList = '"' :: (text.toList.flatMap Text.literalEscape ++ ['"']) := by
  rw [Text.quote, Text.toList_quoteWith]

theorem quoted?_quote (text : String) (rest : List Char) :
    quoted? ((Text.quote text).toList ++ rest) = some (text, rest) := by
  have read := StringBody.spells_literalEscape.read text rest
  rw [toList_quote, List.cons_append, List.append_assoc, quoted?, List.singleton_append, read]
  rfl

/-! ## Types -/

/-- The constructor of the type is read back, whatever follows it. -/
def ReadsType (type : Ty) : Prop :=
  ∀ text, type.constructor = .ok text → ∀ rest, type? (text.toList ++ rest) = some (type, rest)

theorem readsType_prim (p : Primitive) : ReadsType (.prim p) := by
  rintro _ ⟨⟩ rest
  rw [type?]
  cases p <;> rfl

/-- A constructor opens with the name of the runtime, or with `new` and that name. -/
theorem constructor_opens {type : Ty} {text : String} (built : type.constructor = .ok text) :
    ∃ more, text.toList = "KYTHERA.type.".toList ++ more ∨
      text.toList = "new KYTHERA.type(".toList ++ more := by
  cases type with
  | prim p =>
    cases built
    simp only [String.toList_append, List.append_assoc]
    exact ⟨_, .inl rfl⟩
  | fn parameters returns =>
    obtain ⟨texts, _, built⟩ := Except.bind_eq_ok.mp built
    obtain ⟨text, _, ⟨⟩⟩ := Except.bind_eq_ok.mp built
    simp only [String.toList_append, List.append_assoc]
    exact ⟨_, .inr rfl⟩
  | obj fields =>
    obtain ⟨text, _, ⟨⟩⟩ := Except.bind_eq_ok.mp built
    simp only [String.toList_append, List.append_assoc]
    exact ⟨_, .inr rfl⟩
  | list => cases built

theorem starts_constructor {type : Ty} {text : String} (built : type.constructor = .ok text) :
    Starts text.toList := by
  obtain ⟨tail, opens | opens⟩ := constructor_opens built
  · rw [opens]
    exact ⟨'K', _, rfl, rfl⟩
  · rw [opens]
    exact ⟨'n', _, rfl, rfl⟩

theorem types?_constructors {types : List Ty} (parts : ∀ t ∈ types, ReadsType t)
    {texts : List String} (built : Ty.constructors types = .ok texts) (rest : List Char) :
    types? ((String.intercalate "," texts).toList ++ ']' :: rest) = some (types, rest) := by
  induction types generalizing texts with
  | nil =>
    cases built
    rw [String.intercalate_nil]
    exact types?.eq_1 rest
  | cons type others ih =>
    obtain ⟨text, first, built⟩ := Except.bind_eq_ok.mp built
    obtain ⟨more, next, ⟨⟩⟩ := Except.bind_eq_ok.mp built
    have read := parts type (by simp) text first
    cases others with
    | nil =>
      cases next
      rw [String.intercalate_singleton, types?, run_eq_apply, read]
      · rfl
      · exact ((starts_constructor first).append _).ne rfl
    | cons second others =>
      have readMore := ih (fun t ht => parts t (by simp [ht])) next
      have separated : String.intercalate "," (text :: more) =
          text ++ "," ++ String.intercalate "," more := by
        obtain ⟨_, _, built⟩ := Except.bind_eq_ok.mp next
        obtain ⟨_, _, ⟨⟩⟩ := Except.bind_eq_ok.mp built
        exact String.intercalate_cons_cons
      rw [separated]
      simp only [String.toList_append, List.append_assoc]
      rw [types?, run_eq_apply, read]
      · show (types? ((String.intercalate "," more).toList ++ _) >>= _) = _
        rw [readMore]
        rfl
      · exact ((starts_constructor first).append _).ne rfl

theorem typeFields?_fieldConstructors {fields : List (String × Ty)}
    (parts : ∀ f ∈ fields, ReadsType f.2) {text : String}
    (built : Ty.fieldConstructors fields = .ok text) (rest : List Char) :
    typeFields? (text.toList ++ '\x7d' :: rest) = some (fields, rest) := by
  induction fields generalizing text with
  | nil =>
    cases built
    exact typeFields?.eq_1 rest
  | cons field others ih =>
    obtain ⟨name, type⟩ := field
    obtain ⟨text, first, built⟩ := Except.bind_eq_ok.mp built
    obtain ⟨more, next, ⟨⟩⟩ := Except.bind_eq_ok.mp built
    have read := parts (name, type) (by simp) text first
    have readMore := ih (fun f hf => parts f (by simp [hf])) next
    simp only [String.toList_append, List.append_assoc]
    rw [typeFields?, run_eq_apply, quoted?_quote]
    · show (type? (text.toList ++ _) >>= _) = _
      rw [read]
      show (typeFields? (more.toList ++ _) >>= _) = _
      rw [readMore]
      rfl
    · rw [toList_quote]
      rintro _ ⟨⟩

theorem readsType (type : Ty) : ReadsType type := by
  induction type with
  | prim p => exact readsType_prim p
  | fn parameters returns parametersIH returnsIH =>
    rintro _ built rest
    obtain ⟨texts, first, built⟩ := Except.bind_eq_ok.mp built
    obtain ⟨text, second, ⟨⟩⟩ := Except.bind_eq_ok.mp built
    simp only [String.toList_append, List.append_assoc]
    rw [type?]
    show (types? ((String.intercalate "," texts).toList ++ ']' :: _) >>= _) = _
    rw [types?_constructors parametersIH first]
    show (type? (text.toList ++ _) >>= _) = _
    rw [returnsIH text second]
    rfl
  | obj fields ih =>
    rintro _ built rest
    obtain ⟨text, first, ⟨⟩⟩ := Except.bind_eq_ok.mp built
    simp only [String.toList_append, List.append_assoc]
    rw [type?]
    show (typeFields? (text.toList ++ '\x7d' :: _) >>= _) = _
    rw [typeFields?_fieldConstructors ih first]
    rfl
  | list =>
    rintro _ ⟨⟩

/-- What stands behind the payload of a value: its type and the end of the value. -/
def behindPayload (constructor : String) (rest : List Char) : List Char :=
  ", ".toList ++ (constructor.toList ++ ')' :: rest)

theorem typed?_behindPayload {type : Ty} {constructor : String}
    (built : type.constructor = .ok constructor) (rest : List Char) :
    typed? (behindPayload constructor rest) = some (type, rest) := by
  rw [typed?, behindPayload, behind_append]
  show (type? (constructor.toList ++ _) >>= _) = _
  rw [readsType type constructor built]
  rfl

end Arbor.Reading

namespace Arbor.Ty

/-- Constructors are read back without looking at what follows, so none is the beginning of another
and what stands behind one is known. -/
theorem eq_of_constructor_append {type other : Ty} {text text' : String}
    (built : type.constructor = .ok text) (built' : other.constructor = .ok text')
    {rest rest' : String} (same : text ++ rest = text' ++ rest') : type = other ∧ rest = rest' := by
  have read := Reading.readsType type text built rest.toList
  have read' := Reading.readsType other text' built' rest'.toList
  rw [← String.toList_append] at read read'
  rw [same, read', Option.some.injEq, Prod.mk.injEq] at read
  exact ⟨read.1.symm, String.toList_inj.mp read.2.symm⟩

/-- Exactly the types without lists can be built, and the text that builds a type says which type it
is, with the order of its fields, and where it ends. -/
theorem constructor_tells_type :
    (∀ type : Ty, (∃ text, type.constructor = .ok text) ↔ type.ListFree) ∧
      ∀ type other : Ty, type.ListFree → other.ListFree → ∃ text text',
        type.constructor = .ok text ∧ other.constructor = .ok text' ∧
          ∀ rest rest', text ++ rest = text' ++ rest' → type = other ∧ rest = rest' := by
  constructor
  · intro type
    constructor
    · rintro ⟨text, built⟩
      exact listFree_of_constructor built
    · exact ListFree.exists_constructor
  · intro type other free free'
    obtain ⟨text, built⟩ := free.exists_constructor
    obtain ⟨text', built'⟩ := free'.exists_constructor
    exact ⟨text, text', built, built', fun _ _ => eq_of_constructor_append built built'⟩

/-- Two orders of fields, one of them with a name that holds the end of an object. -/
theorem constructor_tells_type_of_reversed :
    let fields : List (String × Ty) := [("\"\x7d)", .prim .int), ("b", .fn [.prim .str] (.obj []))]
    (Ty.obj fields).ListFree ∧ ∃ text text', (Ty.obj fields).constructor = .ok text ∧
      (Ty.obj fields.reverse).constructor = .ok text' ∧
        ∀ rest rest', text ++ rest ≠ text' ++ rest' := by
  intro fields
  have free : (Ty.obj fields).ListFree := listFree_of_constructor rfl
  have free' : (Ty.obj fields.reverse).ListFree := listFree_of_constructor rfl
  obtain ⟨text, text', built, built', tells⟩ := constructor_tells_type.2 _ _ free free'
  refine ⟨free, text, text', built, built', fun rest rest' same => ?_⟩
  have equal := (tells rest rest' same).1
  simp [fields] at equal

end Arbor.Ty
