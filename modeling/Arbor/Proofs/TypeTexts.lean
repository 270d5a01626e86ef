import Mathlib.Data.List.Basic
import Arbor.Proofs.NodeInduction

/-!
# The texts of types

A type is shown without quotes: the name of a field is written as it is, and behind it a colon and
the type of the field. So there is one way to take the text of a type apart, but for the names:
where one field name is another one, a colon and the beginning of a type (`Continues`), there is
more than one place to end the name.

`Ty.display_apart` says that this is all there is to it. Texts are compared with whatever follows
them, from the left to the right: as long as the types are the same, so is what stands behind their
texts, and where they begin to differ while the texts do not, a field name ends.
-/

namespace Arbor

namespace Ty

mutual

/-- The names of the fields of all object types in a type. -/
def fieldNames : Ty → List String
  | .fn parameters returns => parameterNames parameters ++ returns.fieldNames
  | .obj fields => tableNames fields
  | _ => []

/-- The names of fields in the types of a list. -/
def parameterNames : List Ty → List String
  | [] => []
  | type :: rest => type.fieldNames ++ parameterNames rest

/-- The names of fields, and those in their types. -/
def tableNames : List (String × Ty) → List String
  | [] => []
  | (name, type) :: rest => (name :: type.fieldNames) ++ tableNames rest

end

theorem parameterNames_eq (types : List Ty) : parameterNames types = types.flatMap fieldNames := by
  induction types with
  | nil => rfl
  | cons type rest ih => rw [parameterNames, ih, List.flatMap_cons]

theorem tableNames_eq (fields : List (String × Ty)) :
    tableNames fields = fields.flatMap fun f => f.1 :: f.2.fieldNames := by
  induction fields with
  | nil => rfl
  | cons field rest ih =>
    obtain ⟨name, type⟩ := field
    rw [tableNames, ih, List.flatMap_cons]

/-- The text of a field. -/
def fieldText (field : String × Ty) : String :=
  field.1 ++ ": " ++ field.2.display

theorem displayAll_eq_map (types : List Ty) : displayAll types = types.map display := by
  induction types with
  | nil => rfl
  | cons type rest ih => rw [displayAll, ih, List.map_cons]

theorem displayFields_eq_map (fields : List (String × Ty)) :
    displayFields fields = fields.map fieldText := by
  induction fields with
  | nil => rfl
  | cons field rest ih =>
    obtain ⟨name, type⟩ := field
    rw [displayFields, ih, List.map_cons]
    rfl

/-! ## Openings -/

/-- What the text of a type begins with. -/
def opening : Ty → String
  | .prim p => p.name
  | .fn .. => "fn("
  | .obj _ => "obj \x7b"
  | .list => "list"

/-- What the texts of types begin with. -/
def openings : List String :=
  Primitive.all.map Primitive.name ++ ["fn(", "obj \x7b", "list"]

theorem opening_mem (type : Ty) : type.opening ∈ openings := by
  cases type with
  | prim p => cases p <;> decide
  | fn parameters returns => exact (by decide : "fn(" ∈ openings)
  | obj fields => exact (by decide : "obj \x7b" ∈ openings)
  | list => decide

theorem exists_display_eq (type : Ty) :
    ∃ body, type.display.toList = type.opening.toList ++ body := by
  cases type with
  | prim p => exact ⟨[], (List.append_nil _).symm⟩
  | fn parameters returns =>
    simp only [display, String.toList_append, List.append_assoc]
    exact ⟨_, rfl⟩
  | obj fields =>
    cases fields with
    | nil => exact ⟨['\x7d'], rfl⟩
    | cons field fields =>
      have blank : "obj \x7b ".toList = "obj \x7b".toList ++ " ".toList := rfl
      simp only [display, String.toList_append, blank, List.append_assoc]
      exact ⟨_, rfl⟩
  | list => exact ⟨[], rfl⟩

/-- No opening is the beginning of another. -/
theorem opening_eq_of_append {opening other : String} (known : opening ∈ openings)
    (known' : other ∈ openings) {rest rest' : List Char}
    (same : opening.toList ++ rest = other.toList ++ rest') : opening = other := by
  have free : ∀ o ∈ openings, ∀ p ∈ openings, o.toList <+: p.toList → o = p := by decide
  have front : other.toList <+: opening.toList ++ rest := ⟨rest', same.symm⟩
  rcases List.prefix_or_prefix_of_prefix (List.prefix_append _ rest) front with shorter | longer
  · exact free _ known _ known' shorter
  · exact (free _ known' _ known longer).symm

/-- The types are of one kind, and the same if they are primitive. -/
inductive OneKind : Ty → Ty → Prop where
  | prim (p : Primitive) : OneKind (.prim p) (.prim p)
  | fn (parameters others : List Ty) (returns result : Ty) :
      OneKind (.fn parameters returns) (.fn others result)
  | obj (fields others : List (String × Ty)) : OneKind (.obj fields) (.obj others)
  | list : OneKind .list .list

theorem oneKind_of_opening {type other : Ty} (same : type.opening = other.opening) :
    OneKind type other := by
  cases type with
  | prim p =>
    cases other with
    | prim q =>
      have named := congrArg Primitive.ofName? same
      simp only [opening, Primitive.ofName?_name, Option.some.injEq] at named
      exact named ▸ .prim p
    | _ => cases p <;> simp [opening, Primitive.name] at same
  | fn parameters returns =>
    cases other with
    | fn others result => exact .fn parameters others returns result
    | prim q => cases q <;> simp [opening, Primitive.name] at same
    | _ => simp [opening] at same
  | obj fields =>
    cases other with
    | obj others => exact .obj fields others
    | prim q => cases q <;> simp [opening, Primitive.name] at same
    | _ => simp [opening] at same
  | list =>
    cases other with
    | list => exact .list
    | prim q => cases q <;> simp [opening, Primitive.name] at same
    | _ => simp [opening] at same

/-- Types whose texts begin alike are of one kind. -/
theorem oneKind_of_display {type other : Ty} {rest rest' : List Char}
    (same : type.display.toList ++ rest = other.display.toList ++ rest') :
    OneKind type other := by
  obtain ⟨body, shown⟩ := type.exists_display_eq
  obtain ⟨body', shown'⟩ := other.exists_display_eq
  rw [shown, shown', List.append_assoc, List.append_assoc] at same
  exact oneKind_of_opening (opening_eq_of_append type.opening_mem other.opening_mem same)

/-! ## Names -/

/-- The second name is the first one, a colon and the beginning of a type, and perhaps more. -/
def Continues (name other : String) : Prop :=
  ∃ opening ∈ openings, (name ++ ": " ++ opening).toList <+: other.toList

instance (name other : String) : Decidable (Continues name other) :=
  inferInstanceAs (Decidable (∃ opening ∈ openings, _))

/-- One of the names continues one of the others, or the other way round. -/
def Clash (names others : List String) : Prop :=
  ∃ name ∈ names, ∃ other ∈ others, Continues name other ∨ Continues other name

theorem Clash.mono {names others more further : List String} (clash : Clash names others)
    (inside : names ⊆ more) (inside' : others ⊆ further) : Clash more further := by
  obtain ⟨name, member, other, member', continued⟩ := clash
  exact ⟨name, inside member, other, inside' member', continued⟩

/-- Between the end of a name, behind which a type follows, and the end of a longer name there is
nothing, or a type begins there. -/
theorem continues_of_longer {name other opening : String} (known : opening ∈ openings)
    {between rest behind : List Char} (longer : other.toList = name.toList ++ between)
    (same : ':' :: ' ' :: (opening.toList ++ rest) = between ++ ':' :: ' ' :: behind) :
    (name = other ∧ opening.toList ++ rest = behind) ∨ Continues name other := by
  match between with
  | [] =>
    rw [List.append_nil] at longer
    have shared := (List.cons.inj (List.cons.inj same).2).2
    exact .inl ⟨String.toList_inj.mp longer.symm, shared⟩
  | [c] =>
    -- A blank would have to be a colon.
    exact absurd (List.cons.inj (List.cons.inj same).2).1 (by decide)
  | c :: d :: more =>
    obtain ⟨rfl, front⟩ := List.cons.inj same
    obtain ⟨rfl, shared⟩ := List.cons.inj front
    have inside : opening.toList <+: more := by
      rcases List.append_eq_append_iff.mp shared with ⟨back, extended, -⟩ | ⟨back, extended, behind⟩
      · exact ⟨back, extended.symm⟩
      · -- The colon behind the longer name does not stand within an opening.
        have free : ∀ o ∈ openings, ':' ∉ o.toList := by decide
        cases back with
        | nil => exact ⟨[], by rw [extended, List.append_nil, List.append_nil]⟩
        | cons first back =>
          obtain ⟨rfl, -⟩ := List.cons.inj behind
          exact absurd (by rw [extended]; simp) (free opening known)
    obtain ⟨back, rfl⟩ := inside
    refine .inr ⟨opening, known, back, ?_⟩
    simp only [longer, String.toList_append, List.append_assoc]
    rfl

/-! ## Texts with what follows them -/

section Apart

variable {α : Type} {text : α → String} {names : α → List String} {first other : α}
  {rest others : List α}

/-- Texts that begin alike are of one thing, and go on alike, unless there are names that clash. -/
def Apart (text : α → String) (names : α → List String) (first other : α) : Prop :=
  ∀ behind behind' : List Char,
    (text first).toList ++ behind = (text other).toList ++ behind' →
      (first = other ∧ behind = behind') ∨ Clash (names first) (names other)

/-- The texts of a list with separators. -/
theorem toList_listed (text : α → String) (first : α) (rest : List α) :
    (String.intercalate ", " ((first :: rest).map text)).toList =
      (text first).toList ++ rest.flatMap fun a => ", ".toList ++ (text a).toList := by
  induction rest generalizing first with
  | nil => simp
  | cons second rest ih =>
    rw [List.map_cons, List.map_cons, String.intercalate_cons_cons, ← List.map_cons]
    rw [String.toList_append, String.toList_append, ih, List.flatMap_cons]
    simp only [List.append_assoc]

/-- A list that ends with a mark of its own is known from its text if its parts are. -/
theorem behindFirst_apart {stop : Char} (mark : stop ≠ ',')
    (parts : ∀ a ∈ rest, ∀ b ∈ others, Apart text names a b) {behind behind' : List Char}
    (same : (rest.flatMap fun a => ", ".toList ++ (text a).toList) ++ stop :: behind =
      (others.flatMap fun a => ", ".toList ++ (text a).toList) ++ stop :: behind') :
    (rest = others ∧ behind = behind') ∨ Clash (rest.flatMap names) (others.flatMap names) := by
  induction rest generalizing others with
  | nil =>
    cases others with
    | nil => exact .inl ⟨rfl, (List.cons.inj same).2⟩
    | cons other others => exact absurd (List.cons.inj same).1 mark
  | cons first rest ih =>
    cases others with
    | nil => exact absurd (List.cons.inj same).1.symm mark
    | cons other others =>
      simp only [List.flatMap_cons, List.append_assoc] at same ⊢
      rcases parts first (by simp) other (by simp) _ _ (List.append_cancel_left same) with
        ⟨rfl, next⟩ | clash
      · rcases ih (fun a ha b hb => parts a (by simp [ha]) b (by simp [hb])) next with
          ⟨rfl, rfl⟩ | clash
        · exact .inl ⟨rfl, rfl⟩
        · exact .inr (clash.mono (List.subset_append_right _ _) (List.subset_append_right _ _))
      · exact .inr (clash.mono (List.subset_append_left _ _) (List.subset_append_left _ _))

theorem listed_apart {stop : Char} (mark : stop ≠ ',')
    (parts : ∀ a ∈ first :: rest, ∀ b ∈ other :: others, Apart text names a b)
    {behind behind' : List Char}
    (same : (String.intercalate ", " ((first :: rest).map text)).toList ++ stop :: behind =
      (String.intercalate ", " ((other :: others).map text)).toList ++ stop :: behind') :
    (first :: rest = other :: others ∧ behind = behind') ∨
      Clash ((first :: rest).flatMap names) ((other :: others).flatMap names) := by
  -- The first of a list is one more behind a separator.
  refine behindFirst_apart mark parts ?_
  simp only [toList_listed, List.append_assoc] at same
  simp only [List.flatMap_cons, List.append_assoc, same]

end Apart

/-! ## Types -/

theorem fieldText_apart {field other : String × Ty}
    (inner : Apart display fieldNames field.2 other.2) :
    Apart fieldText (fun f => f.1 :: f.2.fieldNames) field other := by
  obtain ⟨name, type⟩ := field
  obtain ⟨name', type'⟩ := other
  intro behind behind' same
  simp only [fieldText, String.toList_append, List.append_assoc] at same
  have ends : (name = name' ∧ type.display.toList ++ behind = type'.display.toList ++ behind') ∨
      Continues name name' ∨ Continues name' name := by
    obtain ⟨body, shown⟩ := type.exists_display_eq
    obtain ⟨body', shown'⟩ := type'.exists_display_eq
    rw [shown, shown', List.append_assoc, List.append_assoc] at same ⊢
    rcases List.append_eq_append_iff.mp same with ⟨between, longer, same⟩ | ⟨between, longer, same⟩
    · exact (continues_of_longer type.opening_mem longer same).imp_right .inl
    · rcases continues_of_longer type'.opening_mem longer same with ⟨same, behind⟩ | continued
      · exact .inl ⟨same.symm, behind.symm⟩
      · exact .inr (.inr continued)
  rcases ends with ⟨rfl, next⟩ | continued
  · rcases inner _ _ next with ⟨rfl, rfl⟩ | clash
    · exact .inl ⟨rfl, rfl⟩
    · exact .inr (clash.mono (List.subset_cons_self _ _) (List.subset_cons_self _ _))
  · exact .inr ⟨name, by simp, name', by simp, continued⟩

/-- The text of a type does not begin like the end of a list of parameters. -/
theorem close_ne_display (type : Ty) {behind behind' : List Char} :
    ')' :: behind ≠ type.display.toList ++ behind' := by
  have free : ∀ o ∈ openings, o.toList.head?.any (· ≠ ')') := by decide
  obtain ⟨body, shown⟩ := type.exists_display_eq
  have opened := free _ type.opening_mem
  rw [shown]
  intro same
  cases text : type.opening.toList with
  | nil => simp [text] at opened
  | cons first more =>
    rw [text] at same opened
    obtain ⟨rfl, -⟩ := List.cons.inj same
    simp at opened

theorem parameters_apart {parameters others : List Ty}
    (parts : ∀ t ∈ parameters, ∀ u ∈ others, Apart display fieldNames t u)
    {behind behind' : List Char}
    (same : (String.intercalate ", " (displayAll parameters)).toList ++ ')' :: behind =
      (String.intercalate ", " (displayAll others)).toList ++ ')' :: behind') :
    (parameters = others ∧ behind = behind') ∨
      Clash (parameterNames parameters) (parameterNames others) := by
  rw [displayAll_eq_map, displayAll_eq_map] at same
  rw [parameterNames_eq, parameterNames_eq]
  match parameters, others with
  | [], [] => exact .inl ⟨rfl, (List.cons.inj same).2⟩
  | [], other :: others =>
    rw [toList_listed, List.append_assoc] at same
    exact absurd same other.close_ne_display
  | first :: rest, [] =>
    rw [toList_listed, List.append_assoc] at same
    exact absurd same.symm first.close_ne_display
  | first :: rest, other :: others => exact listed_apart (by decide) parts same

theorem fields_apart {fields others : List (String × Ty)}
    (parts : ∀ f ∈ fields, ∀ g ∈ others, Apart display fieldNames f.2 g.2)
    {behind behind' : List Char}
    (same : (Ty.obj fields).display.toList ++ behind = (Ty.obj others).display.toList ++ behind') :
    (fields = others ∧ behind = behind') ∨ Clash (tableNames fields) (tableNames others) := by
  have braces : "obj \x7b\x7d".toList = "obj \x7b".toList ++ ['\x7d'] := rfl
  have opened : "obj \x7b ".toList = "obj \x7b".toList ++ [' '] := rfl
  have closed : " \x7d".toList = ' ' :: ['\x7d'] := rfl
  match fields, others with
  | [], [] => exact .inl ⟨rfl, List.append_cancel_left same⟩
  | [], other :: others =>
    simp only [display, braces, String.toList_append, opened, List.append_assoc] at same
    exact absurd (List.cons.inj (List.append_cancel_left same)).1 (by decide)
  | field :: fields, [] =>
    simp only [display, braces, String.toList_append, opened, List.append_assoc] at same
    exact absurd (List.cons.inj (List.append_cancel_left same)).1 (by decide)
  | field :: fields, other :: others =>
    simp only [display, displayFields_eq_map, String.toList_append, closed, List.append_assoc]
      at same
    rw [tableNames_eq, tableNames_eq]
    rcases listed_apart (by decide) (fun f hf g hg => fieldText_apart (parts f hf g hg))
      (List.append_cancel_left same) with ⟨equal, next⟩ | clash
    · exact .inl ⟨equal, List.append_cancel_left next⟩
    · exact .inr clash

/-- The text of a type tells the type and its own end, unless field names clash. -/
theorem display_apart (type other : Ty) : Apart display fieldNames type other := by
  induction type generalizing other with
  | prim p =>
    intro behind behind' same
    cases oneKind_of_display same with
    | prim => exact .inl ⟨rfl, List.append_cancel_left same⟩
  | fn parameters returns parametersIH returnsIH =>
    intro behind behind' same
    cases oneKind_of_display same with
    | fn _ others _ result =>
      have close : ") -> ".toList = ')' :: " -> ".toList := rfl
      simp only [display, String.toList_append, close, List.append_assoc, List.cons_append] at same
      rcases parameters_apart (fun t ht u _ => parametersIH t ht u) (List.append_cancel_left same)
        with ⟨rfl, next⟩ | clash
      · rcases returnsIH result _ _ (List.append_cancel_left next) with ⟨rfl, rfl⟩ | clash
        · exact .inl ⟨rfl, rfl⟩
        · exact .inr (clash.mono (List.subset_append_right _ _) (List.subset_append_right _ _))
      · exact .inr (clash.mono (List.subset_append_left _ _) (List.subset_append_left _ _))
  | obj fields ih =>
    intro behind behind' same
    cases oneKind_of_display same with
    | obj _ others =>
      rcases fields_apart (fun f hf g _ => ih f hf g.2) same with ⟨rfl, rfl⟩ | clash
      · exact .inl ⟨rfl, rfl⟩
      · exact .inr clash
  | list =>
    intro behind behind' same
    cases oneKind_of_display same with
    | list => exact .inl ⟨rfl, List.append_cancel_left same⟩

/-- Types with one text are the same, unless field names clash. -/
theorem eq_or_clash_of_display_eq {type other : Ty} (same : type.display = other.display) :
    type = other ∨ Clash type.fieldNames other.fieldNames :=
  (display_apart type other [] [] (by rw [same])).imp_left And.left

/-- Two fields are shown like one, whose name has the first field in it. -/
theorem display_joined (name other : String) (type last : Ty) (fields : List (String × Ty)) :
    (Ty.obj ((name, type) :: (other, last) :: fields)).display =
      (Ty.obj ((name ++ ": " ++ type.display ++ ", " ++ other, last) :: fields)).display := by
  rw [display, display]
  congr 2
  cases fields with
  | nil => simp [displayFields, String.append_assoc]
  | cons field fields => simp [displayFields, String.intercalate_cons_cons, String.append_assoc]

end Ty

end Arbor
