import Mathlib.Logic.Relation
import Arbor.Proofs.TreeDecoding
import Arbor.Proofs.TreeEcho

/-!
# Keys that nodes pass over

An object with a kind is read by the fields of its kind alone: the order of its keys decides
nothing, and a key that is no field of the kind is passed over with whatever it holds. A literal
tries a value in several ways, so what has to be kept is every way in which a value can be read at
once (`Reading.Keeps`). One change at one place keeps them all, and so does any number of changes.
-/

namespace Arbor

/-! ## Computations that keep results -/

/-- Whatever the first comes to, the second comes to as well. -/
def Except.Keeps {ε α : Type} (x y : Except ε α) : Prop :=
  ∀ a, x = .ok a → y = .ok a

namespace Except.Keeps

variable {ε α β γ : Type}

theorem bind {x y : Except ε α} {f g : α → Except ε β} (first : Except.Keeps x y)
    (next : ∀ a, Except.Keeps (f a) (g a)) : Except.Keeps (x >>= f) (y >>= g) := by
  intro b done
  obtain ⟨a, here, rest⟩ := Except.bind_eq_ok.mp done
  exact Except.bind_eq_ok.mpr ⟨a, first a here, next a b rest⟩

theorem map {x y : Except ε α} (f : α → β) (first : Except.Keeps x y) :
    Except.Keeps (x.map f) (y.map f) := by
  intro b done
  obtain ⟨a, here, same⟩ := Except.map_eq_ok.mp done
  exact Except.map_eq_ok.mpr ⟨a, first a here, same⟩

theorem mapM {f : α → Except ε γ} {g : β → Except ε γ} {values : List α} {others : List β}
    (each : List.Forall₂ (fun a b => Except.Keeps (f a) (g b)) values others) :
    Except.Keeps (values.mapM f) (others.mapM g) := by
  induction each with
  | nil => exact fun _ done => done
  | cons here _ ih =>
    rw [List.mapM_cons, List.mapM_cons]
    exact here.bind fun first => ih.bind fun rest _ done => done

end Except.Keeps

/-! ## Members of objects -/

namespace Fields

variable {α : Type} {keeps : α → α → Prop} {fields : List String}
  {members changed : List (String × α)}

/-- As far as the given names go, the changed members have what the members had. -/
structure Covers (keeps : α → α → Prop) (fields : List String)
    (members changed : List (String × α)) : Prop where
  lookup : ∀ name ∈ fields, Option.Rel keeps (members.lookup name) (changed.lookup name)
  known : ∀ m ∈ changed, m.1 ∈ fields → ∃ origin ∈ members, origin.1 = m.1 ∧ keeps origin.2 m.2

/-- Members that change one by one. -/
theorem covers_of_entries (pairs : List.Forall₂ (Entry keeps) members changed) :
    Covers keeps fields members changed where
  lookup := by
    intro name _
    cases found : members.lookup name with
    | some value =>
      obtain ⟨value', found', holds⟩ := exists_of_lookup_entries pairs found
      rw [found']
      exact .some holds
    | none =>
      rw [lookup_eq_none, names_eq_of_entries pairs] at found
      rw [lookup_eq_none.mpr found]
      exact .none
  known := by
    intro m member _
    obtain ⟨origin, inside, here⟩ := exists_of_mem_forall₂ pairs m member
    cases here with
    | mk holds => exact ⟨_, inside, rfl, holds⟩

/-- Members in another order among others that have none of the names. -/
theorem covers_of_foreign {foreign : List (String × α)} (same : ∀ a, keeps a a)
    (perm : (members ++ foreign).Perm changed) (apart : (names changed).Nodup)
    (other : ∀ f ∈ foreign, f.1 ∉ fields) : Covers keeps fields members changed where
  lookup := by
    intro name listed
    have none : foreign.lookup name = none := by
      rw [lookup_eq_none]
      intro named
      obtain ⟨f, inside, rfl⟩ := List.mem_map.mp named
      exact other f inside listed
    rw [← lookup_perm ((perm.map Prod.fst).nodup_iff.mpr apart) perm, List.lookup_append, none,
      Option.or_none]
    cases members.lookup name with
    | none => exact .none
    | some value => exact .some (same value)
  known := by
    intro m member listed
    rcases List.mem_append.mp (perm.mem_iff.mpr member) with inside | outside
    · exact ⟨m, inside, rfl, same m.2⟩
    · exact absurd listed (other m outside)

theorem Covers.map {β : Type} {keeps : β → β → Prop} (f : α → β)
    (covers : Covers (fun a b => keeps (f a) (f b)) fields members changed) :
    Covers keeps fields (members.map fun m => (m.1, f m.2))
      (changed.map fun m => (m.1, f m.2)) where
  lookup := by
    intro name listed
    rw [lookup_map, lookup_map]
    have found := covers.lookup name listed
    revert found
    generalize members.lookup name = here
    generalize changed.lookup name = there
    rintro (holds | _)
    · exact .some holds
    · exact .none
  known := by
    intro m member listed
    obtain ⟨given, inside, rfl⟩ := List.mem_map.mp member
    obtain ⟨origin, there, named, holds⟩ := covers.known given inside listed
    exact ⟨_, List.mem_map.mpr ⟨origin, there, rfl⟩, named, holds⟩

end Fields

/-! ## Records -/

namespace Record

variable {ρ α β : Type} {keeps : ρ → ρ → Prop} {fields others : List String}

/-- The record looks at members of the given names only, and still reads its value where the
members keep what they had. -/
structure Respects (keeps : ρ → ρ → Prop) (fields : List String) (record : Record ρ α) : Prop where
  foreign {name : String} (r : ρ) : name ∉ fields → record.check name r = .ok ()
  check {r r' : ρ} (name : String) : keeps r r' →
    Except.Keeps (record.check name r) (record.check name r')
  members {members changed : List (String × ρ)} :
    (∀ name ∈ fields, Option.Rel keeps (members.lookup name) (changed.lookup name)) →
    Except.Keeps (record.ofMembers members) (record.ofMembers changed)
  items {items changed rest : List ρ} {value : α} (short : ShapeError) :
    List.Forall₂ keeps items changed → record.ofItems short items = .ok (value, rest) →
    ∃ left, record.ofItems short changed = .ok (value, left) ∧ List.Forall₂ keeps rest left

namespace Respects

theorem field {name : String} {read : ρ → Except ShapeError α} {default : Option α}
    (reads : ∀ {r r'}, keeps r r' → Except.Keeps (read r) (read r')) :
    (Record.field name read default).Respects keeps [name] where
  foreign r other := if_neg (mt List.mem_singleton.mpr other)
  check named kept := by
    dsimp only [Record.field]
    split
    · exact (reads kept).map _
    · exact fun _ done => done
  members := by
    intro members changed found
    have entries := found name List.mem_cons_self
    dsimp only [Record.field]
    revert entries
    generalize members.lookup name = here
    generalize changed.lookup name = there
    rintro (holds | _)
    · exact reads holds
    · exact fun _ done => done
  items := by
    intro items changed rest value short kept done
    cases kept with
    | nil =>
      cases default with
      | none => cases done
      | some value =>
        cases done
        exact ⟨[], rfl, .nil⟩
    | cons here others =>
      obtain ⟨a, read, ⟨⟩⟩ := Except.map_eq_ok.mp done
      exact ⟨_, Except.map_eq_ok.mpr ⟨_, reads here _ read, rfl⟩, others⟩

theorem seq {f : Record ρ (α → β)} {x : Record ρ α} (first : f.Respects keeps fields)
    (second : x.Respects keeps others) : (f <*> x).Respects keeps (fields ++ others) where
  foreign r other := by
    obtain ⟨here, there⟩ := not_or.mp (mt List.mem_append.mpr other)
    exact Except.bind_eq_ok.mpr ⟨(), first.foreign r here, second.foreign r there⟩
  check name kept := (first.check name kept).bind fun _ => second.check name kept
  members := by
    intro members changed found
    have here := first.members fun name listed => found name (List.mem_append_left _ listed)
    have there := second.members fun name listed => found name (List.mem_append_right _ listed)
    exact here.bind fun g => there.bind fun a _ done => done
  items := by
    intro items changed rest value short kept done
    obtain ⟨⟨g, middle⟩, here, done⟩ := Except.bind_eq_ok.mp done
    obtain ⟨⟨a, last⟩, there, ⟨⟩⟩ := Except.bind_eq_ok.mp done
    obtain ⟨middle', here', kept⟩ := first.items short kept here
    obtain ⟨last', there', kept⟩ := second.items short kept there
    exact ⟨last', Except.bind_eq_ok.mpr ⟨_, here', Except.bind_eq_ok.mpr ⟨_, there', rfl⟩⟩, kept⟩

theorem map {g : α → β} {x : Record ρ α} (respects : x.Respects keeps fields) :
    (g <$> x).Respects keeps fields := by
  have first : (Record.nil g : Record ρ (α → β)).Respects keeps [] :=
    ⟨fun _ _ => rfl, fun _ _ _ done => done, fun _ _ done => done,
      fun _ kept done => by cases done; exact ⟨_, rfl, kept⟩⟩
  exact first.seq respects

/-- A record is read again from members that cover its fields. -/
theorem readObject {record : Record ρ α} (respects : record.Respects keeps fields)
    {members changed : List (String × ρ)} (covers : Fields.Covers keeps fields members changed) :
    Except.Keeps (record.readObject members) (record.readObject changed) := by
  intro value done
  obtain ⟨_, checked, read⟩ := Except.bind_eq_ok.mp done
  have again := respects.members covers.lookup value read
  refine Except.bind_eq_ok.mpr ⟨(), Except.forM_eq_ok.mpr ?_, again⟩
  intro m member
  by_cases listed : m.1 ∈ fields
  · obtain ⟨origin, inside, named, kept⟩ := covers.known m member listed
    have here := Except.forM_eq_ok.mp checked origin inside
    rw [named] at here
    exact respects.check m.1 kept () here
  · exact respects.foreign m.2 listed

theorem readArray {record : Record ρ α} (respects : record.Respects keeps fields) (title : String)
    {items changed : List ρ} (kept : List.Forall₂ keeps items changed) :
    Except.Keeps (record.readArray title items) (record.readArray title changed) := by
  intro value done
  obtain ⟨⟨found, rest⟩, here, done⟩ := Except.bind_eq_ok.mp done
  obtain ⟨none, ⟨⟩⟩ := Except.guard_eq_ok.mp done
  cases List.isEmpty_iff.mp none
  obtain ⟨left, again, nothing⟩ := respects.items _ kept here
  cases nothing
  unfold Record.readArray
  rw [← kept.length_eq, again]
  rfl

end Respects

end Record

/-! ## Readings -/

/-- In whatever way the first value can be read, the second gives the same. -/
structure Reading.Keeps (r r' : Reading) : Prop where
  null : r'.source = .null ↔ r.source = .null
  text : Except.Keeps r.source.asText r'.source.asText
  tag : Except.Keeps r.source.asTag r'.source.asTag
  binary : Except.Keeps (r.source.asOperator BinaryOp.all BinaryOp.symbol)
    (r'.source.asOperator BinaryOp.all BinaryOp.symbol)
  unary : Except.Keeps (r.source.asOperator UnaryOp.all UnaryOp.symbol)
    (r'.source.asOperator UnaryOp.all UnaryOp.symbol)
  parameter : Except.Keeps r.source.asParameter r'.source.asParameter
  parameters : Except.Keeps r.source.asParameters r'.source.asParameters
  node : Except.Keeps r.node r'.node
  nodes : Except.Keeps r.nodes r'.nodes
  fields : Except.Keeps r.fields r'.fields
  payload : Except.Keeps r.payload r'.payload

namespace Reading.Keeps

variable {r r' : Reading}

theorem refl (r : Reading) : r.Keeps r := by
  constructor <;> first | exact Iff.rfl | exact fun _ done => done

theorem orNull {α : Type} {read : Reading → Except ShapeError α} (kept : r.Keeps r')
    (reads : Except.Keeps (read r) (read r')) : Except.Keeps (r.orNull read) (r'.orNull read) := by
  unfold Reading.orNull
  split
  · next null =>
    rw [kept.null.mpr null]
    exact fun _ done => done
  · next some =>
    split
    · next null => exact absurd (kept.null.mp null) some
    · exact reads.map _

end Reading.Keeps

namespace NodeShape

/-- The names of the fields of a kind; of a kind outside the language there are none. -/
def fieldNames : String → List String
  | "let" => ["identifier", "value"]
  | "assign" => ["left", "right"]
  | "return" => ["value"]
  | "if" => ["condition", "body", "else"]
  | "while" => ["condition", "body"]
  | "identifier" => ["name"]
  | "literal" => ["type", "value", "parameters", "body"]
  | "new" => ["target"]
  | "binary" => ["operator", "left", "right"]
  | "unary" => ["operator", "operand"]
  | "call" => ["callee", "arguments"]
  | "objAccess" => ["object", "property"]
  | "access" => ["object", "index"]
  | "type" => ["type", "name", "parameters", "returns", "structure"]
  | _ => []

open Record (Respects)

/-- Each shape looks at the fields of its kind only. -/
theorem respects_of_mem_all {shape : NodeShape} (known : shape ∈ all) :
    shape.record.Respects Reading.Keeps (fieldNames shape.kind) := by
  have text {name : String} : (Record.required name Reading.text).Respects Reading.Keeps [name] :=
    .field fun kept => kept.text
  have node {name : String} : (Record.required name Reading.node).Respects Reading.Keeps [name] :=
    .field fun kept => kept.node
  have nodes {name : String} : (nodeList name).Respects Reading.Keeps [name] :=
    .field fun kept => kept.nodes
  have nullableNode {name : String} :
      (nullable name Reading.node).Respects Reading.Keeps [name] :=
    .field fun kept => kept.orNull kept.node
  have nullableNodes {name : String} :
      (nullable name Reading.nodes).Respects Reading.Keeps [name] :=
    .field fun kept => kept.orNull kept.nodes
  have nullableText {name : String} :
      (nullable name Reading.text).Respects Reading.Keeps [name] :=
    .field fun kept => kept.orNull kept.text
  have payload {name : String} :
      (nullable name Reading.payload).Respects Reading.Keeps [name] :=
    .field fun kept => kept.orNull kept.payload
  simp only [all, List.mem_cons, List.not_mem_nil, or_false] at known
  rcases known with rfl | rfl | rfl | rfl | rfl | rfl | rfl | rfl | rfl | rfl | rfl | rfl | rfl |
    rfl
  · exact .seq (.map text) node
  · exact .seq (.map node) node
  · exact .map nullableNode
  · exact .seq (.seq (.map node) nodes) nullableNodes
  · exact .seq (.map node) nodes
  · exact .map text
  · exact .seq (.seq (.seq (.map node) payload) (.field fun kept => kept.parameters)) nodes
  · exact .map node
  · exact .seq (.seq (.map (.field fun kept => kept.binary)) node) node
  · exact .seq (.map (.field fun kept => kept.unary)) node
  · exact .seq (.map node) nodes
  · exact .seq (.map node) text
  · exact .seq (.map node) node
  · exact .seq (.seq (.seq (.seq (.map (.field fun kept => kept.tag)) nullableText) nodes)
      nullableNode) (.field fun kept => kept.fields)

end NodeShape

namespace Reading

theorem Keeps.source_str {r r' : Reading} (kept : r.Keeps r') {text : String}
    (source : r.source = .str text) : r'.source = .str text := by
  have read := kept.text text (by rw [source]; rfl)
  unfold Json.asText at read
  split at read
  · next found =>
    cases read
    exact found
  · cases read

theorem keeps_nodeOfItems {items changed : List Reading} (each : List.Forall₂ Keeps items changed) :
    Except.Keeps (nodeOfItems items) (nodeOfItems changed) := by
  cases each with
  | nil => exact fun _ done => done
  | cons first rest =>
    unfold nodeOfItems
    dsimp only
    split
    · next kind named =>
      rw [first.source_str named]
      dsimp only
      split
      · next shape found =>
        exact (NodeShape.respects_of_mem_all (List.mem_of_find?_eq_some found)).readArray _ rest
      · exact nofun
    · exact nofun

theorem keeps_nodeOfMembers {members changed : List (String × Reading)}
    (kinds : Option.Rel Keeps (members.lookup "kind") (changed.lookup "kind"))
    (covers : ∀ r kind, members.lookup "kind" = some r → r.source = .str kind →
      Fields.Covers Keeps (NodeShape.fieldNames kind) members changed) :
    Except.Keeps (nodeOfMembers members) (nodeOfMembers changed) := by
  unfold nodeOfMembers
  revert kinds covers
  generalize members.lookup "kind" = here
  generalize changed.lookup "kind" = there
  rintro (@⟨r, r', kept⟩ | _) covers
  · dsimp only
    split
    · next kind named =>
      rw [kept.source_str named]
      dsimp only
      split
      · next shape found =>
        have respects := NodeShape.respects_of_mem_all (List.mem_of_find?_eq_some found)
        rw [NodeShape.kind_of_find? found] at respects
        exact respects.readObject (covers r kind rfl named)
      · exact fun _ done => done
    · exact nofun
  · exact nofun

end Reading

/-! ## Changes that nodes do not see -/

/-- One change at one place: an object that names a kind gets its members in another order, among
others that are no fields of the kind. -/
inductive Json.Varies : Json → Json → Prop where
  | node {kind : String} {members foreign changed : List (String × Json)} :
      members.lookup "kind" = some (.str kind) →
      (∀ f ∈ foreign, f.1 ≠ "kind" ∧ f.1 ∉ NodeShape.fieldNames kind) →
      (members ++ foreign).Perm changed → (Fields.names changed).Nodup →
      Varies (.obj members) (.obj changed)
  | item {value value' : Json} (front back : List Json) : Varies value value' →
      Varies (.arr (front ++ value :: back)) (.arr (front ++ value' :: back))
  | member {value value' : Json} (name : String) (front back : List (String × Json)) :
      Varies value value' →
      Varies (.obj (front ++ (name, value) :: back)) (.obj (front ++ (name, value') :: back))

namespace Json

variable {members changed : List (String × Json)}

/-- Nothing stands in the value that could change. -/
def Bare (value : Json) : Prop :=
  value = .null ∨ value = .obj []

theorem Varies.not_bare {value value' : Json} (varies : value.Varies value') : ¬value.Bare := by
  rintro (rfl | empty)
  · cases varies
  · cases varies with
    | node found =>
      cases empty
      cases found
    | item => cases empty
    | member => simp at empty

theorem asOperator_obj {ω : Type} {all : List ω} {symbol : ω → String} {op : ω}
    (done : (Json.obj members).asOperator all symbol = .ok op) :
    ∃ name held, members = [(name, held)] ∧ held.Bare := by
  unfold asOperator at done
  dsimp only at done
  split at done
  · next same => cases same
  · next name held same =>
    cases same
    obtain ⟨_, -, done⟩ := Except.bind_eq_ok.mp done
    split at done
    · exact ⟨name, _, rfl, .inl rfl⟩
    · exact ⟨name, _, rfl, .inr rfl⟩
    · cases done
  · cases done
  · cases done

theorem asTag_obj {tag : Tag} (done : (Json.obj members).asTag = .ok tag) :
    ∃ name held, members = [(name, held)] ∧ held.Bare := by
  unfold asTag at done
  split at done
  · next same => cases same
  · next name same =>
    cases same
    exact ⟨name, _, rfl, .inl rfl⟩
  · cases done

/-- A compound value is a payload only as a node or as a table. -/
theorem keeps_payload {value value' : Json}
    (compound : value.reading.payload =
      match value.toNode, value.reading.fields with
      | .ok node, _ => .ok (.node node)
      | .error _, .ok fields => .ok (.fields fields)
      | .error _, .error _ => .error .noPayload)
    (node : Except.Keeps value.toNode value'.toNode)
    (fields : Except.Keeps value.reading.fields value'.reading.fields) :
    Except.Keeps value.reading.payload value'.reading.payload := by
  rw [compound]
  split
  · next found =>
    rintro _ ⟨⟩
    exact payload_eq_node.mpr (node _ found)
  · next found =>
    rintro _ ⟨⟩
    exact payload_eq_fields.mpr (fields _ found)
  · exact nofun

/-- In whatever way the first value can be read, the second gives the same. -/
def Keeps (value value' : Json) : Prop :=
  value.reading.Keeps value'.reading

theorem Keeps.refl (value : Json) : value.Keeps value :=
  Reading.Keeps.refl _

theorem Keeps.asText {value value' : Json} (kept : value.Keeps value') :
    Except.Keeps value.asText value'.asText := by
  have text := kept.text
  rw [source_reading, source_reading] at text
  exact text

theorem respects_parameterRecord : parameterRecord.Respects Keeps ["name"] :=
  .field Keeps.asText

/-- A list whose items keep what they were. -/
theorem keeps_arr {items changed : List Json} (each : List.Forall₂ Keeps items changed) :
    (Json.arr items).Keeps (Json.arr changed) := by
  have node : Except.Keeps (Json.arr items).toNode (Json.arr changed).toNode := by
    change Except.Keeps (Reading.nodeOfItems (readings items))
      (Reading.nodeOfItems (readings changed))
    rw [readings_eq_map, readings_eq_map]
    exact Reading.keeps_nodeOfItems
      (List.forall₂_map_left_iff.mpr (List.forall₂_map_right_iff.mpr each))
  have fields : Except.Keeps (Json.arr items).reading.fields (Json.arr changed).reading.fields :=
    nofun
  constructor
  case null => exact ⟨nofun, nofun⟩
  case parameter => exact respects_parameterRecord.readArray _ each
  case parameters =>
    refine .mapM (each.imp fun item item' kept => ?_)
    rw [← source_reading item, ← source_reading item']
    exact kept.parameter
  case node => exact node
  case nodes =>
    change Except.Keeps ((readings items).mapM Reading.node) ((readings changed).mapM Reading.node)
    rw [readings_eq_map, readings_eq_map]
    refine .mapM (List.forall₂_map_left_iff.mpr (List.forall₂_map_right_iff.mpr ?_))
    exact each.imp fun _ _ kept => kept.node
  case fields => exact fields
  case payload => exact keeps_payload rfl node fields
  all_goals exact nofun

/-- As a node an object keeps what the fields of its kind were. -/
theorem keeps_toNode (kinds : Fields.Covers Keeps ["kind"] members changed)
    (covers : ∀ kind, members.lookup "kind" = some (.str kind) →
      Fields.Covers Keeps (NodeShape.fieldNames kind) members changed) :
    Except.Keeps (Json.obj members).toNode (Json.obj changed).toNode := by
  change Except.Keeps (Reading.nodeOfMembers (memberReadings members))
    (Reading.nodeOfMembers (memberReadings changed))
  rw [memberReadings_eq_map, memberReadings_eq_map]
  apply Reading.keeps_nodeOfMembers
  · exact (Fields.Covers.map reading kinds).lookup "kind" List.mem_cons_self
  · intro r kind found named
    rw [Fields.lookup_map] at found
    obtain ⟨part, held, rfl⟩ := Option.map_eq_some_iff.mp found
    rw [source_reading] at named
    exact Fields.Covers.map reading (covers kind (named ▸ held))

/-- As a parameter an object keeps its name. -/
theorem keeps_asParameter (covers : "name" ∈ Fields.names members →
      Fields.Covers Keeps ["name"] members changed) :
    Except.Keeps (Json.obj members).asParameter (Json.obj changed).asParameter := by
  intro parameter done
  have named : "name" ∈ Fields.names members := by
    by_contra absent
    obtain ⟨_, -, read⟩ := Except.bind_eq_ok.mp done
    dsimp only [parameterRecord, Record.required, Record.field] at read
    rw [Fields.lookup_eq_none.mpr absent] at read
    cases read
  exact respects_parameterRecord.readObject (covers named) parameter done

/-- An object that keeps what it was as a node, as a table and as a parameter. Its only member holds
something, so it stands for no operator and no tag. -/
theorem keeps_obj (held : ∀ name value, members = [(name, value)] → ¬value.Bare)
    (node : Except.Keeps (Json.obj members).toNode (Json.obj changed).toNode)
    (fields : Except.Keeps (Json.obj members).reading.fields (Json.obj changed).reading.fields)
    (parameter : Except.Keeps (Json.obj members).asParameter (Json.obj changed).asParameter) :
    (Json.obj members).Keeps (Json.obj changed) := by
  have full : ¬∃ name value, members = [(name, value)] ∧ value.Bare :=
    fun ⟨name, value, only, bare⟩ => held name value only bare
  constructor
  case null => exact ⟨nofun, nofun⟩
  case tag => exact fun _ done => absurd (asTag_obj done) full
  case binary => exact fun _ done => absurd (asOperator_obj done) full
  case unary => exact fun _ done => absurd (asOperator_obj done) full
  case parameter => exact parameter
  case node => exact node
  case fields => exact fields
  case payload => exact keeps_payload rfl node fields
  all_goals exact nofun

/-- Members that change one by one. -/
theorem keeps_of_entries (held : ∀ name value, members = [(name, value)] → ¬value.Bare)
    (entries : List.Forall₂ (Fields.Entry Keeps) members changed) :
    (Json.obj members).Keeps (Json.obj changed) := by
  have covers {fields : List String} : Fields.Covers Keeps fields members changed :=
    Fields.covers_of_entries entries
  apply keeps_obj held
  · exact keeps_toNode covers fun _ _ => covers
  · change Except.Keeps ((memberReadings members).mapM _) ((memberReadings changed).mapM _)
    rw [memberReadings_eq_map, memberReadings_eq_map]
    refine .mapM (List.forall₂_map_left_iff.mpr (List.forall₂_map_right_iff.mpr ?_))
    refine entries.imp ?_
    rintro _ _ ⟨kept⟩
    exact kept.node.map _
  · exact keeps_asParameter fun _ => covers

/-- Members of a node in another order, among others that are no fields. -/
theorem keeps_of_foreign {kind : String} {foreign : List (String × Json)}
    (found : members.lookup "kind" = some (.str kind))
    (other : ∀ f ∈ foreign, f.1 ≠ "kind" ∧ f.1 ∉ NodeShape.fieldNames kind)
    (perm : (members ++ foreign).Perm changed) (apart : (Fields.names changed).Nodup) :
    (Json.obj members).Keeps (Json.obj changed) := by
  have covers {fields : List String} (outside : ∀ f ∈ foreign, f.1 ∉ fields) :
      Fields.Covers Keeps fields members changed :=
    Fields.covers_of_foreign .refl perm apart outside
  apply keeps_obj
  · rintro name value rfl bare
    rw [List.lookup_cons] at found
    split at found
    · cases found
      rcases bare with null | empty
      · cases null
      · cases empty
    · cases found
  · apply keeps_toNode
    · exact covers fun f inside => mt List.mem_singleton.mp (other f inside).1
    · intro kind' found'
      cases found.symm.trans found'
      exact covers fun f inside => (other f inside).2
  · -- The kind is a text and no node, so the object is no table of nodes.
    intro fields table
    obtain ⟨node, -, read⟩ := Fields.exists_of_lookup_entries (fields_obj_eq_ok.mp table) found
    cases read
  · refine keeps_asParameter fun named => covers fun f inside => mt List.mem_singleton.mp ?_
    rintro same
    have both := (perm.map Prod.fst).nodup_iff.mpr apart
    rw [List.map_append, List.nodup_append] at both
    exact both.2.2 _ named _ (List.mem_map.mpr ⟨f, inside, rfl⟩) same.symm

/-- Every change keeps what a value can be read as. -/
theorem Varies.keeps {value value' : Json} (varies : value.Varies value') :
    value.Keeps value' := by
  induction varies with
  | node found other perm apart => exact keeps_of_foreign found other perm apart
  | item front back _ ih =>
    have same (items : List Json) : List.Forall₂ Keeps items items :=
      List.forall₂_same.mpr fun _ _ => .refl _
    exact keeps_arr (List.rel_append (same front) (.cons ih (same back)))
  | @member value value' name front back varies ih =>
    have same (members : List (String × Json)) :
        List.Forall₂ (Fields.Entry Keeps) members members :=
      List.forall₂_same.mpr fun _ _ => .mk (.refl _)
    have entry : Fields.Entry Keeps (name, value) (name, value') := .mk ih
    apply keeps_of_entries
    · intro other held only
      rw [List.append_eq_singleton_iff] at only
      rcases only with ⟨-, only⟩ | ⟨-, only⟩
      · cases only
        exact varies.not_bare
      · cases only
    · exact List.rel_append (same front) (.cons entry (same back))

end Json

/-- Decoding ignores the order of keys and keys that are no fields. From a value that is read as a
program, and from any other that is reached by changes in any number of objects with a kind, at any
depth, the same program is read; so it is from the texts that hold the two. -/
theorem decoding_ignores_foreign_keys {value value' : Json} {program : Program}
    (varies : Relation.ReflTransGen Json.Varies value value')
    (decodes : value.reading.nodes = .ok program) :
    value'.reading.nodes = .ok program ∧
      ∀ text, Json.read text = .ok value' → Program.read text = .ok program := by
  have again : value'.reading.nodes = .ok program := by
    induction varies with
    | refl => exact decodes
    | tail _ last ih => exact last.keeps.nodes program ih
  refine ⟨again, fun text readable => ?_⟩
  cases value' with
  | arr items =>
    exact Program.read_eq_ok.mpr
      ⟨items, readable, Except.mapM_eq_ok.mpr (Json.nodes_arr_eq_ok.mp again)⟩
  | _ => cases again

/-- A node of an unknown kind gets a key that other kinds have, and the payload of a literal, itself
a node, gets its keys in another order with one more between them. -/
theorem decoding_ignores_foreign_keys_of_payload :
    let type (tag : Tag) := Node.type tag none [] none []
    let literal (payload : Json) := Json.obj
      [("kind", .str "literal"), ("type", .arr [.str "type", .str "type"]), ("value", payload)]
    let program : Program :=
      [.unknown "mystery", .literal (type (.prim .type)) (some (.node (type (.prim .int)))) [] []]
    (Json.arr [.obj [("kind", .str "mystery")],
      literal (.obj [("kind", .str "type"), ("type", .str "int")])]).reading.nodes = .ok program ∧
    (Json.arr [.obj [("value", .arr []), ("kind", .str "mystery")],
      literal (.obj [("type", .str "int"), ("value", .null),
        ("kind", .str "type")])]).reading.nodes = .ok program := by
  intro type literal program
  let mystery := [("kind", Json.str "mystery")]
  let payload := [("kind", Json.str "type"), ("type", .str "int")]
  have first : (Json.obj mystery).Varies (.obj [("value", .arr []), ("kind", .str "mystery")]) :=
    @Json.Varies.node "mystery" mystery [("value", .arr [])] _ rfl (by decide) (.swap _ _ _)
      (by decide)
  have last : (Json.obj payload).Varies
      (.obj [("type", .str "int"), ("value", .null), ("kind", .str "type")]) :=
    @Json.Varies.node "type" payload [("value", .null)] _ rfl (by decide)
      ((List.Perm.swap _ _ _).trans (.cons _ (.swap _ _ _))) (by decide)
  have varies := (Relation.ReflTransGen.single
    (Json.Varies.item [] [literal (.obj payload)] first)).tail
    (.item [_] [] (.member "value" [_, _] [] last))
  have decodes : (Json.arr [.obj mystery, literal (.obj payload)]).reading.nodes = .ok program :=
    rfl
  exact ⟨decodes, (decoding_ignores_foreign_keys varies decodes).1⟩

end Arbor
