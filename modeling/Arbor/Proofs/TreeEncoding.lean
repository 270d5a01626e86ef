import Arbor.Proofs.DistinctNames

/-!
# Trees written as JSON

`Node.encode` writes a node as the object of its kind and its fields. A part that may be absent is
left out when it is, a payload stands by itself. The nodes that can be written so are the
representable ones: their names outside the language do not spell anything inside it. Reading what
was written gives a representable node back, whatever names its tables have.
-/

namespace Arbor

/-! ## The written form -/

/-- The members that are there, of slots that may be empty. -/
def Fields.present {α : Type} (slots : List (String × Option α)) : List (String × α) :=
  slots.filterMap fun slot => slot.2.map fun value => (slot.1, value)

/-- The slots of an object of a kind. -/
def Json.slots (kind : String) (fields : List (String × Option Json)) :
    List (String × Option Json) :=
  ("kind", some (.str kind)) :: fields

/-- The object of a kind with the fields that are there. -/
def Json.ofKind (kind : String) (fields : List (String × Option Json)) : Json :=
  .obj (Fields.present (slots kind fields))

/-- Parameters as objects with a name. -/
def Json.ofParameters (parameters : List String) : Json :=
  .arr (parameters.map fun name => .obj [("name", .str name)])

/-- A signed word. -/
def WideInt.ofWord (n : Int64) : WideInt where
  val := n.toInt
  ge := n.le_toInt
  lt := Int.lt_trans n.toInt_lt (by decide)

mutual

/-- The node as an object of its kind and its fields. -/
def Node.encode : Node → Json
  | .bind name value =>
    .ofKind "let" [("identifier", some (.str name)), ("value", some value.encode)]
  | .assign target value =>
    .ofKind "assign" [("left", some target.encode), ("right", some value.encode)]
  | .ret value => .ofKind "return" [("value", Node.encodeOption value)]
  | .branch condition body otherwise =>
    .ofKind "if" [("condition", some condition.encode), ("body", some (.arr (Node.encodeAll body))),
      ("else", Node.encodeBody otherwise)]
  | .loop condition body =>
    .ofKind "while"
      [("condition", some condition.encode), ("body", some (.arr (Node.encodeAll body)))]
  | .ident name => .ofKind "identifier" [("name", some (.str name))]
  | .literal type payload parameters body =>
    .ofKind "literal" [("type", some type.encode), ("value", Payload.encodeOption payload),
      ("parameters", some (.ofParameters parameters)), ("body", some (.arr (Node.encodeAll body)))]
  | .new target => .ofKind "new" [("target", some target.encode)]
  | .binary op left right =>
    .ofKind "binary"
      [("operator", some (.str op.symbol)), ("left", some left.encode), ("right", some right.encode)]
  | .unary op operand =>
    .ofKind "unary" [("operator", some (.str op.symbol)), ("operand", some operand.encode)]
  | .call callee arguments =>
    .ofKind "call"
      [("callee", some callee.encode), ("arguments", some (.arr (Node.encodeAll arguments)))]
  | .member object property =>
    .ofKind "objAccess" [("object", some object.encode), ("property", some (.str property))]
  | .element object index =>
    .ofKind "access" [("object", some object.encode), ("index", some index.encode)]
  | .type tag name parameters returns fields =>
    .ofKind "type" [("type", some (.str tag.name)), ("name", name.map .str),
      ("parameters", some (.arr (Node.encodeAll parameters))),
      ("returns", Node.encodeOption returns), ("structure", some (.obj (Node.encodeFields fields)))]
  | .unknown kind => .ofKind kind []

/-- A part that may be absent. -/
def Node.encodeOption : Option Node → Option Json
  | none => none
  | some node => some node.encode

/-- A body that may be absent. -/
def Node.encodeBody : Option (List Node) → Option Json
  | none => none
  | some body => some (.arr (Node.encodeAll body))

/-- The nodes of a list, each by itself. -/
def Node.encodeAll : List Node → List Json
  | [] => []
  | node :: rest => node.encode :: Node.encodeAll rest

/-- The nodes of a table under their names. -/
def Node.encodeFields : List (String × Node) → List (String × Json)
  | [] => []
  | (name, node) :: rest => (name, node.encode) :: Node.encodeFields rest

/-- The payload by itself: a scalar, a node or a table. -/
def Payload.encode : Payload → Json
  | .bool value => .bool value
  | .int value => .int (.ofWord value)
  | .float value => .float value
  | .str text => .str text
  | .node node => node.encode
  | .fields fields => .obj (Node.encodeFields fields)

/-- A payload that may be absent. -/
def Payload.encodeOption : Option Payload → Option Json
  | none => none
  | some payload => some payload.encode

end

theorem Node.encodeOption_eq_map (node : Option Node) : encodeOption node = node.map encode := by
  cases node <;> rfl

theorem Node.encodeAll_eq_map (nodes : List Node) : encodeAll nodes = nodes.map encode := by
  induction nodes with
  | nil => rfl
  | cons node rest ih => rw [encodeAll, ih, List.map_cons]

theorem Node.encodeBody_eq_map (body : Option (List Node)) :
    encodeBody body = body.map fun nodes => .arr (encodeAll nodes) := by
  cases body <;> rfl

theorem Node.encodeFields_eq_map (fields : List (String × Node)) :
    encodeFields fields = fields.map fun field => (field.1, field.2.encode) := by
  induction fields with
  | nil => rfl
  | cons field rest ih =>
    obtain ⟨name, node⟩ := field
    rw [encodeFields, ih, List.map_cons]

theorem Payload.encodeOption_eq_map (payload : Option Payload) :
    encodeOption payload = payload.map encode := by
  cases payload <;> rfl

theorem Node.encode_ne_null (node : Node) : node.encode ≠ .null := by
  cases node <;> nofun

theorem Payload.encode_ne_null (payload : Payload) : payload.encode ≠ .null := by
  cases payload with
  | node node => exact node.encode_ne_null
  | _ => nofun

/-! ## The nodes that can be written -/

/-- The spellings of the known tags. -/
def Tag.names : List String :=
  ["int", "float", "bool", "str", "null", "type", "fn", "obj", "list"]

/-- An unknown tag is not spelled like a known one. -/
def Tag.Representable (tag : Tag) : Prop :=
  ∀ name, tag = .unknown name → name ∉ Tag.names

/-- At every depth, unknown kinds are outside the language and unknown tags are not spelled like
known ones. Payloads ask for no more: a `Binary64` is finite. -/
inductive Node.Representable : Node → Prop where
  | bind {name : String} {value : Node} : Representable value → Representable (.bind name value)
  | assign {target value : Node} : Representable target → Representable value →
      Representable (.assign target value)
  | ret {value : Option Node} : (∀ v ∈ value, Representable v) → Representable (.ret value)
  | branch {condition : Node} {body : List Node} {otherwise : Option (List Node)} :
      Representable condition → (∀ n ∈ body, Representable n) →
      (∀ other ∈ otherwise, ∀ n ∈ other, Representable n) →
      Representable (.branch condition body otherwise)
  | loop {condition : Node} {body : List Node} : Representable condition →
      (∀ n ∈ body, Representable n) → Representable (.loop condition body)
  | ident (name : String) : Representable (.ident name)
  | literal {descriptor : Node} {payload : Option Payload} {parameters : List String}
      {body : List Node} : Representable descriptor →
      (∀ node, payload = some (.node node) → Representable node) →
      (∀ f ∈ Payload.entries payload, Representable f.2) → (∀ n ∈ body, Representable n) →
      Representable (.literal descriptor payload parameters body)
  | new {target : Node} : Representable target → Representable (.new target)
  | binary {op : BinaryOp} {left right : Node} : Representable left → Representable right →
      Representable (.binary op left right)
  | unary {op : UnaryOp} {operand : Node} : Representable operand →
      Representable (.unary op operand)
  | call {callee : Node} {arguments : List Node} : Representable callee →
      (∀ n ∈ arguments, Representable n) → Representable (.call callee arguments)
  | member {object : Node} {property : String} : Representable object →
      Representable (.member object property)
  | element {object index : Node} : Representable object → Representable index →
      Representable (.element object index)
  | type {tag : Tag} {name : Option String} {parameters : List Node} {returns : Option Node}
      {fields : List (String × Node)} : tag.Representable → (∀ n ∈ parameters, Representable n) →
      (∀ r ∈ returns, Representable r) → (∀ f ∈ fields, Representable f.2) →
      Representable (.type tag name parameters returns fields)
  | unknown {kind : String} : kind ∉ NodeShape.kinds → Representable (.unknown kind)

namespace Tag

/-- What is found under a spelling is spelled so, and known. -/
theorem spelled_of_known? {name : String} {tag : Tag} (found : known? name = some tag) :
    tag.name = name ∧ ∀ other, tag ≠ .unknown other := by
  unfold known? at found
  split at found
  · next primitive here =>
    cases found
    have spelled : primitive.name = name := by simpa using List.find?_some here
    exact ⟨spelled, nofun⟩
  · split at found
    · next here =>
      cases found
      exact ⟨here.symm, nofun⟩
    · split at found
      · next here =>
        cases found
        exact ⟨here.symm, nofun⟩
      · split at found
        · next here =>
          cases found
          exact ⟨here.symm, nofun⟩
        · cases found

theorem known?_name {tag : Tag} (known : ∀ other, tag ≠ .unknown other) :
    known? tag.name = some tag := by
  cases tag with
  | prim p => rw [known?, name, Primitive.ofName?_name]
  | unknown name => exact absurd rfl (known name)
  | _ => rfl

/-- The spellings of the known tags are the listed ones. -/
theorem known?_eq_none {name : String} : known? name = none ↔ name ∉ names := by
  rw [← not_iff_not, not_not, Option.eq_none_iff_forall_ne_some, not_forall_not]
  constructor
  · rintro ⟨tag, found⟩
    obtain ⟨rfl, known⟩ := spelled_of_known? found
    cases tag with
    | prim p => cases p <;> decide
    | unknown name => exact absurd rfl (known name)
    | _ => decide
  · intro listed
    simp only [names, List.mem_cons, List.not_mem_nil, or_false] at listed
    rcases listed with rfl | rfl | rfl | rfl | rfl | rfl | rfl | rfl | rfl <;> exact ⟨_, rfl⟩

/-- A representable tag is told by its spelling. -/
theorem ofName_name {tag : Tag} (representable : tag.Representable) : ofName tag.name = tag := by
  cases tag with
  | unknown name =>
    rw [ofName, Tag.name, known?_eq_none.mpr (representable name rfl), Option.getD_none]
  | _ => rw [ofName, known?_name (by simp), Option.getD_some]

theorem representable_of_known? {name : String} {tag : Tag} (found : known? name = some tag) :
    tag.Representable :=
  fun other same => absurd same ((spelled_of_known? found).2 other)

theorem representable_ofName (name : String) : (ofName name).Representable := by
  cases found : known? name with
  | none =>
    intro other same
    rw [ofName, found, Option.getD_none] at same
    cases same
    exact known?_eq_none.mp found
  | some tag =>
    rw [ofName, found, Option.getD_some]
    exact representable_of_known? found

end Tag

/-! ## Fields that were written -/

namespace Fields

variable {α : Type} {slots : List (String × Option α)}

theorem names_present_sublist (slots : List (String × Option α)) :
    (names (present slots)).Sublist (names slots) := by
  induction slots with
  | nil => exact .slnil
  | cons slot rest ih =>
    obtain ⟨name, held⟩ := slot
    cases held with
    | none => exact .cons _ ih
    | some value => exact .cons_cons _ ih

/-- Where no name stands twice, a member is there exactly if its slot is filled. -/
theorem lookup_present (apart : (names slots).Nodup) {name : String} {value : Option α}
    (member : (name, value) ∈ slots) : (present slots).lookup name = value := by
  induction slots with
  | nil => cases member
  | cons slot rest ih =>
    obtain ⟨first, held⟩ := slot
    obtain ⟨fresh, others⟩ := List.nodup_cons.mp apart
    rcases List.mem_cons.mp member with same | behind
    · cases same
      cases value with
      | some value => exact List.lookup_cons_self
      | none =>
        exact lookup_eq_none.mpr fun listed => fresh ((names_present_sublist rest).subset listed)
    · have other : (name == first) = false := by
        rw [beq_eq_false_iff_ne]
        rintro rfl
        exact fresh (List.mem_map.mpr ⟨_, behind, rfl⟩)
      cases held with
      | some held =>
        change ((first, held) :: present rest).lookup name = value
        rw [List.lookup_cons, other]
        exact ih others behind
      | none => exact ih others behind

end Fields

theorem Json.source_reading (value : Json) : value.reading.source = value := by
  cases value <;> rfl

theorem Except.forM_eq_ok {ε α : Type} {f : α → Except ε Unit} {values : List α} :
    values.forM f = .ok () ↔ ∀ a ∈ values, f a = .ok () := by
  induction values with
  | nil => exact ⟨fun _ => nofun, fun _ => rfl⟩
  | cons value rest ih =>
    change (f value >>= fun _ => rest.forM f) = .ok () ↔ _
    rw [Except.bind_eq_ok, List.forall_mem_cons, ih]
    constructor
    · rintro ⟨_, first, others⟩
      exact ⟨first, others⟩
    · rintro ⟨first, others⟩
      exact ⟨(), first, others⟩

theorem Except.mapM_eq_ok {ε α β : Type} {f : α → Except ε β} {values : List α}
    {results : List β} :
    values.mapM f = .ok results ↔ List.Forall₂ (fun a b => f a = .ok b) values results := by
  constructor
  · exact forall₂_of_mapM
  · intro each
    induction each with
    | nil => rfl
    | cons here rest ih =>
      rw [List.mapM_cons]
      exact Except.bind_eq_ok.mpr ⟨_, here, Except.bind_eq_ok.mpr ⟨_, ih, rfl⟩⟩

namespace Record

variable {α β : Type} {slots : List (String × Option Json)}

/-- Every slot that is filled has the shape of its field, and the record reads the value off
them. -/
structure Takes (record : Record Reading α) (slots : List (String × Option Json)) (value : α) :
    Prop where
  check {name : String} {part : Json} : (name, some part) ∈ slots →
    record.check name part.reading = .ok ()
  members : record.ofMembers (Json.memberReadings (Fields.present slots)) = .ok value

namespace Takes

theorem readObject {record : Record Reading α} {value : α} (takes : record.Takes slots value) :
    record.readObject (Json.memberReadings (Fields.present slots)) = .ok value := by
  refine Except.bind_eq_ok.mpr ⟨(), Except.forM_eq_ok.mpr ?_, takes.members⟩
  intro member inside
  rw [Json.memberReadings_eq_map] at inside
  obtain ⟨value, there, rfl⟩ := List.mem_map.mp inside
  obtain ⟨slot, known, held⟩ := List.mem_filterMap.mp there
  obtain ⟨part, filled, rfl⟩ := Option.map_eq_some_iff.mp held
  exact takes.check (filled ▸ known)

variable {name : String} {read : Reading → Except ShapeError α} {default : Option α} {a : α}

/-- One field, with what its slot holds or with its default. -/
theorem field (apart : (Fields.names slots).Nodup) {part : Option Json}
    (slot : slots.lookup name = some part) (filled : ∀ value ∈ part, read value.reading = .ok a)
    (empty : part = none → default = some a) : (Record.field name read default).Takes slots a := by
  have found := Fields.lookup_present apart (Fields.mem_of_lookup slot)
  constructor
  · intro other value inside
    dsimp only [Record.field]
    split
    · next same =>
      subst same
      have here : some value = part := by
        rw [← Fields.lookup_present apart inside, found]
      exact Except.map_eq_ok.mpr ⟨a, filled value here.symm, rfl⟩
    · rfl
  · dsimp only [Record.field]
    rw [Json.memberReadings_eq_map, Fields.lookup_map, found]
    cases part with
    | some value => exact filled value rfl
    | none =>
      rw [empty rfl]
      rfl

theorem seq {f : Record Reading (α → β)} {x : Record Reading α} {g : α → β}
    (first : f.Takes slots g) (second : x.Takes slots a) : (f <*> x).Takes slots (g a) := by
  constructor
  · intro name part inside
    exact Except.bind_eq_ok.mpr ⟨(), first.check inside, second.check inside⟩
  · exact Except.bind_eq_ok.mpr
      ⟨g, first.members, Except.bind_eq_ok.mpr ⟨a, second.members, rfl⟩⟩

theorem map {x : Record Reading α} (g : α → β) (takes : x.Takes slots a) :
    (g <$> x).Takes slots (g a) := by
  have first : (Record.nil g : Record Reading (α → β)).Takes slots g := ⟨fun _ => rfl, rfl⟩
  exact first.seq takes

/-- A field that was written. -/
theorem given (apart : (Fields.names slots).Nodup) {part : Json}
    (slot : slots.lookup name = some (some part)) (reads : read part.reading = .ok a) :
    (Record.field name read default).Takes slots a := by
  apply field apart slot
  · intro value same
    cases same
    exact reads
  · intro absent
    cases absent

/-- A field that is left out when there is nothing to write. -/
theorem nullable (apart : (Fields.names slots).Nodup) {value : Option α} {write : α → Json}
    (slot : slots.lookup name = some (value.map write)) (filled : ∀ a ∈ value, write a ≠ .null)
    (reads : ∀ a ∈ value, read (write a).reading = .ok a) :
    (NodeShape.nullable name read).Takes slots value := by
  apply field apart slot
  · intro part written
    obtain ⟨a, here, rfl⟩ := Option.map_eq_some_iff.mp written
    subst here
    unfold Reading.orNull
    rw [Json.source_reading]
    split
    · next null => exact absurd null (filled a rfl)
    · exact Except.map_eq_ok.mpr ⟨a, reads a rfl, rfl⟩
  · intro absent
    rw [Option.map_eq_none_iff.mp absent]

end Takes

end Record

/-! ## Reading what was written -/

theorem NodeShape.find?_eq_none {kind : String} : find? kind = none ↔ kind ∉ kinds := by
  rw [find?, List.find?_eq_none, kinds, List.mem_map]
  simp

namespace Json

/-- An object with a text for its kind is read by the shape of the kind, or is unknown. -/
theorem toNode_obj {members : List (String × Json)} {kind : String}
    (found : members.lookup "kind" = some (.str kind)) :
    (Json.obj members).toNode =
      match NodeShape.find? kind with
      | some shape => shape.record.readObject (memberReadings members)
      | none => .ok (.unknown kind) := by
  have kindReading : (memberReadings members).lookup "kind" = some (.ofScalar (.str kind)) := by
    rw [memberReadings_eq_map, Fields.lookup_map, found]
    rfl
  change Reading.nodeOfMembers (memberReadings members) = _
  rw [Reading.nodeOfMembers, kindReading]
  rfl

theorem toNode_ofKind {kind : String} {fields : List (String × Option Json)} {shape : NodeShape}
    {node : Node} (known : NodeShape.find? kind = some shape)
    (apart : (Fields.names (slots kind fields)).Nodup)
    (takes : (Fields.names (slots kind fields)).Nodup →
      shape.record.Takes (slots kind fields) node) :
    (ofKind kind fields).toNode = .ok node := by
  rw [ofKind, toNode_obj rfl, known]
  exact (takes apart).readObject

/-- A list of nodes is a list whose items are nodes. -/
theorem nodes_arr_eq_ok {items : List Json} {nodes : List Node} :
    (Json.arr items).reading.nodes = .ok nodes ↔
      List.Forall₂ (fun item node => item.toNode = .ok node) items nodes := by
  have same : (Json.arr items).reading.nodes = (items.map reading).mapM Reading.node := by
    rw [← readings_eq_map]
    rfl
  rw [same, Except.mapM_eq_ok, List.forall₂_map_left_iff]
  rfl

/-- A table of nodes is an object whose members are nodes. -/
theorem fields_obj_eq_ok {members : List (String × Json)} {fields : List (String × Node)} :
    (Json.obj members).reading.fields = .ok fields ↔
      List.Forall₂ (Fields.Entry fun value node => value.toNode = .ok node) members fields := by
  have same : (Json.obj members).reading.fields =
      (members.map fun member => (member.1, member.2.reading)).mapM fun member =>
        member.2.node.map fun node => (member.1, node) := by
    rw [← memberReadings_eq_map]
    rfl
  have entry (member : String × Json) (field : String × Node) :
      (member.2.reading.node.map fun node => (member.1, node)) = .ok field ↔
        Fields.Entry (fun value node => value.toNode = .ok node) member field := by
    rw [Except.map_eq_ok]
    constructor
    · rintro ⟨node, here, rfl⟩
      exact .mk here
    · rintro ⟨here⟩
      exact ⟨_, here, rfl⟩
  rw [same, Except.mapM_eq_ok, List.forall₂_map_left_iff]
  simp only [entry]

theorem asOperator_binary (op : BinaryOp) :
    (Json.str op.symbol).asOperator BinaryOp.all BinaryOp.symbol = .ok op := by
  cases op <;> rfl

theorem asOperator_unary (op : UnaryOp) :
    (Json.str op.symbol).asOperator UnaryOp.all UnaryOp.symbol = .ok op := by
  cases op <;> rfl

theorem asParameters_ofParameters (parameters : List String) :
    (ofParameters parameters).asParameters = .ok parameters := by
  refine Except.mapM_eq_ok.mpr (List.forall₂_map_left_iff.mpr ?_)
  refine List.forall₂_same.mpr fun name _ => ?_
  rfl

/-- A table of nodes is not a node: what it has under the name of the kind is no text. -/
theorem toNode_of_fields {value : Json} {fields : List (String × Node)}
    (table : value.reading.fields = .ok fields) : ∃ error, value.toNode = .error error := by
  cases value with
  | obj members =>
    change ∃ error, Reading.nodeOfMembers (memberReadings members) = .error error
    rw [Reading.nodeOfMembers, memberReadings_eq_map, Fields.lookup_map]
    cases found : members.lookup "kind" with
    | none => exact ⟨_, rfl⟩
    | some part =>
      -- A text would be the name of a kind, but a text is no node.
      obtain ⟨node, -, read⟩ := Fields.exists_of_lookup_entries (fields_obj_eq_ok.mp table) found
      cases part with
      | str text => cases read
      | _ => exact ⟨_, rfl⟩
  | _ => cases table

/-- A text, a number or a truth value is a payload by itself and nothing else. Any other value is
a payload as a node, or else as a table. -/
theorem payload_cases (value : Json) :
    (value.toNode.toOption = none ∧ value.reading.fields.toOption = none ∧
      ∀ payload, value.reading.payload = .ok payload →
        (∀ node, payload ≠ .node node) ∧ ∀ fields, payload ≠ .fields fields) ∨
    value.reading.payload =
      match value.toNode, value.reading.fields with
      | .ok node, _ => .ok (.node node)
      | .error _, .ok fields => .ok (.fields fields)
      | .error _, .error _ => .error .noPayload := by
  cases value with
  | null => exact .inr rfl
  | arr items => exact .inr rfl
  | obj members => exact .inr rfl
  | int n =>
    refine .inl ⟨rfl, rfl, ?_⟩
    rintro payload ⟨⟩
    unfold Reading.intPayload
    split
    · exact ⟨nofun, nofun⟩
    · exact ⟨nofun, nofun⟩
  | _ =>
    refine .inl ⟨rfl, rfl, ?_⟩
    rintro payload ⟨⟩
    exact ⟨nofun, nofun⟩

/-- A payload is a node exactly if the value is one. -/
theorem payload_eq_node {value : Json} {node : Node} :
    value.reading.payload = .ok (.node node) ↔ value.toNode = .ok node := by
  rcases payload_cases value with ⟨other, -, scalar⟩ | compound
  · constructor
    · intro read
      exact absurd rfl ((scalar _ read).1 node)
    · intro read
      rw [read] at other
      cases other
  · rw [compound]
    cases value.toNode with
    | ok found => simp
    | error _ => cases value.reading.fields <;> simp

/-- A payload is a table exactly if the value is one. -/
theorem payload_eq_fields {value : Json} {fields : List (String × Node)} :
    value.reading.payload = .ok (.fields fields) ↔ value.reading.fields = .ok fields := by
  rcases payload_cases value with ⟨-, other, scalar⟩ | compound
  · constructor
    · intro read
      exact absurd rfl ((scalar _ read).2 fields)
    · intro read
      rw [read] at other
      cases other
  · rw [compound]
    constructor
    · intro read
      cases node : value.toNode <;> cases table : value.reading.fields <;> simp_all
    · intro read
      obtain ⟨error, node⟩ := toNode_of_fields read
      rw [node, read]

end Json

section Parts

variable {nodes : List Node} {fields : List (String × Node)}

theorem Node.nodes_encodeAll (each : ∀ n ∈ nodes, n.encode.toNode = .ok n) :
    (Json.arr (encodeAll nodes)).reading.nodes = .ok nodes := by
  rw [encodeAll_eq_map, Json.nodes_arr_eq_ok, List.forall₂_map_left_iff, List.forall₂_same]
  exact each

theorem Node.fields_encodeFields (each : ∀ f ∈ fields, f.2.encode.toNode = .ok f.2) :
    (Json.obj (encodeFields fields)).reading.fields = .ok fields := by
  rw [encodeFields_eq_map, Json.fields_obj_eq_ok, List.forall₂_map_left_iff, List.forall₂_same]
  exact fun field member => .mk (each field member)

theorem WideInt.intPayload_ofWord (n : Int64) : Reading.intPayload (.ofWord n) = .int n := by
  have low : (ofWord n).val < 0x8000000000000000 := n.toInt_lt
  rw [Reading.intPayload, if_pos low, ofWord, Int64.ofInt_toInt]

theorem Payload.payload_encode {payload : Payload}
    (inner : ∀ node, payload = .node node → node.encode.toNode = .ok node)
    (entries : ∀ f ∈ Payload.entries (some payload), f.2.encode.toNode = .ok f.2) :
    payload.encode.reading.payload = .ok payload := by
  cases payload with
  | bool value => rfl
  | int value => exact congrArg Except.ok (WideInt.intPayload_ofWord value)
  | float value => rfl
  | str text => rfl
  | node node => exact Json.payload_eq_node.mpr (inner node rfl)
  | fields table => exact Json.payload_eq_fields.mpr (Node.fields_encodeFields entries)

end Parts

/-- What was written is read back. -/
theorem Node.Representable.toNode_encode {node : Node} (representable : node.Representable) :
    node.encode.toNode = .ok node := by
  -- In each case the shape of the kind takes the slots in its own order; that no name stands twice
  -- among them lets every field find its slot and no other.
  induction representable with
  | bind _ ih =>
    refine Json.toNode_ofKind rfl (by simp [Json.slots, Fields.names]) fun apart => ?_
    exact .seq (.map Node.bind (.given apart rfl rfl)) (.given apart rfl ih)
  | assign _ _ targetIH valueIH =>
    refine Json.toNode_ofKind rfl (by simp [Json.slots, Fields.names]) fun apart => ?_
    exact .seq (.map Node.assign (.given apart rfl targetIH)) (.given apart rfl valueIH)
  | @ret value _ ih =>
    refine Json.toNode_ofKind rfl (by simp [Json.slots, Fields.names]) fun apart => ?_
    exact .map Node.ret (.nullable apart (congrArg some (encodeOption_eq_map value))
      (fun v _ => v.encode_ne_null) ih)
  | @branch condition body otherwise _ _ _ testIH bodyIH otherwiseIH =>
    refine Json.toNode_ofKind rfl (by simp [Json.slots, Fields.names]) fun apart => ?_
    refine .seq (.seq (.map Node.branch (.given apart rfl testIH))
      (.given apart rfl (nodes_encodeAll bodyIH))) ?_
    exact .nullable apart (congrArg some (encodeBody_eq_map otherwise)) (by simp)
      fun other inside => nodes_encodeAll (otherwiseIH other inside)
  | loop _ _ testIH bodyIH =>
    refine Json.toNode_ofKind rfl (by simp [Json.slots, Fields.names]) fun apart => ?_
    exact .seq (.map Node.loop (.given apart rfl testIH))
      (.given apart rfl (nodes_encodeAll bodyIH))
  | ident name =>
    refine Json.toNode_ofKind rfl (by simp [Json.slots, Fields.names]) fun apart => ?_
    exact .map Node.ident (.given apart rfl rfl)
  | @literal descriptor payload parameters body _ _ _ _ typeIH nodeIH entriesIH bodyIH =>
    refine Json.toNode_ofKind rfl (by simp [Json.slots, Fields.names]) fun apart => ?_
    refine .seq (.seq (.seq (.map Node.literal (.given apart rfl typeIH)) ?_)
      (.given apart rfl (Json.asParameters_ofParameters parameters)))
      (.given apart rfl (nodes_encodeAll bodyIH))
    refine .nullable apart (congrArg some (Payload.encodeOption_eq_map payload))
      (fun held _ => held.encode_ne_null) ?_
    rintro held rfl
    exact Payload.payload_encode (fun node same => nodeIH node (congrArg some same)) entriesIH
  | new _ ih =>
    refine Json.toNode_ofKind rfl (by simp [Json.slots, Fields.names]) fun apart => ?_
    exact .map Node.new (.given apart rfl ih)
  | binary _ _ leftIH rightIH =>
    refine Json.toNode_ofKind rfl (by simp [Json.slots, Fields.names]) fun apart => ?_
    exact .seq (.seq (.map Node.binary (.given apart rfl (Json.asOperator_binary _)))
      (.given apart rfl leftIH)) (.given apart rfl rightIH)
  | unary _ ih =>
    refine Json.toNode_ofKind rfl (by simp [Json.slots, Fields.names]) fun apart => ?_
    exact .seq (.map Node.unary (.given apart rfl (Json.asOperator_unary _)))
      (.given apart rfl ih)
  | call _ _ calleeIH argumentsIH =>
    refine Json.toNode_ofKind rfl (by simp [Json.slots, Fields.names]) fun apart => ?_
    exact .seq (.map Node.call (.given apart rfl calleeIH))
      (.given apart rfl (nodes_encodeAll argumentsIH))
  | member _ ih =>
    refine Json.toNode_ofKind rfl (by simp [Json.slots, Fields.names]) fun apart => ?_
    exact .seq (.map Node.member (.given apart rfl ih)) (.given apart rfl rfl)
  | element _ _ objectIH indexIH =>
    refine Json.toNode_ofKind rfl (by simp [Json.slots, Fields.names]) fun apart => ?_
    exact .seq (.map Node.element (.given apart rfl objectIH)) (.given apart rfl indexIH)
  | @type tag name parameters returns fields known _ _ _ parametersIH returnsIH fieldsIH =>
    refine Json.toNode_ofKind rfl (by simp [Json.slots, Fields.names]) fun apart => ?_
    have spelled : (Json.str tag.name).asTag = .ok tag := congrArg Except.ok (Tag.ofName_name known)
    refine .seq (.seq (.seq (.seq (.map Node.type (.given apart rfl spelled)) ?_)
      (.given apart rfl (nodes_encodeAll parametersIH))) ?_)
      (.given apart rfl (fields_encodeFields fieldsIH))
    · exact .nullable apart rfl (by simp) fun _ _ => rfl
    · exact .nullable apart (congrArg some (encodeOption_eq_map returns))
        (fun r _ => r.encode_ne_null) returnsIH
  | unknown outside =>
    rw [encode, Json.ofKind, Json.toNode_obj rfl, NodeShape.find?_eq_none.mpr outside]

end Arbor
