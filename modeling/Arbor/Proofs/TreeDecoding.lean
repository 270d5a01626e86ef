import Arbor.Proofs.Rounding
import Arbor.Proofs.TreeEncoding

/-!
# The trees that JSON holds

Reading is a way back from writing, onto exactly the representable nodes: what was written is read
back, and whatever JSON value is read as a node gives a representable one. So no value is both a
node and a table of nodes, and only an object whose kind is outside the language becomes an
unknown node. A whole number too large for a signed word is read as a double, and never past the
largest one.
-/

namespace Arbor

/-- Induction over JSON values. -/
@[induction_eliminator]
theorem Json.ind {motive : Json → Prop} (null : motive .null)
    (bool : ∀ value, motive (.bool value)) (int : ∀ value, motive (.int value))
    (float : ∀ value, motive (.float value)) (str : ∀ text, motive (.str text))
    (arr : ∀ items, (∀ item ∈ items, motive item) → motive (.arr items))
    (obj : ∀ members, (∀ member ∈ members, motive member.2) → motive (.obj members)) :
    ∀ value, motive value :=
  @Json.rec motive
    (fun items => ∀ item ∈ items, motive item)
    (fun members => ∀ member ∈ members, motive member.2)
    (fun member => motive member.2)
    null bool int float str arr obj
    (by simp) (fun head tail headIH tailIH => by simpa using ⟨headIH, tailIH⟩)
    (by simp) (fun head tail headIH tailIH => List.forall_mem_cons.mpr ⟨headIH, tailIH⟩)
    (fun _ _ ih => ih)

/-! ## Whole numbers as doubles -/

namespace Binary64

theorem roundHalfEven_le (n d : Nat) : roundHalfEven n d ≤ n / d + 1 := by
  unfold roundHalfEven
  dsimp only
  split <;> omega

/-- A whole number below a power of two has its place within a few binades of that power. -/
theorem rankOf_lt {num : Nat} (bound : Nat) (small : num < 1 <<< bound) :
    rankOf num 1 < (bound + unitPlace + 3) * binadeSize := by
  have scaled : num * unitsInOne < 2 ^ (bound + unitPlace) := by
    rw [unitsInOne, Nat.one_shiftLeft, Nat.pow_add]
    exact Nat.mul_lt_mul_of_pos_right (Nat.one_shiftLeft bound ▸ small) (Nat.two_pow_pos _)
  have shift : Nat.log2 (num * unitsInOne) - 52 ≤ bound + unitPlace := by
    by_cases zero : num * unitsInOne = 0
    · simp [zero]
    · have := (Nat.log2_lt zero).mpr scaled
      omega
  have fraction : num * unitsInOne / 1 <<< (Nat.log2 (num * unitsInOne) - 52) < 2 * binadeSize := by
    rw [Nat.one_shiftLeft]
    apply Nat.div_lt_of_lt_mul
    calc num * unitsInOne < 2 ^ (Nat.log2 (num * unitsInOne) + 1) := Nat.lt_log2_self
      _ ≤ 2 ^ (Nat.log2 (num * unitsInOne) - 52 + 53) := Nat.pow_le_pow_right (by decide) (by omega)
      _ = 2 ^ (Nat.log2 (num * unitsInOne) - 52) * (2 * binadeSize) := by
        rw [Nat.pow_add]
        rfl
  -- Rounding up may carry into the next binade, so the place is bounded with room to spare.
  have rounded := roundHalfEven_le (num * unitsInOne) (1 <<< (Nat.log2 (num * unitsInOne) - 52))
  have binades := Nat.mul_le_mul_right binadeSize shift
  have size : 1 < binadeSize := by decide
  unfold rankOf
  dsimp only
  rw [Nat.div_one, Nat.add_mul _ 3]
  omega

/-- A whole number of 64 bits is not past the largest double. -/
theorem exists_ofInt {n : Int} (small : n.natAbs < 0x10000000000000000) :
    ∃ x, ofInt n = some x := by
  have below : rankOf n.natAbs 1 < 0x7ff0000000000000 :=
    Nat.lt_trans (rankOf_lt 64 small) (by decide)
  rw [ofInt, ofRatio, dif_pos below]
  exact ⟨_, rfl⟩

end Binary64

/-- A number beyond the signed words is read as the double nearest to it. -/
theorem WideInt.exists_float (n : WideInt) (large : 0x8000000000000000 ≤ n.val) :
    ∃ x, Binary64.ofInt n.val = some x ∧ (Json.int n).reading.payload = .ok (.float x) := by
  have small : n.val.natAbs < 0x10000000000000000 := by
    have := n.lt
    omega
  obtain ⟨x, nearest⟩ := Binary64.exists_ofInt small
  refine ⟨x, nearest, congrArg Except.ok ?_⟩
  rw [Reading.intPayload, if_neg (by omega), nearest, Option.getD_some]

/-! ## Written values

No object in what is written has a name twice, if no table in the node has. -/

theorem Json.Distinct.ofKind {kind : String} {fields : List (String × Option Json)}
    (apart : (Fields.names (slots kind fields)).Nodup)
    (parts : ∀ slot ∈ fields, ∀ part ∈ slot.2, part.Distinct) :
    (Json.ofKind kind fields).Distinct := by
  refine .obj (apart.sublist (Fields.names_present_sublist _)) ?_
  intro member inside
  obtain ⟨slot, known, held⟩ := List.mem_filterMap.mp inside
  obtain ⟨part, filled, rfl⟩ := Option.map_eq_some_iff.mp held
  rcases List.mem_cons.mp known with rfl | known
  · cases filled
    exact .str kind
  · exact parts slot known part filled

theorem Node.distinct_encodeAll {nodes : List Node} (each : ∀ n ∈ nodes, n.encode.Distinct) :
    (Json.arr (encodeAll nodes)).Distinct := by
  rw [encodeAll_eq_map]
  exact .arr (List.forall_mem_map.mpr each)

theorem Node.distinct_encodeFields {fields : List (String × Node)}
    (apart : (Fields.names fields).Nodup) (each : ∀ f ∈ fields, f.2.encode.Distinct) :
    (Json.obj (encodeFields fields)).Distinct := by
  rw [encodeFields_eq_map]
  refine .obj ?_ (List.forall_mem_map.mpr each)
  rw [Fields.names, List.map_map]
  exact apart

theorem Payload.distinct_encode {payload : Payload}
    (inner : ∀ node, payload = .node node → node.encode.Distinct)
    (apart : (Fields.names (Payload.entries (some payload))).Nodup)
    (each : ∀ f ∈ Payload.entries (some payload), f.2.encode.Distinct) :
    payload.encode.Distinct := by
  cases payload with
  | bool value => exact .bool value
  | int value => exact .int _
  | float value => exact .float value
  | str text => exact .str text
  | node node => exact inner node rfl
  | fields table => exact Node.distinct_encodeFields apart each

theorem Json.distinct_ofParameters (parameters : List String) :
    (ofParameters parameters).Distinct := by
  refine .arr (List.forall_mem_map.mpr fun name _ => .obj (by simp [Fields.names]) ?_)
  simpa using Distinct.str name

theorem Node.Distinct.encode {node : Node} (distinct : node.Distinct) : node.encode.Distinct := by
  induction distinct with
  | bind _ ih =>
    exact .ofKind (by simp [Json.slots, Fields.names]) (by simpa using ⟨.str _, ih⟩)
  | assign _ _ targetIH valueIH =>
    exact .ofKind (by simp [Json.slots, Fields.names]) (by simpa using ⟨targetIH, valueIH⟩)
  | ret _ ih =>
    refine .ofKind (by simp [Json.slots, Fields.names]) ?_
    simpa [encodeOption_eq_map] using ih
  | branch _ _ _ testIH bodyIH otherwiseIH =>
    refine .ofKind (by simp [Json.slots, Fields.names]) ?_
    have others := fun other inside => distinct_encodeAll (otherwiseIH other inside)
    simpa [encodeBody_eq_map] using ⟨testIH, distinct_encodeAll bodyIH, others⟩
  | loop _ _ testIH bodyIH =>
    refine .ofKind (by simp [Json.slots, Fields.names]) ?_
    simpa using ⟨testIH, distinct_encodeAll bodyIH⟩
  | ident name =>
    exact .ofKind (by simp [Json.slots, Fields.names]) (by simpa using .str name)
  | @literal _ payload parameters _ _ _ apart _ _ typeIH nodeIH entriesIH bodyIH =>
    have held : ∀ inner ∈ payload, inner.encode.Distinct := by
      rintro inner rfl
      exact Payload.distinct_encode (fun node same => nodeIH node (congrArg some same)) apart
        entriesIH
    refine .ofKind (by simp [Json.slots, Fields.names]) ?_
    simpa [Payload.encodeOption_eq_map] using
      ⟨typeIH, held, Json.distinct_ofParameters parameters, distinct_encodeAll bodyIH⟩
  | new _ ih =>
    exact .ofKind (by simp [Json.slots, Fields.names]) (by simpa using ih)
  | binary _ _ leftIH rightIH =>
    exact .ofKind (by simp [Json.slots, Fields.names]) (by simpa using ⟨.str _, leftIH, rightIH⟩)
  | unary _ ih =>
    exact .ofKind (by simp [Json.slots, Fields.names]) (by simpa using ⟨.str _, ih⟩)
  | call _ _ calleeIH argumentsIH =>
    refine .ofKind (by simp [Json.slots, Fields.names]) ?_
    simpa using ⟨calleeIH, distinct_encodeAll argumentsIH⟩
  | member _ ih =>
    exact .ofKind (by simp [Json.slots, Fields.names]) (by simpa using ⟨ih, .str _⟩)
  | element _ _ objectIH indexIH =>
    exact .ofKind (by simp [Json.slots, Fields.names]) (by simpa using ⟨objectIH, indexIH⟩)
  | @type _ name _ _ _ _ _ apart _ parametersIH returnsIH fieldsIH =>
    have named : ∀ text ∈ name, (Json.str text).Distinct := fun text _ => .str text
    refine .ofKind (by simp [Json.slots, Fields.names]) ?_
    simpa [encodeOption_eq_map] using ⟨.str _, named, distinct_encodeAll parametersIH, returnsIH,
      distinct_encodeFields apart fieldsIH⟩
  | unknown kind => exact .ofKind (by simp [Json.slots, Fields.names]) (by simp)

/-! ## Readings -/

/-- The reading is that of its source, and in whatever way it is used, the nodes in it are
representable. -/
structure Reading.Representable (r : Reading) : Prop where
  source : r.source.reading = r
  node {node : Node} : r.node = .ok node → node.Representable
  nodes {nodes : List Node} : r.nodes = .ok nodes → ∀ n ∈ nodes, n.Representable
  fields {fields : List (String × Node)} : r.fields = .ok fields → ∀ f ∈ fields, f.2.Representable

/-- The nodes that the payload holds are representable. -/
structure Payload.Representable (payload : Option Payload) : Prop where
  node : ∀ node, payload = some (.node node) → node.Representable
  entries : ∀ f ∈ Payload.entries payload, f.2.Representable

theorem Reading.Representable.payload {r : Reading} (representable : r.Representable)
    {payload : Payload} (done : r.payload = .ok payload) :
    Payload.Representable (some payload) := by
  rw [← representable.source] at done
  cases payload with
  | node inner =>
    have here := Json.payload_eq_node.mp done
    rw [Json.toNode, representable.source] at here
    refine ⟨?_, nofun⟩
    rintro _ ⟨⟩
    exact representable.node here
  | fields table =>
    have here := Json.payload_eq_fields.mp done
    rw [representable.source] at here
    exact ⟨nofun, representable.fields here⟩
  | _ => exact ⟨nofun, nofun⟩

theorem Json.representable_of_asTag {value : Json} {tag : Tag} (done : value.asTag = .ok tag) :
    tag.Representable := by
  unfold asTag at done
  split at done
  · cases done
    exact Tag.representable_ofName _
  · split at done
    · next found =>
      cases done
      exact Tag.representable_of_known? found
    · cases done
  · cases done

namespace NodeShape

open Record (Yields)

/-- From representable parts, each shape makes a representable node of its kind. -/
theorem representable_of_mem_all {shape : NodeShape} (known : shape ∈ all) :
    shape.record.Yields Reading.Representable
      fun node => node.Representable ∧ node.kind = shape.kind := by
  have anything {α : Type} {name : String} {read : Reading → Except ShapeError α}
      {default : Option α} :
      (Record.field name read default).Yields Reading.Representable fun _ => True :=
    .field (fun _ _ => trivial) (fun _ _ => trivial)
  have node {name : String} :
      (Record.required name Reading.node).Yields Reading.Representable Node.Representable :=
    .field (fun part done => part.node done) nofun
  have nodes {name : String} :
      (nodeList name).Yields Reading.Representable fun nodes => ∀ n ∈ nodes, n.Representable :=
    .field (fun part done => part.nodes done) (by simp)
  have nullableNode {name : String} : (nullable name Reading.node).Yields Reading.Representable
      fun value => ∀ v ∈ value, v.Representable :=
    .field (fun part done => Reading.Distinct.orNull part.node done) (by simp)
  have nullableNodes {name : String} : (nullable name Reading.nodes).Yields Reading.Representable
      fun value => ∀ nodes ∈ value, ∀ n ∈ nodes, n.Representable :=
    .field (fun part done => Reading.Distinct.orNull part.nodes done) (by simp)
  have payload {name : String} :
      (nullable name Reading.payload).Yields Reading.Representable Payload.Representable := by
    apply Yields.field
    · intro r value part done
      have filled := Reading.Distinct.orNull part.payload done
      cases value with
      | none => exact ⟨nofun, nofun⟩
      | some value => exact filled value rfl
    · intro value absent
      cases absent
      exact ⟨nofun, nofun⟩
  have fields {name : String} : (Record.field name Reading.fields (some [])).Yields
      Reading.Representable fun fields => ∀ f ∈ fields, f.2.Representable :=
    .field (fun part done => part.fields done) (by simp)
  have tag {name : String} : (Record.required name fun r : Reading => r.source.asTag).Yields
      Reading.Representable Tag.Representable :=
    .field (fun _ done => Json.representable_of_asTag done) nofun
  simp only [all, List.mem_cons, List.not_mem_nil, or_false] at known
  rcases known with rfl | rfl | rfl | rfl | rfl | rfl | rfl | rfl | rfl | rfl | rfl | rfl | rfl | rfl
  · exact .seq (.map (fun _ _ _ value => ⟨.bind value, rfl⟩) anything) node
  · exact .seq (.map (fun _ target _ value => ⟨.assign target value, rfl⟩) node) node
  · exact .map (fun _ value => ⟨.ret value, rfl⟩) nullableNode
  · exact .seq (.seq (.map (fun _ test _ body _ other => ⟨.branch test body other, rfl⟩) node)
      nodes) nullableNodes
  · exact .seq (.map (fun _ test _ body => ⟨.loop test body, rfl⟩) node) nodes
  · exact .map (fun name _ => ⟨.ident name, rfl⟩) anything
  · refine .seq (.seq (.seq (.map ?_ node) payload) anything) nodes
    intro _ described _ filled _ _ _ body
    exact ⟨.literal described filled.node filled.entries body, rfl⟩
  · exact .map (fun _ target => ⟨.new target, rfl⟩) node
  · exact .seq (.seq (.map (fun _ _ _ left _ right => ⟨.binary left right, rfl⟩) anything) node) node
  · exact .seq (.map (fun _ _ _ operand => ⟨.unary operand, rfl⟩) anything) node
  · exact .seq (.map (fun _ callee _ arguments => ⟨.call callee arguments, rfl⟩) node) nodes
  · exact .seq (.map (fun _ object _ _ => ⟨.member object, rfl⟩) node) anything
  · exact .seq (.map (fun _ object _ index => ⟨.element object index, rfl⟩) node) node
  · refine .seq (.seq (.seq (.seq (.map ?_ tag) anything) nodes) nullableNode) fields
    intro _ spelled _ _ _ parameters _ returns _ table
    exact ⟨.type spelled parameters returns table, rfl⟩

theorem kind_of_find? {kind : String} {shape : NodeShape} (found : find? kind = some shape) :
    shape.kind = kind := by
  simpa using List.find?_some found

end NodeShape

namespace Json

/-- Only an object with a text for its kind is a node by its members. -/
theorem exists_kind_of_toNode {members : List (String × Json)} {node : Node}
    (done : (Json.obj members).toNode = .ok node) :
    ∃ kind, members.lookup "kind" = some (.str kind) := by
  change Reading.nodeOfMembers (memberReadings members) = .ok node at done
  rw [Reading.nodeOfMembers, memberReadings_eq_map, Fields.lookup_map] at done
  cases found : members.lookup "kind" with
  | none =>
    rw [found] at done
    cases done
  | some part =>
    rw [found] at done
    cases part with
    | str kind => exact ⟨kind, rfl⟩
    | _ => cases done

/-- A node read from members is one of the kind they name, and unknown only if that is not a kind
of the language. -/
theorem representable_of_members {members : List (String × Json)} {kind : String} {node : Node}
    (found : members.lookup "kind" = some (.str kind))
    (parts : ∀ m ∈ memberReadings members, m.2.Representable)
    (done : (Json.obj members).toNode = .ok node) : node.Representable ∧ node.kind = kind := by
  rw [toNode_obj found] at done
  split at done
  · next shape known =>
    rw [← NodeShape.kind_of_find? known]
    have yields := NodeShape.representable_of_mem_all (List.mem_of_find?_eq_some known)
    exact yields.readObject parts done
  · next absent =>
    cases done
    exact ⟨.unknown (NodeShape.find?_eq_none.mp absent), rfl⟩

theorem representable_of_items {items : List Json} {node : Node}
    (parts : ∀ r ∈ readings items, r.Representable) (done : (Json.arr items).toNode = .ok node) :
    node.Representable ∧ node.kind ∈ NodeShape.kinds := by
  change Reading.nodeOfItems (readings items) = .ok node at done
  unfold Reading.nodeOfItems at done
  split at done
  · cases done
  · next first rest same =>
    split at done
    · split at done
      · next shape known =>
        have member := List.mem_of_find?_eq_some known
        rw [same] at parts
        have yields := NodeShape.representable_of_mem_all member
        obtain ⟨representable, kind⟩ :=
          yields.readArray (List.forall_mem_cons.mp parts).2 done
        exact ⟨representable, kind ▸ List.mem_map_of_mem member⟩
      · cases done
    · cases done

/-- However a JSON value is used, the nodes in it are representable. -/
theorem representable_reading (value : Json) : value.reading.Representable := by
  induction value with
  | arr items ih =>
    have parts : ∀ r ∈ readings items, r.Representable := by
      rw [readings_eq_map, List.forall_mem_map]
      exact ih
    refine ⟨rfl, fun done => (representable_of_items parts done).1, ?_, nofun⟩
    intro nodes done n member
    obtain ⟨item, inside, here⟩ := exists_of_mem_forall₂ (nodes_arr_eq_ok.mp done) n member
    exact (ih item inside).node here
  | obj members ih =>
    have parts : ∀ m ∈ memberReadings members, m.2.Representable := by
      rw [memberReadings_eq_map, List.forall_mem_map]
      exact ih
    refine ⟨rfl, ?_, nofun, ?_⟩
    · intro node done
      obtain ⟨kind, found⟩ := exists_kind_of_toNode done
      exact (representable_of_members found parts done).1
    · intro fields done field member
      obtain ⟨origin, inside, here⟩ := exists_of_mem_forall₂ (fields_obj_eq_ok.mp done) field member
      cases here with
      | mk read => exact (ih _ inside).node read
  | _ => exact ⟨rfl, nofun, nofun, nofun⟩

theorem representable_readings (items : List Json) : ∀ r ∈ readings items, r.Representable := by
  rw [readings_eq_map, List.forall_mem_map]
  exact fun item _ => representable_reading item

theorem representable_memberReadings (members : List (String × Json)) :
    ∀ m ∈ memberReadings members, m.2.Representable := by
  rw [memberReadings_eq_map, List.forall_mem_map]
  exact fun member _ => representable_reading member.2

/-- An unknown node is exactly an object whose kind is outside the language. A known kind with a
field that is missing or of a wrong shape is not among them. -/
theorem toNode_eq_unknown {value : Json} {kind : String} :
    value.toNode = .ok (.unknown kind) ↔
      ∃ members, value = .obj members ∧ members.lookup "kind" = some (.str kind) ∧
        kind ∉ NodeShape.kinds := by
  constructor
  · intro done
    have outside : kind ∉ NodeShape.kinds := by
      cases (representable_reading value).node done with
      | unknown outside => exact outside
    cases value with
    | obj members =>
      obtain ⟨named, found⟩ := exists_kind_of_toNode done
      have same : kind = named :=
        (representable_of_members found (representable_memberReadings members) done).2
      exact ⟨members, rfl, same ▸ found, outside⟩
    | arr items =>
      have known := (representable_of_items (representable_readings items) done).2
      exact absurd known outside
    | _ => cases done
  · rintro ⟨members, rfl, found, outside⟩
    rw [toNode_obj found, NodeShape.find?_eq_none.mpr outside]

end Json

/-! ## The way back -/

namespace Node

/-- Reading inverts writing on the representable nodes and yields no others, and neither makes a
name stand twice. A payload is a node exactly if the value is one, and a table exactly if the value
is an object of nodes, whatever its names. An unknown node comes exactly from a kind outside the
language. A number beyond the signed words is the double nearest to it, which is finite. -/
theorem decoding_inverts_encoding :
    (∀ node : Node, node.Representable → node.encode.toNode = .ok node) ∧
    (∀ node : Node, node.Distinct → node.encode.Distinct) ∧
    (∀ (value : Json) (node : Node), value.toNode = .ok node →
      node.Representable ∧ (value.Distinct → node.Distinct)) ∧
    (∀ (value : Json) (node : Node),
      value.reading.payload = .ok (.node node) ↔ value.toNode = .ok node) ∧
    (∀ (value : Json) (fields : List (String × Node)),
      value.reading.payload = .ok (.fields fields) ↔
        ∃ members, value = .obj members ∧
          List.Forall₂ (Fields.Entry fun part node => part.toNode = .ok node) members fields) ∧
    (∀ (value : Json) (kind : String), value.toNode = .ok (.unknown kind) ↔
      ∃ members, value = .obj members ∧ members.lookup "kind" = some (.str kind) ∧
        kind ∉ NodeShape.kinds) ∧
    (∀ n : WideInt, 0x8000000000000000 ≤ n.val → ∃ x, Binary64.ofInt n.val = some x ∧
      (Json.int n).reading.payload = .ok (.float x)) := by
  refine ⟨fun node => Representable.toNode_encode, fun node => Distinct.encode, ?_,
    fun value node => Json.payload_eq_node, ?_, fun value kind => Json.toNode_eq_unknown,
    WideInt.exists_float⟩
  · intro value node done
    exact ⟨value.representable_reading.node done, fun distinct => distinct.reading.node done⟩
  · intro value fields
    rw [Json.payload_eq_fields]
    constructor
    · intro table
      cases value with
      | obj members => exact ⟨members, rfl, Json.fields_obj_eq_ok.mp table⟩
      | _ => cases table
    · rintro ⟨members, rfl, entries⟩
      exact Json.fields_obj_eq_ok.mpr entries

/-- A literal of an unknown tag that gives a value to a field called `kind`. -/
def kindField : Node :=
  .literal (.type (.unknown "record") none [] none [])
    (some (.fields [("kind", .unknown "for"), ("x", .ident "x")])) ["p"] [.ret none]

theorem decoding_inverts_encoding_of_kindField :
    kindField.Representable ∧ kindField.Distinct ∧ kindField.encode.toNode = .ok kindField ∧
      kindField.encode.Distinct ∧ ∃ x, Binary64.ofInt 0xffffffffffffffff = some x ∧
        (Json.int ⟨0xffffffffffffffff, by decide, by decide⟩).reading.payload = .ok (.float x) := by
  have representable : kindField.Representable := by
    refine .literal (.type ?_ nofun nofun nofun) nofun ?_ ?_
    · rintro name ⟨⟩
      decide
    · simp only [Payload.entries, List.forall_mem_cons]
      exact ⟨.unknown (by decide), .ident "x", nofun⟩
    · simp only [List.forall_mem_cons]
      exact ⟨.ret nofun, nofun⟩
  have distinct : kindField.Distinct := by
    refine .literal (.type nofun nofun .nil nofun) nofun ?_ ?_ ?_
    · decide
    · simp only [Payload.entries, List.forall_mem_cons]
      exact ⟨.unknown "for", .ident "x", nofun⟩
    · simp only [List.forall_mem_cons]
      exact ⟨.ret nofun, nofun⟩
  obtain ⟨inverts, keeps, -, -, -, -, rounds⟩ := decoding_inverts_encoding
  exact ⟨representable, distinct, inverts _ representable, keeps _ distinct,
    rounds ⟨0xffffffffffffffff, by decide, by decide⟩ (by decide)⟩

end Node

end Arbor
