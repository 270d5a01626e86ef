import Arbor.Proofs.EmitRun
import Arbor.Proofs.Reordering
import Arbor.Tree.Program

/-!
# Programs that are read have distinct names

A table that stands in a text is built by writing its entries one behind the other, and a second
write to a name takes the place of the first. So no table of a program that was read has a name
twice, at whatever depth: reading keeps this of JSON values, and the shapes of nodes keep it of the
readings of their parts.
-/

namespace Arbor

/-! ## Computations that may fail -/

theorem Except.map_eq_ok {ε α β : Type} {x : Except ε α} {f : α → β} {b : β} :
    x.map f = .ok b ↔ ∃ a, x = .ok a ∧ f a = b := by
  cases x <;> simp [Except.map]

theorem Except.mapError_eq_ok {ε δ α : Type} {x : Except ε α} {f : ε → δ} {a : α} :
    x.mapError f = .ok a ↔ x = .ok a := by
  cases x <;> simp [Except.mapError]

theorem forall₂_of_mapM {ε α β : Type} {f : α → Except ε β} {values : List α} {results : List β}
    (done : values.mapM f = .ok results) :
    List.Forall₂ (fun a b => f a = .ok b) values results := by
  induction values generalizing results with
  | nil =>
    cases done
    exact .nil
  | cons value rest ih =>
    rw [List.mapM_cons] at done
    obtain ⟨first, here, done⟩ := Except.bind_eq_ok.mp done
    obtain ⟨others, more, ⟨⟩⟩ := Except.bind_eq_ok.mp done
    exact .cons here (ih more)

/-! ## JSON values -/

/-- No object in the value has a name twice. -/
inductive Json.Distinct : Json → Prop where
  | null : Distinct .null
  | bool (value : Bool) : Distinct (.bool value)
  | int (value : WideInt) : Distinct (.int value)
  | float (value : Binary64) : Distinct (.float value)
  | str (text : String) : Distinct (.str text)
  | arr {items : List Json} : (∀ item ∈ items, Distinct item) → Distinct (.arr items)
  | obj {members : List (String × Json)} : (Fields.names members).Nodup →
      (∀ member ∈ members, Distinct member.2) → Distinct (.obj members)

theorem Fields.forall_mem_insert {α : Type} {holds : α → Prop} {name : String} {value : α}
    {fields : List (String × α)} (here : holds value) (others : ∀ f ∈ fields, holds f.2) :
    ∀ f ∈ insert name value fields, holds f.2 := by
  induction fields with
  | nil => simpa [insert] using here
  | cons field rest ih =>
    obtain ⟨first, others⟩ := List.forall_mem_cons.mp others
    rw [insert]
    split
    · exact List.forall_mem_cons.mpr ⟨here, others⟩
    · exact List.forall_mem_cons.mpr ⟨first, ih others⟩

theorem Fields.forall_mem_ofPairs {α : Type} {holds : α → Prop} {pairs : List (String × α)}
    (all : ∀ p ∈ pairs, holds p.2) : ∀ f ∈ ofPairs pairs, holds f.2 := by
  have step : ∀ start : List (String × α), (∀ f ∈ start, holds f.2) →
      ∀ f ∈ pairs.foldl (fun fields p => insert p.1 p.2 fields) start, holds f.2 := by
    induction pairs with
    | nil => exact fun _ known => known
    | cons pair rest ih =>
      obtain ⟨first, others⟩ := List.forall_mem_cons.mp all
      exact fun start known => ih others _ (forall_mem_insert first known)
  exact step [] (by simp)

namespace Bracketed

variable {α ε : Type} {kind : Bracketed} {lift : SyntaxError → ε}
  {item : List Char → Except ε (α × List Char)} {holds : α → Prop}

theorem forall_mem_readMore
    (each : ∀ {text value rest}, item text = .ok (value, rest) → holds value)
    {bound text rest : List Char} {values : List α}
    (done : kind.readMore lift item bound text = .ok (values, rest)) : ∀ v ∈ values, holds v := by
  induction bound generalizing text values rest with
  | nil => cases done
  | cons c bound ih =>
    rw [readMore] at done
    split at done
    · cases done
    · split at done
      · cases done
        simp
      · split at done
        · split at done
          · cases done
          · split at done
            · cases done
            · obtain ⟨⟨first, text⟩, here, done⟩ := Except.bind_eq_ok.mp done
              obtain ⟨⟨others, text⟩, more, ⟨⟩⟩ := Except.bind_eq_ok.mp done
              exact List.forall_mem_cons.mpr ⟨each here, ih more⟩
        · cases done

theorem forall_mem_read
    (each : ∀ {text value rest}, item text = .ok (value, rest) → holds value)
    {text rest : List Char} {values : List α}
    (done : kind.read lift item text = .ok (values, rest)) : ∀ v ∈ values, holds v := by
  rw [read] at done
  split at done
  · cases done
  · split at done
    · cases done
      simp
    · obtain ⟨⟨first, text⟩, here, done⟩ := Except.bind_eq_ok.mp done
      obtain ⟨⟨others, text⟩, more, ⟨⟩⟩ := Except.bind_eq_ok.mp done
      exact List.forall_mem_cons.mpr ⟨each here, forall_mem_readMore each more⟩

end Bracketed

namespace Json

theorem value_of_readKeyword {value found : Json} {more text rest : List Char}
    (done : readKeyword value more text = .ok (found, rest)) : found = value := by
  induction more generalizing text with
  | nil =>
    cases done
    rfl
  | cons k more ih =>
    cases text with
    | nil => cases done
    | cons c text =>
      rw [readKeyword] at done
      split at done
      · exact ih done
      · cases done

theorem holds_of_readMember {holds : Json → Prop}
    {read : List Char → Except SyntaxError (Json × List Char)}
    (each : ∀ {text value rest}, read text = .ok (value, rest) → holds value)
    {text rest : List Char} {found : String × Json}
    (done : readMember read text = .ok (found, rest)) : holds found.2 := by
  unfold readMember at done
  split at done
  · obtain ⟨⟨name, rest⟩, -, done⟩ := Except.bind_eq_ok.mp done
    dsimp only at done
    split at done
    · cases done
    · obtain ⟨⟨value, rest⟩, here, ⟨⟩⟩ := Except.bind_eq_ok.mp done
      exact each here
    · cases done
  · cases done

/-- What holds of scalars, and of lists and objects whose parts it holds of one level down, holds of
every value that is read. An object that is read has no name twice. -/
theorem holds_of_readValue {holds : Nat → Json → Prop} (null : ∀ depth, holds depth .null)
    (bool : ∀ depth value, holds depth (.bool value)) (int : ∀ depth n, holds depth (.int n))
    (float : ∀ depth x, holds depth (.float x)) (str : ∀ depth text, holds depth (.str text))
    (arr : ∀ depth items, (∀ item ∈ items, holds depth item) → holds (depth + 1) (.arr items))
    (obj : ∀ depth members, (Fields.names members).Nodup → (∀ m ∈ members, holds depth m.2) →
      holds (depth + 1) (.obj members))
    {depth : Nat} {text rest : List Char} {value : Json}
    (done : readValue depth text = .ok (value, rest)) : holds depth value := by
  induction depth using Nat.strongRecOn generalizing text value rest with
  | ind depth ih =>
    unfold readValue at done
    split at done
    · cases done
    · rw [value_of_readKeyword done]
      exact null depth
    · rw [value_of_readKeyword done]
      exact bool depth true
    · rw [value_of_readKeyword done]
      exact bool depth false
    · obtain ⟨⟨text, rest⟩, -, ⟨⟩⟩ := Except.bind_eq_ok.mp done
      exact str depth text
    · split at done
      · cases done
      · obtain ⟨⟨items, rest⟩, inside, ⟨⟩⟩ := Except.bind_eq_ok.mp done
        exact arr _ items (Bracketed.forall_mem_read (ih _ (Nat.lt_succ_self _)) inside)
    · split at done
      · cases done
      · obtain ⟨⟨members, rest⟩, inside, ⟨⟩⟩ := Except.bind_eq_ok.mp done
        have each := Bracketed.forall_mem_read (holds_of_readMember (ih _ (Nat.lt_succ_self _))) inside
        exact obj _ _ (Fields.nodup_names_ofPairs members) (Fields.forall_mem_ofPairs each)
    · rw [Except.guard_eq_ok] at done
      obtain ⟨⟨numeral, rest⟩, -, done⟩ := Except.bind_eq_ok.mp done.2
      obtain ⟨value, here, ⟨⟩⟩ := Except.bind_eq_ok.mp done
      unfold Numeral.value at here
      split at here
      · cases here
        exact int depth _
      · split at here
        · cases here
          exact float depth _
        · cases here

/-- A value that is read has no name twice in an object. -/
theorem distinct_of_readValue {depth : Nat} {text rest : List Char} {value : Json}
    (done : readValue depth text = .ok (value, rest)) : value.Distinct :=
  @holds_of_readValue (fun _ value => value.Distinct) (fun _ => .null) (fun _ => .bool)
    (fun _ => .int) (fun _ => .float) (fun _ => .str) (fun _ _ => .arr) (fun _ _ => .obj)
    depth text rest value done

end Json

/-! ## Records -/

namespace Record

variable {ρ α β : Type} {part : ρ → Prop}

/-- From fields of which one thing holds, the record reads values of which another does. -/
structure Yields (part : ρ → Prop) (record : Record ρ α) (holds : α → Prop) : Prop where
  members {members : List (String × ρ)} {value : α} : (∀ m ∈ members, part m.2) →
    record.ofMembers members = .ok value → holds value
  items {short : ShapeError} {items rest : List ρ} {value : α} : (∀ r ∈ items, part r) →
    record.ofItems short items = .ok (value, rest) → holds value ∧ ∀ r ∈ rest, part r

namespace Yields

variable {holds : α → Prop} {result : β → Prop}

theorem field {name : String} {read : ρ → Except ShapeError α} {default : Option α}
    (reads : ∀ {r value}, part r → read r = .ok value → holds value)
    (otherwise : ∀ value ∈ default, holds value) :
    (Record.field name read default).Yields part holds := by
  constructor
  · intro members value parts done
    unfold Record.field at done
    dsimp only at done
    split at done
    · next found => exact reads (parts _ (Fields.mem_of_lookup found)) done
    · cases done
      exact otherwise _ rfl
    · cases done
  · intro short items rest value parts done
    cases items with
    | cons r others =>
      obtain ⟨here, behind⟩ := List.forall_mem_cons.mp parts
      obtain ⟨a, read, same⟩ := Except.map_eq_ok.mp done
      cases same
      exact ⟨reads here read, behind⟩
    | nil =>
      cases default with
      | none => cases done
      | some value =>
        cases done
        exact ⟨otherwise _ rfl, parts⟩

theorem seq {f : Record ρ (α → β)} {x : Record ρ α}
    (first : f.Yields part fun g => ∀ a, holds a → result (g a)) (second : x.Yields part holds) :
    (f <*> x).Yields part result := by
  constructor
  · intro members value parts done
    obtain ⟨g, here, done⟩ := Except.bind_eq_ok.mp done
    obtain ⟨a, there, ⟨⟩⟩ := Except.bind_eq_ok.mp done
    exact first.members parts here a (second.members parts there)
  · intro short items rest value parts done
    obtain ⟨⟨g, middle⟩, here, done⟩ := Except.bind_eq_ok.mp done
    obtain ⟨⟨a, last⟩, there, ⟨⟩⟩ := Except.bind_eq_ok.mp done
    obtain ⟨function, parts⟩ := first.items parts here
    obtain ⟨argument, parts⟩ := second.items parts there
    exact ⟨function a argument, parts⟩

theorem map {g : α → β} {x : Record ρ α} (step : ∀ a, holds a → result (g a))
    (yields : x.Yields part holds) : (g <$> x).Yields part result := by
  have first : (Record.nil g : Record ρ (α → β)).Yields part
      fun g => ∀ a, holds a → result (g a) := by
    constructor
    · intro members value parts done
      cases done
      exact step
    · intro short items rest value parts done
      cases done
      exact ⟨step, parts⟩
  exact first.seq yields

/-- What the record yields, from either form of the text. -/
theorem readObject {record : Record ρ α} (yields : record.Yields part holds)
    {members : List (String × ρ)} (parts : ∀ m ∈ members, part m.2) {value : α}
    (done : record.readObject members = .ok value) : holds value := by
  obtain ⟨_, -, done⟩ := Except.bind_eq_ok.mp done
  exact yields.members parts done

theorem readArray {record : Record ρ α} (yields : record.Yields part holds) {title : String}
    {items : List ρ} (parts : ∀ r ∈ items, part r) {value : α}
    (done : record.readArray title items = .ok value) : holds value := by
  obtain ⟨⟨found, rest⟩, here, done⟩ := Except.bind_eq_ok.mp done
  rw [Except.guard_eq_ok] at done
  obtain ⟨-, ⟨⟩⟩ := done
  exact (yields.items parts here).1

end Yields

end Record

/-! ## Readings -/

/-- The payload holds no name twice. -/
structure Payload.Distinct (payload : Option Payload) : Prop where
  node : ∀ node, payload = some (.node node) → node.Distinct
  names : (Fields.names (Payload.entries payload)).Nodup
  entries : ∀ f ∈ Payload.entries payload, f.2.Distinct

/-- In whatever way the value is used, no table in it has a name twice. -/
structure Reading.Distinct (r : Reading) : Prop where
  node {node : Node} : r.node = .ok node → node.Distinct
  nodes {nodes : List Node} : r.nodes = .ok nodes → ∀ n ∈ nodes, n.Distinct
  fields {fields : List (String × Node)} : r.fields = .ok fields →
    (Fields.names fields).Nodup ∧ ∀ f ∈ fields, f.2.Distinct

namespace Reading.Distinct

variable {r : Reading}

theorem orNull {α : Type} {read : Reading → Except ShapeError α} {holds : α → Prop}
    {value : Option α} (reads : ∀ {a}, read r = .ok a → holds a) (done : r.orNull read = .ok value) :
    ∀ a ∈ value, holds a := by
  unfold Reading.orNull at done
  split at done
  · cases done
    simp
  · obtain ⟨a, here, rfl⟩ := Except.map_eq_ok.mp done
    simpa using reads here

theorem payload (distinct : r.Distinct) {payload : Payload} (done : r.payload = .ok payload) :
    Payload.Distinct (some payload) := by
  have scalar {payload : Payload} (node : ∀ node, payload ≠ .node node)
      (fields : ∀ fields, payload ≠ .fields fields) : Payload.Distinct (some payload) := by
    cases payload with
    | node inner => exact absurd rfl (node inner)
    | fields table => exact absurd rfl (fields table)
    | _ => exact ⟨nofun, .nil, nofun⟩
  unfold Reading.payload at done
  split at done
  · cases done
    exact scalar nofun nofun
  · cases done
    unfold Reading.intPayload
    split
    · exact scalar nofun nofun
    · exact scalar nofun nofun
  · cases done
    exact scalar nofun nofun
  · cases done
    exact scalar nofun nofun
  · split at done
    · next here =>
      cases done
      refine ⟨?_, .nil, nofun⟩
      intro node same
      cases same
      exact distinct.node here
    · next here =>
      cases done
      obtain ⟨apart, inner⟩ := distinct.fields here
      exact ⟨nofun, apart, inner⟩
    · cases done

end Reading.Distinct

namespace NodeShape

open Record (Yields)

/-- A node of each shape holds no name twice, if its parts do not. -/
theorem distinct_of_mem_all {shape : NodeShape} (known : shape ∈ all) :
    shape.record.Yields Reading.Distinct Node.Distinct := by
  have anything {α : Type} {name : String} {read : Reading → Except ShapeError α}
      {default : Option α} : (Record.field name read default).Yields Reading.Distinct fun _ => True :=
    .field (fun _ _ => trivial) (fun _ _ => trivial)
  have node {name : String} :
      (Record.required name Reading.node).Yields Reading.Distinct Node.Distinct :=
    .field (fun part done => part.node done) nofun
  have nodes {name : String} :
      (nodeList name).Yields Reading.Distinct fun nodes => ∀ n ∈ nodes, n.Distinct :=
    .field (fun part done => part.nodes done) (by simp)
  have nullableNode {name : String} :
      (nullable name Reading.node).Yields Reading.Distinct fun value => ∀ v ∈ value, v.Distinct :=
    .field (fun part done => Reading.Distinct.orNull part.node done) (by simp)
  have nullableNodes {name : String} : (nullable name Reading.nodes).Yields Reading.Distinct
      fun value => ∀ nodes ∈ value, ∀ n ∈ nodes, n.Distinct :=
    .field (fun part done => Reading.Distinct.orNull part.nodes done) (by simp)
  have payload {name : String} :
      (nullable name Reading.payload).Yields Reading.Distinct Payload.Distinct := by
    apply Yields.field
    · intro r value part done
      have filled := Reading.Distinct.orNull part.payload done
      cases value with
      | none => exact ⟨nofun, .nil, nofun⟩
      | some value => exact filled value rfl
    · intro value absent
      cases absent
      exact ⟨nofun, .nil, nofun⟩
  have fields {name : String} : (Record.field name Reading.fields (some [])).Yields Reading.Distinct
      fun fields => (Fields.names fields).Nodup ∧ ∀ f ∈ fields, f.2.Distinct :=
    .field (fun part done => part.fields done) (by simp [Fields.names])
  simp only [all, List.mem_cons, List.not_mem_nil, or_false] at known
  rcases known with rfl | rfl | rfl | rfl | rfl | rfl | rfl | rfl | rfl | rfl | rfl | rfl | rfl | rfl
  · exact .seq (.map (fun _ _ _ => .bind) anything) node
  · exact .seq (.map (fun _ target _ => .assign target) node) node
  · exact .map (fun _ => .ret) nullableNode
  · exact .seq (.seq (.map (fun _ test _ body _ => .branch test body) node) nodes) nullableNodes
  · exact .seq (.map (fun _ test _ => .loop test) node) nodes
  · exact .map (fun name _ => .ident name) anything
  · refine .seq (.seq (.seq (.map ?_ node) payload) anything) nodes
    intro _ described _ filled _ _ _ body
    exact .literal described filled.node filled.names filled.entries body
  · exact .map (fun _ => .new) node
  · exact .seq (.seq (.map (fun _ _ _ left _ => .binary left) anything) node) node
  · exact .seq (.map (fun _ _ _ => .unary) anything) node
  · exact .seq (.map (fun _ callee _ => .call callee) node) nodes
  · exact .seq (.map (fun _ object _ _ => .member object) node) anything
  · exact .seq (.map (fun _ object _ => .element object) node) node
  · refine .seq (.seq (.seq (.seq (.map ?_ anything) anything) nodes) nullableNode) fields
    intro _ _ _ _ _ parameters _ returns _ table
    exact .type parameters returns table.1 table.2

end NodeShape

theorem Reading.distinct_ofScalar (value : Json) : (Reading.ofScalar value).Distinct := by
  constructor
  · intro node done
    cases done
  · intro nodes done
    cases done
  · intro fields done
    cases done

theorem Reading.distinct_of_nodeOfMembers {members : List (String × Reading)}
    (parts : ∀ m ∈ members, m.2.Distinct) {node : Node} (done : nodeOfMembers members = .ok node) :
    node.Distinct := by
  unfold nodeOfMembers at done
  split at done
  · cases done
  · split at done
    · split at done
      · next found =>
        have known := NodeShape.distinct_of_mem_all (List.mem_of_find?_eq_some found)
        exact known.readObject parts done
      · cases done
        exact .unknown _
    · cases done

theorem Reading.distinct_of_nodeOfItems {items : List Reading} (parts : ∀ r ∈ items, r.Distinct)
    {node : Node} (done : nodeOfItems items = .ok node) : node.Distinct := by
  unfold nodeOfItems at done
  split at done
  · cases done
  · split at done
    · split at done
      · next found =>
        have known := NodeShape.distinct_of_mem_all (List.mem_of_find?_eq_some found)
        exact known.readArray (List.forall_mem_cons.mp parts).2 done
      · cases done
    · cases done

namespace Json

theorem readings_eq_map (items : List Json) : readings items = items.map reading := by
  induction items with
  | nil => rfl
  | cons item rest ih => rw [readings, ih, List.map_cons]

theorem memberReadings_eq_map (members : List (String × Json)) :
    memberReadings members = members.map fun member => (member.1, member.2.reading) := by
  induction members with
  | nil => rfl
  | cons member rest ih =>
    obtain ⟨name, value⟩ := member
    rw [memberReadings, ih, List.map_cons]

theorem Distinct.reading {value : Json} (distinct : value.Distinct) : value.reading.Distinct := by
  induction distinct with
  | @arr items _ ih =>
    have parts : ∀ r ∈ readings items, r.Distinct := by
      rw [readings_eq_map, List.forall_mem_map]
      exact ih
    refine ⟨Reading.distinct_of_nodeOfItems parts, ?_, ?_⟩
    · intro nodes done n member
      obtain ⟨r, inside, here⟩ := exists_of_mem_forall₂ (forall₂_of_mapM done) n member
      exact (parts r inside).node here
    · intro fields done
      cases done
  | @obj members apart _ ih =>
    have parts : ∀ m ∈ memberReadings members, m.2.Distinct := by
      rw [memberReadings_eq_map, List.forall_mem_map]
      exact ih
    refine ⟨Reading.distinct_of_nodeOfMembers parts, ?_, ?_⟩
    · intro nodes done
      cases done
    · intro fields done
      have entries : List.Forall₂ (Fields.Entry fun r n => r.node = .ok n)
          (memberReadings members) fields := by
        refine (forall₂_of_mapM done).imp ?_
        intro member field here
        obtain ⟨node, read, rfl⟩ := Except.map_eq_ok.mp here
        exact .mk read
      constructor
      · rw [← Fields.names_eq_of_entries entries, memberReadings_eq_map, Fields.names, List.map_map]
        exact apart
      · intro field member
        obtain ⟨origin, inside, here⟩ := exists_of_mem_forall₂ entries field member
        cases here with
        | mk read => exact (parts _ inside).node read
  | _ => exact Reading.distinct_ofScalar _

end Json

/-! ## Programs -/

theorem Node.distinct_of_readNext {depth : Nat} {text rest : List Char} {node : Node}
    (done : readNext depth text = .ok (node, rest)) : node.Distinct := by
  obtain ⟨⟨value, rest⟩, read, done⟩ := Except.bind_eq_ok.mp done
  obtain ⟨node, shaped, ⟨⟩⟩ := Except.bind_eq_ok.mp done
  exact (Json.distinct_of_readValue (Except.mapError_eq_ok.mp read)).reading.node
    (Except.mapError_eq_ok.mp shaped)

/-- No table of a program that is read has a name twice, so of such a program the order of fields
decides nothing. -/
theorem Program.distinct_of_read {text : String} {program : Program}
    (done : read text = .ok program) : program.Distinct := by
  unfold read at done
  split at done
  · obtain ⟨⟨nodes, rest⟩, inside, done⟩ := Except.bind_eq_ok.mp done
    obtain ⟨_, -, ⟨⟩⟩ := Except.bind_eq_ok.mp done
    exact Bracketed.forall_mem_read Node.distinct_of_readNext inside
  · cases done
  · obtain ⟨_, -, ⟨⟩⟩ := Except.bind_eq_ok.mp done

end Arbor
