import Arbor.Proofs.Constructible
import Arbor.Proofs.Reordering

/-!
# Type descriptors

A node describes a type exactly when it is supported, which can be read off its syntax. What is
described are the types without lists, all of them: every such type has a descriptor of its own that
lowers to it. The parts of a descriptor that its tag does not use decide nothing, not even which
error is reported.
-/

namespace Arbor

/-! ## Lists and tables of descriptors -/

theorem Node.lowerAll_iff {nodes : List Node} {types : List Ty} :
    lowerAll nodes = .ok types ↔ List.Forall₂ (fun n t => n.lower = .ok t) nodes types := by
  induction nodes generalizing types with
  | nil => simp [lowerAll, eq_comm]
  | cons node rest ih =>
    simp only [lowerAll, Except.bind_eq_ok, ih, Except.ok.injEq, List.forall₂_cons_left_iff]
    constructor
    · intro ⟨t, first, others, more, same⟩
      exact ⟨t, others, first, more, same.symm⟩
    · intro ⟨t, others, first, more, same⟩
      exact ⟨t, first, others, more, same.symm⟩

theorem Node.lowerFields_iff {fields : List (String × Node)} {types : List (String × Ty)} :
    lowerFields fields = .ok types ↔
      List.Forall₂ (Fields.Entry fun n t => n.lower = .ok t) fields types := by
  induction fields generalizing types with
  | nil => simp [lowerFields, eq_comm]
  | cons field rest ih =>
    obtain ⟨name, node⟩ := field
    simp only [lowerFields, Except.bind_eq_ok, ih, Except.ok.injEq, List.forall₂_cons_left_iff]
    constructor
    · intro ⟨t, first, others, more, same⟩
      exact ⟨_, others, .mk first, more, same.symm⟩
    · intro ⟨_, others, .mk first, more, same⟩
      exact ⟨_, first, others, more, same.symm⟩

theorem lowerAll_congr {nodes nodes' : List Node}
    (parts : List.Forall₂ (fun n n' => n'.lower = n.lower) nodes nodes') :
    Node.lowerAll nodes' = Node.lowerAll nodes := by
  induction parts with
  | nil => rfl
  | cons first rest ih => rw [Node.lowerAll, Node.lowerAll, first, ih]

theorem lowerFields_congr {fields kept : List (String × Node)}
    (parts : List.Forall₂ (Fields.Entry fun n n' => n'.lower = n.lower) fields kept) :
    Node.lowerFields kept = Node.lowerFields fields := by
  induction parts with
  | nil => rfl
  | cons first rest ih =>
    cases first with
    | mk same => rw [Node.lowerFields, Node.lowerFields, same, ih]

/-! ## Supported descriptors -/

namespace Node

/-- The node is a descriptor without a name, of a primitive type or with all the parts that its tag
uses, which are supported in turn. -/
inductive Supported : Node → Prop where
  | prim {p : Primitive} {parameters : List Node} {returns : Option Node}
      {fields : List (String × Node)} : Supported (.type (.prim p) none parameters returns fields)
  | fn {parameters : List Node} {returns : Node} {fields : List (String × Node)} :
      (∀ n ∈ parameters, Supported n) → Supported returns →
      Supported (.type .fn none parameters (some returns) fields)
  | obj {parameters : List Node} {returns : Option Node} {fields : List (String × Node)} :
      (∀ f ∈ fields, Supported f.2) → Supported (.type .obj none parameters returns fields)

/-- The nodes differ at most in parts of descriptors that the tags do not use, at any depth. -/
inductive SameUsed : Node → Node → Prop where
  | refl (node : Node) : SameUsed node node
  | fn {name : Option String} {parameters parameters' : List Node} {returns returns' : Option Node}
      {fields fields' : List (String × Node)} : List.Forall₂ SameUsed parameters parameters' →
      Option.Rel SameUsed returns returns' →
      SameUsed (.type .fn name parameters returns fields) (.type .fn name parameters' returns' fields')
  | obj {name : Option String} {parameters parameters' : List Node}
      {returns returns' : Option Node} {fields fields' : List (String × Node)} :
      List.Forall₂ (Fields.Entry SameUsed) fields fields' →
      SameUsed (.type .obj name parameters returns fields)
        (.type .obj name parameters' returns' fields')
  | simple {tag : Tag} {name : Option String} {parameters parameters' : List Node}
      {returns returns' : Option Node} {fields fields' : List (String × Node)} : tag ≠ .fn →
      tag ≠ .obj → SameUsed (.type tag name parameters returns fields)
        (.type tag name parameters' returns' fields')

theorem lower_fn {parameters : List Node} {returns : Node} {fields : List (String × Node)}
    {types : List Ty} {result : Ty} (first : lowerAll parameters = .ok types)
    (second : returns.lower = .ok result) :
    (Node.type .fn none parameters (some returns) fields).lower = .ok (.fn types result) := by
  rw [lower]
  exact Except.bind_eq_ok.mpr ⟨types, first, Except.bind_eq_ok.mpr ⟨result, second, rfl⟩⟩

theorem lower_obj {parameters : List Node} {returns : Option Node} {fields : List (String × Node)}
    {types : List (String × Ty)} (lowered : lowerFields fields = .ok types) :
    (Node.type .obj none parameters returns fields).lower = .ok (.obj types) := by
  rw [lower]
  exact Except.bind_eq_ok.mpr ⟨types, lowered, rfl⟩

theorem Supported.exists_lower {node : Node} (supported : node.Supported) :
    ∃ type, node.lower = .ok type := by
  induction supported with
  | prim => exact ⟨_, rfl⟩
  | fn _ _ parametersIH returnsIH =>
    obtain ⟨types, pairs⟩ := exists_forall₂ parametersIH
    obtain ⟨result, described⟩ := returnsIH
    exact ⟨_, lower_fn (lowerAll_iff.mpr pairs) described⟩
  | @obj _ _ fields _ ih =>
    have parts : ∀ f ∈ fields, ∃ e, Fields.Entry (fun n t => n.lower = .ok t) f e := by
      rintro ⟨name, node⟩ member
      obtain ⟨type, described⟩ := ih _ member
      exact ⟨(name, type), .mk described⟩
    obtain ⟨types, pairs⟩ := exists_forall₂ parts
    exact ⟨_, lower_obj (lowerFields_iff.mpr pairs)⟩

theorem supported_of_lower {node : Node} {type : Ty} (lowered : node.lower = .ok type) :
    node.Supported := by
  induction node generalizing type with
  | type tag name parameters returns fields parametersIH returnsIH fieldsIH =>
    rcases lower_eq_ok lowered with ⟨_, _, _, _, same, -⟩ |
      ⟨_, _, _, types, result, same, first, second, -⟩ | ⟨_, _, _, types, same, first, -⟩
    · cases same
      exact .prim
    · cases same
      refine .fn ?_ (returnsIH _ rfl second)
      intro n member
      obtain ⟨t, -, described⟩ := exists_of_mem_forall₂ (lowerAll_iff.mp first).flip n member
      exact parametersIH n member described
    · cases same
      refine .obj ?_
      intro f member
      obtain ⟨_, -, described⟩ := exists_of_mem_forall₂ (lowerFields_iff.mp first).flip f member
      cases described with
      | mk described => exact fieldsIH _ member described
  | _ => cases lowered

/-- What a tag does not use decides neither the type nor the error. -/
theorem SameUsed.lower_eq {node node' : Node} (same : node.SameUsed node') :
    node'.lower = node.lower := by
  induction node generalizing node' with
  | type tag name parameters returns fields parametersIH returnsIH fieldsIH =>
    cases name with
    | some name => cases same <;> rfl
    | none =>
      cases same with
      | refl => rfl
      | fn pairs result =>
        have inner := lowerAll_congr (forall₂_refine pairs fun n member _ => parametersIH n member)
        rw [lower, lower, inner]
        cases result with
        | none => rfl
        | some result => simp only [returnsIH _ rfl result]
      | obj pairs =>
        have entries := lowerFields_congr
          (Fields.entries_refine pairs fun f member _ => fieldsIH f member)
        rw [lower, lower, entries]
      | simple noFunction noObject =>
        cases tag with
        | fn => exact absurd rfl noFunction
        | obj => exact absurd rfl noObject
        | _ => rw [lower, lower]
  | _ =>
    cases same
    rfl

end Node

/-! ## The descriptor of a type -/

namespace Ty

mutual

/-- The descriptor of a type that has no part which its tag does not use. -/
def descriptor : Ty → Node
  | .prim p => .type (.prim p) none [] none []
  | .fn parameters returns =>
    .type .fn none (descriptors parameters) (some returns.descriptor) []
  | .obj fields => .type .obj none [] none (fieldDescriptors fields)
  | .list => .type .list none [] none []

/-- The descriptors of the types of a list. -/
def descriptors : List Ty → List Node
  | [] => []
  | type :: rest => type.descriptor :: descriptors rest

/-- The descriptors of the types of fields. -/
def fieldDescriptors : List (String × Ty) → List (String × Node)
  | [] => []
  | (name, type) :: rest => (name, type.descriptor) :: fieldDescriptors rest

end

theorem lowerAll_descriptors {types : List Ty}
    (parts : ∀ t ∈ types, t.descriptor.lower = .ok t) :
    Node.lowerAll (descriptors types) = .ok types := by
  induction types with
  | nil => rfl
  | cons type rest ih =>
    have others := ih fun t member => parts t (by simp [member])
    rw [descriptors, Node.lowerAll, parts type (by simp), others]
    rfl

theorem lowerFields_fieldDescriptors {fields : List (String × Ty)}
    (parts : ∀ f ∈ fields, f.2.descriptor.lower = .ok f.2) :
    Node.lowerFields (fieldDescriptors fields) = .ok fields := by
  induction fields with
  | nil => rfl
  | cons field rest ih =>
    obtain ⟨name, type⟩ := field
    have others := ih fun f member => parts f (by simp [member])
    have first : type.descriptor.lower = .ok type := parts (name, type) (by simp)
    rw [fieldDescriptors, Node.lowerFields, first, others]
    rfl

theorem ListFree.lower_descriptor {type : Ty} (free : type.ListFree) :
    type.descriptor.lower = .ok type := by
  induction free with
  | prim p => rfl
  | fn _ _ parametersIH returnsIH =>
    exact Node.lower_fn (lowerAll_descriptors parametersIH) returnsIH
  | obj _ ih => exact Node.lower_obj (lowerFields_fieldDescriptors ih)

end Ty

namespace Node

/-- Exactly the supported descriptors describe a type, exactly the types without lists are
described, each by its own descriptor, and what the tags do not use decides nothing. -/
theorem lower_iff_supported :
    (∀ node : Node, (∃ type, node.lower = .ok type) ↔ node.Supported) ∧
      (∀ (node : Node) (type : Ty), node.lower = .ok type → type.ListFree) ∧
      (∀ type : Ty, type.ListFree → type.descriptor.lower = .ok type) ∧
      ∀ node node' : Node, node.SameUsed node' → node'.lower = node.lower := by
  refine ⟨?_, fun node _ => node.lower_listFree, fun _ free => free.lower_descriptor,
    fun _ _ same => same.lower_eq⟩
  intro node
  constructor
  · rintro ⟨type, lowered⟩
    exact supported_of_lower lowered
  · exact Supported.exists_lower

/-- An object type with one method, and descriptors of all sorts where nothing is looked at. -/
theorem lower_iff_supported_of_cluttered :
    let method : Ty := .fn [.prim .int] (.prim .bool)
    let cluttered : Node := .type .obj none [.ident "x"] (some (.type .list none [] none []))
      [("m", .type .fn none [.type (.prim .int) none [] none [("y", .ident "y")]]
        (some (Ty.prim .bool).descriptor) [("z", .unknown "z")])]
    (cluttered.Supported ∧ (Ty.obj [("m", method)]).ListFree) ∧
      (Ty.obj [("m", method)]).descriptor.SameUsed cluttered ∧
        cluttered.lower = .ok (.obj [("m", method)]) := by
  intro method cluttered
  have lowered : cluttered.lower = .ok (.obj [("m", method)]) := rfl
  have free := lower_iff_supported.2.1 cluttered _ lowered
  have same : (Ty.obj [("m", method)]).descriptor.SameUsed cluttered := by
    refine .obj (.cons (.mk (.fn (.cons (.simple ?_ ?_) .nil) (.some (.refl _)))) .nil)
    · exact nofun
    · exact nofun
  have kept := lower_iff_supported.2.2.2 _ _ same
  exact ⟨⟨(lower_iff_supported.1 cluttered).mp ⟨_, lowered⟩, free⟩, same,
    kept.trans (lower_iff_supported.2.2.1 _ free)⟩

end Node

end Arbor
