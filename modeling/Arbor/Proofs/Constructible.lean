import Arbor.Proofs.EmitRun
import Arbor.Proofs.NodeInduction

/-!
# Constructible types

A type has a constructor when no list type occurs in it, and descriptors lower to such types only,
so a type that came out of a descriptor can always be built.
-/

namespace Arbor

/-- No list type occurs in the type. -/
inductive Ty.ListFree : Ty → Prop where
  | prim (p : Primitive) : ListFree (.prim p)
  | fn {parameters : List Ty} {returns : Ty} : (∀ t ∈ parameters, ListFree t) → ListFree returns →
      ListFree (.fn parameters returns)
  | obj {fields : List (String × Ty)} : (∀ f ∈ fields, ListFree f.2) → ListFree (.obj fields)

namespace Ty

/-- The tag of the descriptors of a type. -/
def descriptorTag : Ty → Tag
  | .prim p => .prim p
  | .fn .. => .fn
  | .obj _ => .obj
  | .list => .list

theorem exists_constructors {types : List Ty}
    (parts : ∀ t ∈ types, ∃ text, t.constructor = .ok text) :
    ∃ texts, constructors types = .ok texts := by
  induction types with
  | nil => exact ⟨[], rfl⟩
  | cons type rest ih =>
    obtain ⟨text, built⟩ := parts type (by simp)
    obtain ⟨texts, others⟩ := ih fun t ht => parts t (by simp [ht])
    exact ⟨text :: texts, by rw [constructors, built, others]; rfl⟩

theorem exists_fieldConstructors {fields : List (String × Ty)}
    (parts : ∀ f ∈ fields, ∃ text, f.2.constructor = .ok text) :
    ∃ text, fieldConstructors fields = .ok text := by
  induction fields with
  | nil => exact ⟨"", rfl⟩
  | cons field rest ih =>
    obtain ⟨name, type⟩ := field
    obtain ⟨text, built⟩ := parts (name, type) (by simp)
    obtain ⟨others, rest⟩ := ih fun f hf => parts f (by simp [hf])
    exact ⟨_, by rw [fieldConstructors, built, rest]; rfl⟩

/-- A type without lists can be built. -/
theorem ListFree.exists_constructor {type : Ty} (free : type.ListFree) :
    ∃ text, type.constructor = .ok text := by
  induction free with
  | prim p => exact ⟨_, rfl⟩
  | fn _ _ parametersIH returnsIH =>
    obtain ⟨texts, parameters⟩ := exists_constructors parametersIH
    obtain ⟨text, returns⟩ := returnsIH
    exact ⟨_, by rw [constructor, parameters, returns]; rfl⟩
  | obj _ ih =>
    obtain ⟨text, fields⟩ := exists_fieldConstructors ih
    exact ⟨_, by rw [constructor, fields]; rfl⟩

theorem listFree_of_constructors {types : List Ty}
    (parts : ∀ t ∈ types, ∀ text, t.constructor = .ok text → t.ListFree) {texts : List String}
    (built : constructors types = .ok texts) : ∀ t ∈ types, t.ListFree := by
  induction types generalizing texts with
  | nil => simp
  | cons type rest ih =>
    obtain ⟨text, first, built⟩ := Except.bind_eq_ok.mp built
    obtain ⟨more, next, -⟩ := Except.bind_eq_ok.mp built
    have others := ih (fun t member => parts t (by simp [member])) next
    exact List.forall_mem_cons.mpr ⟨parts type (by simp) text first, others⟩

theorem listFree_of_fieldConstructors {fields : List (String × Ty)}
    (parts : ∀ f ∈ fields, ∀ text, f.2.constructor = .ok text → f.2.ListFree) {text : String}
    (built : fieldConstructors fields = .ok text) : ∀ f ∈ fields, f.2.ListFree := by
  induction fields generalizing text with
  | nil => simp
  | cons field rest ih =>
    obtain ⟨name, type⟩ := field
    obtain ⟨text, first, built⟩ := Except.bind_eq_ok.mp built
    obtain ⟨more, next, -⟩ := Except.bind_eq_ok.mp built
    have others := ih (fun f member => parts f (by simp [member])) next
    exact List.forall_mem_cons.mpr ⟨parts (name, type) (by simp) text first, others⟩

/-- A type that can be built is without lists. -/
theorem listFree_of_constructor {type : Ty} {text : String} (built : type.constructor = .ok text) :
    type.ListFree := by
  induction type generalizing text with
  | prim p => exact .prim p
  | fn parameters returns parametersIH returnsIH =>
    obtain ⟨texts, first, built⟩ := Except.bind_eq_ok.mp built
    obtain ⟨last, second, -⟩ := Except.bind_eq_ok.mp built
    have inner := listFree_of_constructors (fun t member _ built => parametersIH t member built) first
    exact .fn inner (returnsIH second)
  | obj fields ih =>
    obtain ⟨text, first, -⟩ := Except.bind_eq_ok.mp built
    exact .obj (listFree_of_fieldConstructors (fun f member _ built => ih f member built) first)
  | list => cases built

end Ty

namespace Node

theorem lowerAll_listFree {nodes : List Node} {types : List Ty}
    (parts : ∀ n ∈ nodes, ∀ type, n.lower = .ok type → type.ListFree)
    (lowered : lowerAll nodes = .ok types) : ∀ t ∈ types, t.ListFree := by
  induction nodes generalizing types with
  | nil =>
    cases lowered
    simp
  | cons node rest ih =>
    obtain ⟨type, first, others⟩ := Except.bind_eq_ok.mp lowered
    obtain ⟨types, rest', ⟨⟩⟩ := Except.bind_eq_ok.mp others
    intro t ht
    rcases List.mem_cons.mp ht with rfl | ht
    · exact parts node (by simp) _ first
    · exact ih (fun n hn => parts n (by simp [hn])) rest' t ht

theorem lowerFields_listFree {fields : List (String × Node)} {types : List (String × Ty)}
    (parts : ∀ f ∈ fields, ∀ type, f.2.lower = .ok type → type.ListFree)
    (lowered : lowerFields fields = .ok types) : ∀ f ∈ types, f.2.ListFree := by
  induction fields generalizing types with
  | nil =>
    cases lowered
    simp
  | cons field rest ih =>
    obtain ⟨name, node⟩ := field
    obtain ⟨type, first, others⟩ := Except.bind_eq_ok.mp lowered
    obtain ⟨types, rest', ⟨⟩⟩ := Except.bind_eq_ok.mp others
    intro f hf
    rcases List.mem_cons.mp hf with rfl | hf
    · exact parts (name, node) (by simp) _ first
    · exact ih (fun f hf => parts f (by simp [hf])) rest' f hf

/-- What a successful lowering says about the descriptor: it has no name, and its tag is that of
the type. -/
theorem lower_eq_ok {node : Node} {type : Ty} (lowered : node.lower = .ok type) :
    (∃ p parameters returns fields, node = .type (.prim p) none parameters returns fields ∧
        type = .prim p) ∨
      (∃ parameters returns fields types result,
        node = .type .fn none parameters (some returns) fields ∧ lowerAll parameters = .ok types ∧
          returns.lower = .ok result ∧ type = .fn types result) ∨
      (∃ parameters returns fields types, node = .type .obj none parameters returns fields ∧
        lowerFields fields = .ok types ∧ type = .obj types) := by
  unfold lower at lowered
  split at lowered
  · cases lowered
  · cases lowered
    exact .inl ⟨_, _, _, _, rfl, rfl⟩
  · obtain ⟨types, first, rest⟩ := Except.bind_eq_ok.mp lowered
    split at rest
    · cases rest
    · obtain ⟨result, second, ⟨⟩⟩ := Except.bind_eq_ok.mp rest
      exact .inr (.inl ⟨_, _, _, _, _, rfl, first, second, rfl⟩)
  · obtain ⟨types, first, ⟨⟩⟩ := Except.bind_eq_ok.mp lowered
    exact .inr (.inr ⟨_, _, _, _, rfl, first, rfl⟩)
  · cases lowered
  · cases lowered
  · cases lowered

/-- The tag of a descriptor that lowers to a type. -/
theorem descriptorTag_of_lower {node : Node} {type : Ty} (lowered : node.lower = .ok type) :
    node.descriptorTag = .ok type.descriptorTag := by
  rcases lower_eq_ok lowered with ⟨_, _, _, _, rfl, rfl⟩ | ⟨_, _, _, _, _, rfl, _, _, rfl⟩ |
    ⟨_, _, _, _, rfl, _, rfl⟩ <;> rfl

theorem lower_listFree (node : Node) {type : Ty} (lowered : node.lower = .ok type) :
    type.ListFree := by
  induction node generalizing type with
  | type tag name parameters returns fields parametersIH returnsIH fieldsIH =>
    rcases lower_eq_ok lowered with ⟨p, _, _, _, same, rfl⟩ |
      ⟨_, _, _, types, result, same, first, second, rfl⟩ | ⟨_, _, _, types, same, first, rfl⟩
    · exact .prim p
    · cases same
      exact .fn (lowerAll_listFree (fun n hn _ h => parametersIH n hn h) first)
        (returnsIH _ rfl second)
    · cases same
      exact .obj (lowerFields_listFree (fun f hf _ h => fieldsIH f hf h) first)
  | _ => cases lowered

/-- A type that a descriptor lowers to can be built. -/
theorem exists_constructor_of_lower {node : Node} {type : Ty} (lowered : node.lower = .ok type) :
    ∃ text, type.constructor = .ok text :=
  (node.lower_listFree lowered).exists_constructor

end Node

end Arbor
